import Mathlib.Algebra.Order.Ring.Int
import Mathlib.Data.List.Pairwise
import P2.Lib.Runs

/-!
# Loss detection

The receiver of rate control keeps the sequence numbers of a connection in a history, newest first,
and one missing number. A tuple that comes five numbers after it makes a loss record. Sequence numbers
are positive numbers of 64 bits, so that only the number after one can overflow.

* `Connection.handle_tuple` handles a number, and makes a record or not.
* `Connection.Gap` says where in the history the missing number is.
* `Connection.loss_detection_sound`: every record is made of a gap, and lists no number received.
-/

namespace P2.Net.RateCCR

open P2.Lib List

/-- The number after one, in 64 bits. -/
def succ (seq : ℤ) : ℤ := (seq + 1).bmod (2 ^ 64)

structure LossRec where
  length : ℕ
  loss_tuples : List ℤ
deriving DecidableEq

namespace LossRec

/-- The loop of the constructor: the tuple after the miss, and the one just before it. -/
def search (miss : ℤ) (a : Option ℤ) : List ℤ → Option ℤ × Option ℤ
  | [] => (a, none)
  | i :: is => if succ i = miss then (a, some i) else search miss (some i) is

def between (b a : ℤ) : List ℤ := (List.range (a - b - 1).toNat).map fun n : ℕ => b + 1 + n

def make (history : List ℤ) (miss : ℤ) : Option LossRec :=
  match search miss none history with
  | (some a, some b) => if a - b > 0 then some ⟨history.length, between b a⟩ else none
  | _ => none

end LossRec

/-- A connection, and the numbers that came since its history was cleared. -/
structure Connection where
  order : ℤ := 5
  seq_miss : ℤ := 0
  history : List ℤ := []
  loss_recs : List LossRec := []
  received : List ℤ := []
deriving DecidableEq

namespace Connection

/-! ## The element -/

def void (seq : ℤ) : List LossRec → List LossRec
  | [] => []
  | i :: is =>
    if seq ∈ i.loss_tuples then
      let i := { i with loss_tuples := i.loss_tuples.erase seq }
      if i.loss_tuples.isEmpty then is else i :: void seq is
    else i :: void seq is

def fill (tip : ℤ) : List ℤ → List ℤ
  | [] => []
  | i :: is => if i < tip then tip :: i :: is else i :: fill tip is

/-- The look for a new missing number, from the entry after `prev` to the tuple that came. -/
def rescan (tip miss prev : ℤ) : List ℤ → ℤ
  | [] => miss
  | i :: is =>
    if i = tip then miss else rescan tip (if prev ≠ succ i then succ i else miss) i is

/-- The number is so far behind the missing one that a record is made. -/
def Loses (s : Connection) (seq : ℤ) : Prop := s.seq_miss ≠ 0 ∧ seq - s.seq_miss ≥ s.order

instance (s : Connection) (seq : ℤ) : Decidable (s.Loses seq) := inferInstanceAs (Decidable (_ ∧ _))

/-- The record that is made, if any; `none` where a null pointer is followed or an assertion fails. -/
def handle_tuple (seq : ℤ) (s : Connection) : Option (Option LossRec × Connection) := do
  if s.Loses seq then
    let loss ← LossRec.make s.history s.seq_miss
    return (some loss, { s with
      loss_recs := (loss :: s.loss_recs).take 8
      seq_miss := 0
      history := [seq] })
  match s.history with
  | [] => return (none, { s with history := [seq] })
  | front :: rest =>
    if front < seq then
      return (none, { s with
        history := seq :: front :: rest
        seq_miss := if s.seq_miss = 0 ∧ succ front ≠ seq then succ front else s.seq_miss })
    else if ∀ back ∈ s.history.getLast?, seq < back then
      return (none, { s with loss_recs := void seq s.loss_recs })
    else
      return (none, { s with
        history := front :: fill seq rest
        seq_miss := if s.seq_miss = seq then rescan seq 0 front (fill seq rest) else s.seq_miss })

/-- A number comes; the history is cleared where a record is made. -/
def step (s : Connection) (seq : ℤ) : Option Connection := do
  let (loss, s') ← s.handle_tuple seq
  return { s' with received := if loss.isSome then [seq] else s.received ++ [seq] }

/-- A positive number that is not in the history and, if a record is to be made, comes after a number
that is behind the missing one. -/
structure Fits (s : Connection) (seq : ℤ) : Prop where
  positive : 0 < seq ∧ seq < 2 ^ 63
  new : seq ∉ s.history
  after : s.Loses seq → ∃ a ∈ s.history, s.seq_miss < a ∧ a < seq

/-! ## Gaps -/

/-- The number is one above an entry, and the entry before that is larger. -/
def Gap (history : List ℤ) (miss : ℤ) : Prop :=
  ∃ above a b below, history = above ++ a :: b :: below ∧ b + 1 = miss ∧ miss < a

structure Ok (s : Connection) : Prop where
  positive : ∀ x ∈ s.history, 0 < x ∧ x < 2 ^ 63
  sorted : s.history.Pairwise (· > ·)
  gap : s.seq_miss ≠ 0 → Gap s.history s.seq_miss
  received : ∀ r ∈ s.received, r ∈ s.history ∨ ∀ x ∈ s.history, r < x
  empty : s.history = [] → s.received = []

variable {s : Connection} {seq miss : ℤ} {history : List ℤ}

lemma succ_eq (h : 0 < seq) (h' : seq < 2 ^ 63 - 1) : succ seq = seq + 1 :=
  Int.bmod_eq_of_le (by omega) (by omega)

/-- Of all positive numbers only one has a given positive number after it. -/
lemma succ_ne {b x : ℤ} (hx : 0 < x ∧ x < 2 ^ 63) (hb : 0 < b) (hlt : b < x) : succ x ≠ b + 1 := by
  by_cases hmax : x = 2 ^ 63 - 1
  · subst hmax
    rw [show succ (2 ^ 63 - 1) = -2 ^ 63 from rfl]
    omega
  · rw [succ_eq hx.1 (by omega)]
    omega

lemma Gap.cons (h : Gap history miss) (x : ℤ) : Gap (x :: history) miss := by
  obtain ⟨above, a, b, below, rfl, hb, ha⟩ := h
  exact ⟨x :: above, a, b, below, rfl, hb, ha⟩

lemma search_append {above : List ℤ} {a b : ℤ} (hb : 0 < b)
    (ha : ∀ x ∈ above ++ [a], b < x ∧ x < 2 ^ 63) (a' : Option ℤ) (below : List ℤ) :
    LossRec.search (b + 1) a' (above ++ a :: b :: below) = (some a, some b) := by
  have hne {x : ℤ} (hx : x ∈ above ++ [a]) : succ x ≠ b + 1 := by
    obtain ⟨hlt, hmax⟩ := ha x hx
    exact succ_ne ⟨Int.lt_trans hb hlt, hmax⟩ hb hlt
  have hlt := ha a (by simp)
  have hsucc : succ b = b + 1 := succ_eq hb (by omega)
  induction above generalizing a' with
  | nil => simp [LossRec.search, hsucc, hne]
  | cons x above ih =>
    rw [cons_append, LossRec.search, if_neg (hne (by simp))]
    exact ih (fun y hy => ha y (mem_cons_of_mem _ hy)) _ fun hy => hne (mem_cons_of_mem _ hy)

lemma mem_between {a b n : ℤ} : n ∈ LossRec.between b a ↔ b < n ∧ n < a := by
  simp only [LossRec.between, mem_map, mem_range]
  constructor
  · omega
  · rintro ⟨hb, ha⟩
    exact ⟨(n - b - 1).toNat, by omega, by omega⟩

lemma Ok.make (h : Ok s) (hmiss : s.seq_miss ≠ 0) : ∃ above a b below,
    s.history = above ++ a :: b :: below ∧ b + 1 = s.seq_miss ∧ b < a ∧
    LossRec.make s.history s.seq_miss = some ⟨s.history.length, LossRec.between b a⟩ ∧
    (∀ n ∈ LossRec.between b a, n ∉ s.received) ∧ ∀ x ∈ s.history, b < x → a ≤ x := by
  obtain ⟨above, a, b, below, hhistory, hb, ha⟩ := h.gap hmiss
  have hpositive := h.positive
  have hsorted := h.sorted
  rw [hhistory, pairwise_append, pairwise_cons, pairwise_cons] at hsorted
  obtain ⟨-, ⟨hafter, hbelow, -⟩, habove⟩ := hsorted
  have hab : b < a := hafter b mem_cons_self
  rw [hhistory] at hpositive
  have hleast : ∀ x ∈ s.history, b < x → a ≤ x := by
    intro x hx hbx
    rw [hhistory] at hx
    simp only [mem_append, mem_cons] at hx
    rcases hx with hx | rfl | rfl | hx
    · exact Int.le_of_lt (habove x hx a mem_cons_self)
    · exact Int.le_refl x
    · omega
    · exact absurd (hbelow x hx) (by omega)
  refine ⟨above, a, b, below, hhistory, hb, hab, ?_, fun n hn hreceived => ?_, hleast⟩
  · have hsearch : LossRec.search s.seq_miss none s.history = (some a, some b) := by
      rw [hhistory, ← hb]
      refine search_append (hpositive b (by simp)).1 (fun x hx => ?_) none below
      rcases mem_append.mp hx with hx | hx
      · exact ⟨habove x hx b (by simp), (hpositive x (by simp [hx])).2⟩
      · rw [mem_singleton.mp hx]
        exact ⟨hab, (hpositive a (by simp)).2⟩
    simp [LossRec.make, hsearch, hab]
  · obtain ⟨hbn, hna⟩ := mem_between.mp hn
    rcases h.received n hreceived with hmem | hlt
    · exact absurd (hleast n hmem hbn) (by omega)
    · have hlt := hlt b (by simp [hhistory])
      omega

lemma exists_back {front : ℤ} {rest : List ℤ} (h : (front :: rest).Pairwise (· > ·)) :
    ∃ back ∈ front :: rest, (front :: rest).getLast? = some back ∧
      ∀ x ∈ front :: rest, back ≤ x := by
  have hne := cons_ne_nil front rest
  refine ⟨_, getLast_mem hne, getLast?_eq_some_getLast hne, fun x hx => ?_⟩
  rw [← dropLast_append_getLast hne] at h hx
  rcases mem_append.mp hx with hx | hx
  · exact Int.le_of_lt ((pairwise_append.mp h).2.2 x hx _ mem_cons_self)
  · exact Int.le_of_eq (mem_singleton.mp hx).symm

/-! ## A hole is filled -/

lemma mem_fill_of_mem {x : ℤ} (hx : x ∈ history) : x ∈ fill seq history := by
  induction history with
  | nil => exact hx
  | cons i is ih => grind [fill]

lemma mem_fill {x : ℤ} (hx : x ∈ fill seq history) : x = seq ∨ x ∈ history := by
  induction history with
  | nil => exact Or.inr hx
  | cons i is ih => grind [fill]

lemma seq_mem_fill {back : ℤ} (hback : back ∈ history) (hlt : back < seq) :
    seq ∈ fill seq history := by
  induction history with
  | nil => cases hback
  | cons i is ih => grind [fill]

lemma sorted_fill (h : history.Pairwise (· > ·)) (hseq : seq ∉ history) :
    (fill seq history).Pairwise (· > ·) := by
  induction history with
  | nil => exact h
  | cons i is ih =>
    obtain ⟨hi, his⟩ := pairwise_cons.mp h
    have hne := ne_of_not_mem_cons hseq
    unfold fill
    split_ifs with hlt
    · refine pairwise_cons.mpr ⟨fun x hx => ?_, h⟩
      rcases mem_cons.mp hx with rfl | hx
      · exact hlt
      · have hxi := hi x hx
        omega
    · refine pairwise_cons.mpr ⟨fun x hx => ?_, ih his (not_mem_of_not_mem_cons hseq)⟩
      rcases mem_fill hx with rfl | hx
      · omega
      · exact hi x hx

lemma Gap.fill (h : Gap history miss) (hsorted : history.Pairwise (· > ·)) (hseq : seq ∉ history)
    (hne : miss ≠ seq) : Gap (fill seq history) miss := by
  obtain ⟨above, a, b, below, rfl, hb, ha⟩ := h
  induction above with
  | nil =>
    simp only [nil_append, Connection.fill]
    split_ifs with h1 h2
    · exact ⟨[seq], a, b, below, rfl, hb, ha⟩
    · exact ⟨[a], seq, b, below, rfl, hb, by omega⟩
    · exact ⟨[], a, b, Connection.fill seq below, rfl, hb, ha⟩
  | cons x above ih =>
    rw [cons_append, Connection.fill]
    split_ifs with hlt
    · exact ⟨seq :: x :: above, a, b, below, rfl, hb, ha⟩
    · exact (ih (pairwise_cons.mp hsorted).2 (not_mem_of_not_mem_cons hseq)).cons x

lemma rescan_gap {prev : ℤ} (h : (prev :: history).Pairwise (· > ·))
    (hpositive : ∀ x ∈ prev :: history, 0 < x ∧ x < 2 ^ 63) {found : ℤ}
    (hfound : rescan seq miss prev history = found) :
    found = miss ∨ Gap (prev :: history) found := by
  induction history generalizing prev miss with
  | nil => exact Or.inl hfound.symm
  | cons i is ih =>
    have hlt : i < prev := (pairwise_cons.mp h).1 i mem_cons_self
    obtain ⟨hprev, hi, his⟩ := by simpa only [forall_mem_cons] using hpositive
    have hsorted := (pairwise_cons.mp h).2
    have hrest : ∀ x ∈ i :: is, 0 < x ∧ x < 2 ^ 63 := forall_mem_cons.mpr ⟨hi, his⟩
    have hsucc : succ i = i + 1 := succ_eq hi.1 (by omega)
    unfold rescan at hfound
    rw [hsucc] at hfound
    split_ifs at hfound with hstop hgap
    · exact Or.inl hfound.symm
    · rcases ih hsorted hrest hfound with rfl | hgap'
      · exact Or.inr ⟨[], prev, i, is, rfl, rfl, by omega⟩
      · exact Or.inr (hgap'.cons prev)
    · rcases ih hsorted hrest hfound with hmiss | hgap'
      · exact Or.inl hmiss
      · exact Or.inr (hgap'.cons prev)

lemma received_append {received history' : List ℤ}
    (h : ∀ r ∈ received, r ∈ history ∨ ∀ x ∈ history, r < x)
    (hsub : ∀ x ∈ history, x ∈ history')
    (hnew : ∀ x ∈ history', x = seq ∨ x ∈ history)
    (hseq : seq ∈ history' ∨ ∀ x ∈ history', seq < x)
    (hback : ∃ back ∈ history, back < seq ∨ seq ∉ history') :
    ∀ r ∈ received ++ [seq], r ∈ history' ∨ ∀ x ∈ history', r < x := by
  intro r hr
  rcases mem_append.mp hr with hr | hr
  · rcases h r hr with hmem | hlt
    · exact Or.inl (hsub r hmem)
    · obtain ⟨back, hmem, hback⟩ := hback
      refine Or.inr fun x hx => ?_
      rcases hnew x hx with rfl | hx'
      · exact Int.lt_trans (hlt back hmem) (hback.resolve_right (not_not_intro hx))
      · exact hlt x hx'
  · rwa [mem_singleton.mp hr]

lemma Ok.handle_tuple (h : Ok s) (hfits : s.Fits seq) :
    ∃ loss s', s.handle_tuple seq = some (loss, s') ∧
      Ok { s' with received := if loss.isSome then [seq] else s.received ++ [seq] } := by
  obtain ⟨hpos, hseq, -⟩ := hfits
  unfold Connection.handle_tuple
  by_cases hlost : s.Loses seq
  · obtain ⟨_, a, b, _, -, -, -, hmake, -⟩ := h.make hlost.1
    rw [if_pos hlost, hmake]
    exact ⟨_, _, rfl, forall_mem_singleton.mpr hpos, pairwise_singleton .., fun hne => absurd rfl hne,
      fun r hr => Or.inl hr, nofun⟩
  rw [if_neg hlost]
  obtain ⟨order, seq_miss, history, loss_recs, received⟩ := s
  have hpositive : ∀ x ∈ history, 0 < x ∧ x < 2 ^ 63 := h.positive
  have hsorted : history.Pairwise (· > ·) := h.sorted
  have hgap : seq_miss ≠ 0 → Gap history seq_miss := h.gap
  have hreceived : ∀ r ∈ received, r ∈ history ∨ ∀ x ∈ history, r < x := h.received
  rcases history with _ | ⟨front, rest⟩
  · obtain rfl : received = [] := h.empty rfl
    refine ⟨_, _, rfl, forall_mem_singleton.mpr hpos, pairwise_singleton .., fun hne => ?_,
      fun r hr => Or.inl hr, nofun⟩
    obtain ⟨above, _, _, _, hnil, -⟩ := hgap hne
    simp at hnil
  obtain ⟨hfront, hrest⟩ := pairwise_cons.mp hsorted
  by_cases hnew : front < seq
  · -- a new front, and a new gap if there was none
    have hsucc : succ front = front + 1 := succ_eq (hpositive front mem_cons_self).1 (by omega)
    refine ⟨_, _, if_pos hnew, forall_mem_cons.mpr ⟨hpos, hpositive⟩,
      pairwise_cons.mpr ⟨fun x hx => ?_, hsorted⟩, fun hne => ?_, ?_, nofun⟩
    · rcases mem_cons.mp hx with rfl | hx
      · exact hnew
      · exact Int.lt_trans (hfront x hx) hnew
    · simp only [hsucc] at hne ⊢
      split_ifs at hne ⊢ with hskip
      · exact ⟨[], seq, front, rest, rfl, rfl, by omega⟩
      · exact (hgap hne).cons seq
    · exact received_append hreceived (fun _ hx => mem_cons_of_mem _ hx) (fun _ => mem_cons.mp)
        (Or.inl mem_cons_self) ⟨front, mem_cons_self, Or.inl hnew⟩
  obtain ⟨back, hback, hlast, hle⟩ := exists_back hsorted
  by_cases hlate : ∀ back ∈ (front :: rest).getLast?, seq < back
  · -- a late tuple leaves the history alone
    refine ⟨_, _, (if_neg hnew).trans (if_pos hlate), hpositive, hsorted, hgap, ?_, nofun⟩
    exact received_append hreceived (fun _ hx => hx) (fun _ hx => Or.inr hx)
      (Or.inr fun x hx => Int.lt_of_lt_of_le (hlate back hlast) (hle x hx))
      ⟨back, hback, Or.inr hseq⟩
  · -- a tuple between the front and the back
    have hlt : back < seq := by
      have hne : back ≠ seq := fun heq => hseq (heq ▸ hback)
      rw [hlast] at hlate
      simp only [Option.mem_some_iff, forall_eq'] at hlate
      omega
    have hfill : front :: Connection.fill seq rest = Connection.fill seq (front :: rest) := by
      rw [Connection.fill, if_neg hnew]
    have hsorted' : (front :: Connection.fill seq rest).Pairwise (· > ·) :=
      hfill ▸ sorted_fill hsorted hseq
    have hpositive' : ∀ x ∈ front :: Connection.fill seq rest, 0 < x ∧ x < 2 ^ 63 := by
      intro x hx
      rcases mem_fill (hfill ▸ hx) with rfl | hx
      · exact hpos
      · exact hpositive x hx
    refine ⟨_, _, (if_neg hnew).trans (if_neg hlate), hpositive', hsorted', fun hne => ?_, ?_, nofun⟩
    · dsimp only at hne ⊢
      split_ifs at hne ⊢ with hfound
      · exact (rescan_gap hsorted' hpositive' rfl).resolve_left hne
      · exact hfill ▸ (hgap hne).fill hsorted hseq hfound
    · dsimp only
      rw [hfill]
      exact received_append hreceived (fun _ => mem_fill_of_mem) (fun _ => mem_fill)
        (Or.inl (seq_mem_fill hback hlt)) ⟨back, hback, Or.inl hlt⟩

lemma Ok.step (s : Connection) (seq : ℤ) (h : Ok s) (hfits : s.Fits seq) :
    ∃ s', s.step seq = some s' ∧ Ok s' := by
  obtain ⟨loss, s', hhandle, hok⟩ := h.handle_tuple hfits
  exact ⟨_, by rw [Connection.step, hhandle]; rfl, hok⟩

/-- **Loss detection is sound**: no null pointer is followed and no assertion fails, and whenever a
record is made, it is made of a number `b` one below the missing one and of the larger number `a` before
it in the history, and it lists no number received since the history was cleared, nor the one in hand.
Hyps: every number is positive, is not in the history when it comes, and comes after a number behind the
missing one if it makes a record -/
theorem loss_detection_sound (seqs : List ℤ) (h : Permitted step Fits {} seqs) :
    ∃ s, seqs.foldlM step {} = some s ∧ ∀ seq, s.Fits seq → s.Loses seq →
      ∃ above a b below loss s', s.history = above ++ a :: b :: below ∧ b + 1 = s.seq_miss ∧ b < a ∧
        s.handle_tuple seq = some (some loss, s') ∧ loss.loss_tuples = LossRec.between b a ∧
        ∀ n ∈ loss.loss_tuples, n ∉ s.received ∧ n ≠ seq := by
  obtain ⟨s, hs, hok⟩ := h.run Ok.step
    ⟨nofun, .nil, fun hne => absurd rfl hne, nofun, fun _ => rfl⟩
  refine ⟨s, hs, fun seq hfits hloses => ?_⟩
  obtain ⟨above, a, b, below, hhistory, hb, hab, hmake, hlost, hleast⟩ := hok.make hloses.1
  obtain ⟨x, hx, hmiss, hlt⟩ := hfits.after hloses
  have hle := hleast x hx (by omega)
  have hhandle : ∃ s', s.handle_tuple seq = some (some ⟨s.history.length, LossRec.between b a⟩, s') := by
    rw [Connection.handle_tuple, if_pos hloses, hmake]
    exact ⟨_, rfl⟩
  obtain ⟨s', hhandle⟩ := hhandle
  refine ⟨above, a, b, below, _, s', hhistory, hb, hab, hhandle, rfl, fun n hn => ⟨hlost n hn, ?_⟩⟩
  have hna := (mem_between.mp hn).2
  omega

theorem loss_detection_sound_gap : ∃ s, [1, 3, 4].foldlM step {} = some s ∧
    ∃ loss s', s.handle_tuple 9 = some (some loss, s') ∧ loss.loss_tuples = [2] := by
  obtain ⟨s, hs, hsound⟩ := loss_detection_sound [1, 3, 4] (by
    refine permitted_cons ⟨by decide, by decide, by decide⟩ rfl ?_
    refine permitted_cons ⟨by decide, by decide, by decide⟩ rfl ?_
    exact permitted_cons ⟨by decide, by decide, by decide⟩ rfl trivial)
  refine ⟨s, hs, ?_⟩
  cases hs
  obtain ⟨_, _, _, _, loss, s', -, -, -, hmake, -⟩ := hsound 9 ⟨by decide, by decide, by decide⟩
    (by decide)
  refine ⟨loss, s', hmake, ?_⟩
  cases hmake
  rfl

/-- **A number that comes again breaks the detection**: after 1, 3, 3 and 2 the missing number is 4,
and the tuple 9 follows a null pointer. **So does a late number**: after 1 and 20 the tuple 9 makes a
record in which it is itself. -/
theorem loss_detection_duplicate : [1, 3, 3, 2, 9].foldlM step {} = none ∧
    ∃ s loss s', [1, 20].foldlM step {} = some s ∧ s.handle_tuple 9 = some (some loss, s') ∧
      9 ∈ loss.loss_tuples :=
  ⟨by decide, _, _, _, rfl, rfl, by decide⟩

end Connection

end P2.Net.RateCCR
