import Mathlib.Data.List.Induction
import P2.Lib.Runs
import P2.Net.Connections
import P2.Net.ODelivery

/-!
# Duplicate removal

`DupRemove` passes on the tuples of a source whose number it has not seen. It remembers numbers, and
forgets those up to the cumulative number of the sender when that number moves: `nodup_output_iff`.
-/

namespace P2.Net

open P2.Value P2.Lib List Int64

def cumSeqOf (t : List Value) : Int64 := (int64At CUMSEQ t).getD 0

namespace DupRemove

/-! ## The element -/

/-- The state of one source. -/
structure Connection where
  tcb : Option ℕ := none
  cumSeq : Int64 := 0
  receiveMap : List Int64 := []

def eraseRounds : ℕ → Int64 → List Int64 → List Int64
  | 0, _, numbers => numbers
  | n + 1, s, numbers => eraseRounds n (s + 1) (numbers.filter (· ≠ s))

/-- The loop that erases the numbers from `s` to `cseq`; `none` where `cseq` is the greatest number
and the loop does not end. -/
def eraseUpTo (s cseq : Int64) (numbers : List Int64) : Option (List Int64) :=
  if cseq = Int64.maxValue then none
  else some (eraseRounds (cseq.toInt - s.toInt + 1).toNat s numbers)

namespace Connection

def advance (cseq : Int64) (c : Connection) : Option Connection :=
  if c.cumSeq < cseq then do
    let numbers ← if c.cumSeq ≠ 0 ∧ c.receiveMap.length > 0 then
        eraseUpTo c.cumSeq cseq c.receiveMap
      else some c.receiveMap
    return { c with cumSeq := cseq, receiveMap := numbers }
  else some c

def received (seq cseq : Int64) (c : Connection) : Option (Bool × Connection) := do
  let c ← c.advance cseq
  if seq < c.cumSeq then return (true, c)
  else if seq ∈ c.receiveMap then return (true, c)
  else return (false, { c with receiveMap := seq :: c.receiveMap })

end Connection

end DupRemove

/-- The element, with what it pushed to its output. Timers are bound to the source they unmap. -/
structure DupRemove where
  connections : Connections DupRemove.Connection Value := {}
  output : List (List Value) := []

namespace DupRemove

/-- `DupRemove::push`, where the output answers a push with `answer`; `none` where a field is
missing or the loop of `received` does not end. -/
def push (answer : ℤ) (t : List Value) (s : DupRemove) : Option (ℤ × DupRemove) := do
  let src ← t[SRC]?
  let cseq ← int64At CUMSEQ t
  let (cp, connections) := s.connections.connect (·.tcb) {} src cseq
  let c ← connections.objects[cp]?
  let handle := connections.nextHandle
  let connections := (connections.timeCBRemove c.tcb).delayCB src
  let seq ← int64At SEQ t
  let (dup, c) ← ({ c with tcb := some handle } : Connection).received seq cseq
  let connections := connections.set cp c
  if dup then return (1, { s with connections := connections })
  else return (answer, { connections := connections, output := s.output ++ [t] })

/-- Tuples are pushed one after the other, each with the answer the output gives if it is passed on. -/
def run (s : DupRemove) (arrivals : List (ℤ × List Value)) : Option DupRemove :=
  arrivals.foldlM (fun s arrival => (s.push arrival.1 arrival.2).map (·.2)) s

/-! ## Orders of arrival -/

/-- A tuple of the source, with the fields the element reads: the cumulative number is not zero and
is below the number of the tuple. -/
structure Arrives (src : Value) (t : List Value) : Prop where
  source : t[SRC]? = some src
  seq : int64At SEQ t = some (seqOf t)
  cseq : int64At CUMSEQ t = some (cumSeqOf t)
  ne_zero : cumSeqOf t ≠ 0
  lt : cumSeqOf t < seqOf t

def greatest (ts : List (List Value)) : Int64 :=
  ts.foldl (fun m t => if m < cumSeqOf t then cumSeqOf t else m) 0

/-- The number arrived, then it became the greatest cumulative number, not the first positive one,
and it still is. -/
def Forgets (ts : List (List Value)) (q : Int64) : Prop :=
  ∃ before raise since, ts = before ++ raise :: since ∧ cumSeqOf raise = q ∧
    q ∈ before.map seqOf ∧ (∀ t ∈ before, cumSeqOf t < q) ∧ (∃ t ∈ before, 0 < cumSeqOf t) ∧
    ∀ t ∈ since, cumSeqOf t ≤ q

def Boundary (ts : List (List Value)) : Prop :=
  ∃ before late after, ts = before ++ late :: after ∧ Forgets before (seqOf late)

variable {ts : List (List Value)} {t : List Value} {q : Int64}

lemma greatest_concat (ts : List (List Value)) (t : List Value) :
    greatest (ts ++ [t]) = if greatest ts < cumSeqOf t then cumSeqOf t else greatest ts := by
  unfold greatest
  rw [foldl_concat]

lemma greatest_spec (ts : List (List Value)) :
    (∀ t ∈ ts, cumSeqOf t ≤ greatest ts) ∧ 0 ≤ greatest ts ∧
      (greatest ts ≠ 0 → ∃ t ∈ ts, cumSeqOf t = greatest ts) := by
  induction ts using reverseRecOn with
  | nil => exact ⟨forall_mem_nil _, Int64.le_refl 0, fun h => absurd rfl h⟩
  | append_singleton ts t ih =>
    obtain ⟨hle, hpos, hmet⟩ := ih
    rw [greatest_concat]
    split_ifs with hlt
    · refine ⟨?_, by grind, fun _ => ⟨t, by simp, rfl⟩⟩
      intro u hu
      rcases mem_append.mp hu with hu | hu
      · have := hle u hu
        grind
      · rw [mem_singleton.mp hu]
        exact Int64.le_refl _
    · refine ⟨?_, hpos, ?_⟩
      · intro u hu
        rcases mem_append.mp hu with hu | hu
        · exact hle u hu
        · grind
      · intro hne
        obtain ⟨u, hu, heq⟩ := hmet hne
        exact ⟨u, mem_append_left _ hu, heq⟩

lemma Forgets.eq_greatest (h : Forgets ts q) : q = greatest ts := by
  obtain ⟨before, raise, since, rfl, rfl, -, hbefore, ⟨u, hu, hpos⟩, hsince⟩ := h
  obtain ⟨hle, -, hmet⟩ := greatest_spec (before ++ raise :: since)
  have hraise := hle raise (by simp)
  obtain ⟨v, hv, heq⟩ := hmet (by grind)
  rw [← heq] at hraise ⊢
  -- nothing before or since is above the number
  rcases mem_append.mp hv with hv | hv
  · have := hbefore v hv
    grind
  · rcases mem_cons.mp hv with rfl | hv
    · rfl
    · have := hsince v hv
      grind

lemma forgets_concat_iff : Forgets (ts ++ [t]) q ↔
    (Forgets ts q ∧ cumSeqOf t ≤ q) ∨
      (cumSeqOf t = q ∧ greatest ts < q ∧ q ∈ ts.map seqOf ∧ greatest ts ≠ 0) := by
  obtain ⟨hle, hpos, hmet⟩ := greatest_spec ts
  constructor
  · rintro ⟨before, raise, since, heq, hq, hmem, hbefore, hsome, hsince⟩
    rcases concat_eq_iff.mp heq with ⟨rfl, rfl, rfl⟩ | ⟨since, rfl, rfl⟩
    · obtain ⟨u, hu, hu'⟩ := hsome
      have hne : greatest ts ≠ 0 := by grind
      obtain ⟨v, hv, hv'⟩ := hmet hne
      exact Or.inr ⟨hq, hv' ▸ hbefore v hv, hmem, hne⟩
    · rw [forall_mem_append] at hsince
      exact Or.inl ⟨⟨before, raise, since, rfl, hq, hmem, hbefore, hsome, hsince.1⟩,
        hsince.2 t (mem_singleton_self t)⟩
  · rintro (⟨⟨before, raise, since, rfl, hq, hmem, hbefore, hsome, hsince⟩, ht⟩ |
      ⟨hq, hlt, hmem, hne⟩)
    · refine ⟨before, raise, since ++ [t], by simp, hq, hmem, hbefore, hsome, ?_⟩
      rw [forall_mem_append]
      exact ⟨hsince, fun u hu => mem_singleton.mp hu ▸ ht⟩
    · obtain ⟨v, hv, hv'⟩ := hmet hne
      refine ⟨ts, t, [], rfl, hq, hmem, ?_, ⟨v, hv, by grind⟩, forall_mem_nil _⟩
      intro u hu
      have := hle u hu
      grind

lemma boundary_concat_iff : Boundary (ts ++ [t]) ↔ Boundary ts ∨ Forgets ts (seqOf t) := by
  constructor
  · rintro ⟨before, late, after, heq, hforgets⟩
    rcases concat_eq_iff.mp heq with ⟨rfl, rfl, rfl⟩ | ⟨since, rfl, rfl⟩
    · exact Or.inr hforgets
    · exact Or.inl ⟨before, late, since, rfl, hforgets⟩
  · rintro (⟨before, late, after, rfl, hforgets⟩ | hforgets)
    · exact ⟨before, late, after ++ [t], by simp, hforgets⟩
    · exact ⟨ts, t, [], rfl, hforgets⟩

/-! ## What a connection remembers -/

lemma mem_eraseRounds {numbers : List Int64} (n : ℕ) (s : Int64) (hn : s.toInt + n ≤ 2 ^ 63 - 1) :
    q ∈ eraseRounds n s numbers ↔ q ∈ numbers ∧ ¬ (s.toInt ≤ q.toInt ∧ q.toInt < s.toInt + n) := by
  induction n generalizing s numbers with
  | zero =>
    constructor
    · intro h
      exact ⟨h, by omega⟩
    · exact And.left
  | succ n ih =>
    have hne : s ≠ maxValue := by
      rintro rfl
      have : maxValue.toInt = 2 ^ 63 - 1 := rfl
      omega
    have hstep := Numbered.toInt_add_one hne
    unfold eraseRounds
    rw [ih (s + 1) (by omega), mem_filter, hstep]
    have hself : q = s ↔ q.toInt = s.toInt := toInt_inj.symm
    simp only [ne_eq, decide_not, Bool.not_eq_eq_eq_not, Bool.not_true, decide_eq_false_iff_not,
      hself]
    constructor
    · rintro ⟨⟨hq, hs⟩, hrange⟩
      exact ⟨hq, by omega⟩
    · rintro ⟨hq, hrange⟩
      exact ⟨⟨hq, by omega⟩, by omega⟩

lemma eraseUpTo_spec {s cseq : Int64} (numbers : List Int64) (hmax : cseq < maxValue)
    (hle : s ≤ cseq) :
    ∃ numbers', eraseUpTo s cseq numbers = some numbers' ∧
      ∀ q, q ∈ numbers' ↔ q ∈ numbers ∧ ¬ (s ≤ q ∧ q ≤ cseq) := by
  have hlt : cseq.toInt < 2 ^ 63 - 1 := lt_iff_toInt_lt.mp hmax
  have hle' := le_iff_toInt_le.mp hle
  refine ⟨_, if_neg (Int64.ne_of_lt hmax), fun q => ?_⟩
  rw [mem_eraseRounds _ _ (by omega), le_iff_toInt_le, le_iff_toInt_le]
  constructor
  · rintro ⟨hq, hrange⟩
    exact ⟨hq, by omega⟩
  · rintro ⟨hq, hrange⟩
    exact ⟨hq, by omega⟩

/-- What a connection is after some arrivals, with the numbers passed on. -/
structure Tracks (ts : List (List Value)) (c : Connection) (passed : List Int64) : Prop where
  cumSeq : c.cumSeq = greatest ts
  passed_of_mem : ∀ q ∈ c.receiveMap, q ∈ passed
  /-- Numbers passed on that are above the cumulative number are remembered. -/
  mem_of_passed : ∀ q ∈ passed, c.cumSeq < q → q ∈ c.receiveMap
  /-- Numbers that arrived and are above the cumulative number were passed on. -/
  passed_of_arrived : ∀ q ∈ ts.map seqOf, c.cumSeq < q → q ∈ passed
  arrived : ∀ q ∈ passed, q ∈ ts.map seqOf
  /-- A number was passed on twice exactly when a forgotten one arrived again. -/
  nodup_iff : passed.Nodup ↔ ¬ Boundary ts
  /-- Until then, the cumulative number is the one number that may be passed on and not be
  remembered. -/
  lost_iff : passed.Nodup →
    ((c.cumSeq ∈ passed ∧ c.cumSeq ∉ c.receiveMap) ↔ Forgets ts c.cumSeq)

lemma tracks_nil (tcb : Option ℕ) : Tracks [] { tcb := tcb } [] where
  cumSeq := rfl
  passed_of_mem _ h := absurd h not_mem_nil
  mem_of_passed _ h := absurd h not_mem_nil
  passed_of_arrived _ h := absurd h not_mem_nil
  arrived _ h := absurd h not_mem_nil
  nodup_iff := by
    refine ⟨fun _ => ?_, fun _ => nodup_nil⟩
    rintro ⟨before, late, after, heq, -⟩
    exact absurd heq.symm (by simp)
  lost_iff _ := by
    refine ⟨fun h => absurd h.1 not_mem_nil, ?_⟩
    rintro ⟨before, raise, since, heq, -⟩
    exact absurd heq.symm (by simp)

variable {c : Connection} {passed : List Int64} {src : Value}

lemma Tracks.withTimer (h : Tracks ts c passed) (tcb : Option ℕ) :
    Tracks ts { c with tcb := tcb } passed :=
  ⟨h.cumSeq, h.passed_of_mem, h.mem_of_passed, h.passed_of_arrived, h.arrived, h.nodup_iff,
    h.lost_iff⟩

lemma advance_of_lt {cseq : Int64} (hlt : c.cumSeq < cseq) (hmax : cseq < maxValue) :
    ∃ numbers, c.advance cseq = some { c with cumSeq := cseq, receiveMap := numbers } ∧
      ∀ q, q ∈ numbers ↔ q ∈ c.receiveMap ∧ ¬ (c.cumSeq ≠ 0 ∧ c.cumSeq ≤ q ∧ q ≤ cseq) := by
  unfold Connection.advance
  rw [if_pos hlt]
  by_cases hprune : c.cumSeq ≠ 0 ∧ c.receiveMap.length > 0
  · obtain ⟨numbers, hnumbers, hmem⟩ := eraseUpTo_spec c.receiveMap hmax (Int64.le_of_lt hlt)
    refine ⟨numbers, ?_, fun q => ?_⟩
    · simp [hprune, hnumbers]
    · rw [hmem]
      simp [hprune.1]
  · refine ⟨c.receiveMap, ?_, fun q => ?_⟩
    · simp [hprune]
    · refine ⟨fun hq => ⟨hq, fun hr => hprune ⟨hr.1, ?_⟩⟩, And.left⟩
      exact length_pos_of_mem hq

/-- A connection that has moved its cumulative number for a tuple and not yet looked at the number
of the tuple. -/
structure Heard (ts : List (List Value)) (t : List Value) (c : Connection) (passed : List Int64) :
    Prop where
  cumSeq : c.cumSeq = greatest (ts ++ [t])
  passed_of_mem : ∀ q ∈ c.receiveMap, q ∈ passed
  mem_of_passed : ∀ q ∈ passed, c.cumSeq < q → q ∈ c.receiveMap
  passed_of_arrived : ∀ q ∈ ts.map seqOf, c.cumSeq < q → q ∈ passed
  arrived : ∀ q ∈ passed, q ∈ ts.map seqOf
  nodup_iff : passed.Nodup ↔ ¬ Boundary ts
  lost_iff : passed.Nodup →
    ((c.cumSeq ∈ passed ∧ c.cumSeq ∉ c.receiveMap) ↔ Forgets (ts ++ [t]) c.cumSeq)
  again_iff : Forgets ts (seqOf t) ↔ seqOf t = c.cumSeq ∧ Forgets (ts ++ [t]) c.cumSeq

lemma Tracks.heard_of_lt (h : Tracks ts c passed) (ht : Arrives src t)
    (hlt : c.cumSeq < cumSeqOf t) :
    ∃ c', c.advance (cumSeqOf t) = some c' ∧ Heard ts t c' passed := by
  have hseq := ht.lt
  obtain ⟨numbers, hadvance, hmem⟩ := advance_of_lt hlt (show cumSeqOf t < maxValue by grind)
  have hold : ∀ q, Forgets ts q → q = c.cumSeq := fun q hf => h.cumSeq ▸ hf.eq_greatest
  refine ⟨_, hadvance, ?_, ?_, ?_, ?_, h.arrived, h.nodup_iff, ?_, ?_⟩
  · rw [greatest_concat, ← h.cumSeq, if_pos hlt]
  · exact fun q hq => h.passed_of_mem q ((hmem q).mp hq).1
  · intro q hq hgt
    exact (hmem q).mpr ⟨h.mem_of_passed q hq (by grind), by grind⟩
  · intro q hq hgt
    exact h.passed_of_arrived q hq (by grind)
  · -- the new cumulative number is lost if it was remembered and the old one was not zero
    intro _
    rw [forgets_concat_iff, ← h.cumSeq, hmem]
    constructor
    · rintro ⟨hp, hn⟩
      refine Or.inr ⟨rfl, hlt, h.arrived _ hp, fun hzero => hn ?_⟩
      exact ⟨h.mem_of_passed _ hp hlt, fun hr => hr.1 hzero⟩
    · rintro (⟨hf, -⟩ | ⟨-, -, harrived, hne⟩)
      · have := hold _ hf
        grind
      · exact ⟨h.passed_of_arrived _ harrived hlt, fun hn => hn.2 ⟨hne, by grind, by grind⟩⟩
  · show Forgets ts (seqOf t) ↔ seqOf t = cumSeqOf t ∧ _
    constructor
    · intro hf
      have := hold _ hf
      grind
    · rintro ⟨heq, -⟩
      grind

lemma Tracks.heard_of_not_lt (h : Tracks ts c passed) (hlt : ¬ c.cumSeq < cumSeqOf t) :
    c.advance (cumSeqOf t) = some c ∧ Heard ts t c passed := by
  have hforgets : Forgets (ts ++ [t]) c.cumSeq ↔ Forgets ts c.cumSeq := by
    rw [forgets_concat_iff, ← h.cumSeq]
    constructor
    · rintro (⟨hf, -⟩ | ⟨-, hlt', -⟩)
      · exact hf
      · exact absurd hlt' (Int64.lt_irrefl)
    · intro hf
      exact Or.inl ⟨hf, by grind⟩
  refine ⟨if_neg hlt, ?_, h.passed_of_mem, h.mem_of_passed, h.passed_of_arrived, h.arrived,
    h.nodup_iff, fun hnodup => (h.lost_iff hnodup).trans hforgets.symm, ?_⟩
  · rw [greatest_concat, ← h.cumSeq, if_neg hlt]
  · rw [hforgets]
    constructor
    · intro hf
      have heq : seqOf t = c.cumSeq := h.cumSeq ▸ hf.eq_greatest
      exact ⟨heq, heq ▸ hf⟩
    · rintro ⟨heq, hf⟩
      rw [heq]
      exact hf

lemma Heard.drop (h : Heard ts t c passed) (hdup : seqOf t < c.cumSeq ∨ seqOf t ∈ c.receiveMap) :
    Tracks (ts ++ [t]) c passed where
  cumSeq := h.cumSeq
  passed_of_mem := h.passed_of_mem
  mem_of_passed := h.mem_of_passed
  passed_of_arrived q hq hgt := by
    rw [map_append, mem_append] at hq
    rcases hq with hq | hq
    · exact h.passed_of_arrived q hq hgt
    · rw [mem_singleton.mp hq] at hgt ⊢
      rcases hdup with hlt | hmem
      · grind
      · exact h.passed_of_mem _ hmem
  arrived q hq := by
    rw [map_append]
    exact mem_append_left _ (h.arrived q hq)
  nodup_iff := by
    rw [boundary_concat_iff, h.nodup_iff]
    refine ⟨fun hb hb' => ?_, fun hb hb' => hb (Or.inl hb')⟩
    rcases hb' with hb' | hf
    · exact hb hb'
    · obtain ⟨heq, hf'⟩ := h.again_iff.mp hf
      obtain ⟨-, hnot⟩ := (h.lost_iff (h.nodup_iff.mpr hb)).mpr hf'
      rcases hdup with hlt | hmem
      · grind
      · exact hnot (heq ▸ hmem)
  lost_iff := h.lost_iff

lemma Heard.pass (h : Heard ts t c passed) (hle : ¬ seqOf t < c.cumSeq)
    (hnew : seqOf t ∉ c.receiveMap) :
    Tracks (ts ++ [t]) { c with receiveMap := seqOf t :: c.receiveMap } (passed ++ [seqOf t]) := by
  -- it was passed on before only if it was forgotten
  have hagain : passed.Nodup → (seqOf t ∈ passed ↔ Forgets ts (seqOf t)) := by
    intro hnodup
    rw [h.again_iff, ← h.lost_iff hnodup]
    constructor
    · intro hp
      have heq : seqOf t = c.cumSeq := by
        by_contra hne
        exact hnew (h.mem_of_passed _ hp (by grind))
      exact ⟨heq, heq ▸ hp, heq ▸ hnew⟩
    · rintro ⟨heq, hp, -⟩
      exact heq ▸ hp
  have hnodup : (passed ++ [seqOf t]).Nodup ↔ passed.Nodup ∧ seqOf t ∉ passed := by
    rw [← concat_eq_append, nodup_concat, and_comm]
  refine ⟨h.cumSeq, ?_, ?_, ?_, ?_, ?_, ?_⟩
  · intro q hq
    rw [mem_append]
    rcases mem_cons.mp hq with rfl | hq
    · exact Or.inr (mem_singleton_self _)
    · exact Or.inl (h.passed_of_mem q hq)
  · intro q hq hgt
    rcases mem_append.mp hq with hq | hq
    · exact mem_cons_of_mem _ (h.mem_of_passed q hq hgt)
    · exact mem_cons.mpr (Or.inl (mem_singleton.mp hq))
  · intro q hq hgt
    rw [map_append] at hq
    rw [mem_append] at hq ⊢
    exact hq.imp_left fun hq => h.passed_of_arrived q hq hgt
  · intro q hq
    rw [map_append]
    rw [mem_append] at hq ⊢
    exact hq.imp_left (h.arrived q)
  · rw [hnodup, boundary_concat_iff, not_or]
    constructor
    · rintro ⟨hp, hn⟩
      exact ⟨h.nodup_iff.mp hp, fun hf => hn ((hagain hp).mpr hf)⟩
    · rintro ⟨hb, hf⟩
      have hp := h.nodup_iff.mpr hb
      exact ⟨hp, fun hn => hf ((hagain hp).mp hn)⟩
  · rw [hnodup]
    rintro ⟨hp, hn⟩
    rw [← h.lost_iff hp]
    by_cases heq : c.cumSeq = seqOf t
    · rw [heq]
      exact ⟨fun hl => absurd mem_cons_self hl.2, fun hl => absurd hl.1 hn⟩
    · rw [mem_append, mem_singleton, mem_cons]
      simp [heq]

lemma Tracks.received (h : Tracks ts c passed) (ht : Arrives src t) :
    ∃ dup c', c.received (seqOf t) (cumSeqOf t) = some (dup, c') ∧
      Tracks (ts ++ [t]) c' (if dup then passed else passed ++ [seqOf t]) := by
  obtain ⟨c', hadvance, heard⟩ : ∃ c', c.advance (cumSeqOf t) = some c' ∧ Heard ts t c' passed := by
    by_cases hlt : c.cumSeq < cumSeqOf t
    · exact h.heard_of_lt ht hlt
    · exact ⟨c, h.heard_of_not_lt hlt⟩
  unfold Connection.received
  simp only [hadvance, Option.bind_eq_bind, Option.bind_some, Option.pure_def]
  by_cases hlt : seqOf t < c'.cumSeq
  · exact ⟨true, c', if_pos hlt, heard.drop (Or.inl hlt)⟩
  · rw [if_neg hlt]
    by_cases hmem : seqOf t ∈ c'.receiveMap
    · exact ⟨true, c', if_pos hmem, heard.drop (Or.inr hmem)⟩
    · exact ⟨false, _, if_neg hmem, heard.pass hlt hmem⟩

/-! ## Runs -/

/-- The element after some tuples of one source, none of them the first of a connection. -/
def Ok (src : Value) (ts : List (List Value)) (s : DupRemove) : Prop :=
  ∃ state, s.connections.Sole src state ∧ Tracks ts (state.getD {}) (s.output.map seqOf)

lemma Ok.push {s : DupRemove} (h : s.Ok src ts) (ht : Arrives src t) (answer : ℤ) :
    ∃ r, s.push answer t = some r ∧ r.2.Ok src (ts ++ [t]) := by
  obtain ⟨state, hsole, htracks⟩ := h
  have hat := hsole.connect (·.tcb) {} (cumSeqOf t)
  rw [if_neg ht.ne_zero] at hat
  obtain ⟨dup, c, hreceived, htracks'⟩ :=
    (htracks.withTimer (some (s.connections.connect (·.tcb) {} src (cumSeqOf t)).2.nextHandle)).received
      ht
  unfold DupRemove.push
  simp only [ht.source, ht.cseq, ht.seq, hat.object, hreceived, Option.bind_eq_bind,
    Option.bind_some, Option.pure_def]
  have hat' := fun tcb => ((hat.timeCBRemove tcb).delayCB src).set c
  cases dup with
  | true => exact ⟨_, rfl, some c, ⟨_, hat' _⟩, htracks'⟩
  | false =>
    refine ⟨_, rfl, some c, ⟨_, hat' _⟩, ?_⟩
    rw [map_append]
    exact htracks'

lemma Ok.run {s : DupRemove} (h : s.Ok src ts) {arrivals : List (ℤ × List Value)}
    (hts : ∀ arrival ∈ arrivals, Arrives src arrival.2) :
    ∃ s', s.run arrivals = some s' ∧ s'.Ok src (ts ++ arrivals.map (·.2)) := by
  induction arrivals generalizing s ts with
  | nil => exact ⟨s, rfl, by rw [map_nil, append_nil]; exact h⟩
  | cons arrival arrivals ih =>
    rw [forall_mem_cons] at hts
    obtain ⟨r, hr, hok⟩ := h.push hts.1 arrival.1
    obtain ⟨s', hs', hok'⟩ := ih hok hts.2
    refine ⟨s', ?_, ?_⟩
    · show (foldlM _ s (arrival :: arrivals)) = _
      rw [foldlM_cons, hr]
      exact hs'
    · rw [append_assoc] at hok'
      exact hok'

/-- **Duplicate removal.** However tuples of one source arrive and whatever the output answers, all
pushes return, and no number is passed on twice exactly when no number that was forgotten arrives
again.
Hyps: all tuples are of the source and carry a cumulative number that is not zero and is below their
number -/
theorem nodup_output_iff (src : Value) (arrivals : List (ℤ × List Value))
    (h : ∀ arrival ∈ arrivals, Arrives src arrival.2) :
    ∃ s, ({} : DupRemove).run arrivals = some s ∧
      ((s.output.map seqOf).Nodup ↔ ¬ Boundary (arrivals.map (·.2))) := by
  have hstart : ({} : DupRemove).Ok src [] := ⟨none, rfl, tracks_nil none⟩
  obtain ⟨s, hrun, state, -, htracks⟩ := hstart.run h
  exact ⟨s, hrun, htracks.nodup_iff⟩

def sampleTuple (cseq seq : Int64) : List Value :=
  [.str [98], .str [97], .null, .null, .null, .null, .int64 cseq, .int64 seq]

lemma arrives_sampleTuple {cseq seq : Int64} (hne : cseq ≠ 0) (hlt : cseq < seq) :
    Arrives (.str [97]) (sampleTuple cseq seq) :=
  ⟨rfl, rfl, rfl, hne, hlt⟩

theorem nodup_output_iff_late :
    ∃ s, ({} : DupRemove).run
        [(1, sampleTuple 1 5), (1, sampleTuple 4 6), (1, sampleTuple 1 5)] = some s ∧
      ((s.output.map seqOf).Nodup ↔
        ¬ Boundary [sampleTuple 1 5, sampleTuple 4 6, sampleTuple 1 5]) := by
  refine nodup_output_iff (.str [97]) [(1, sampleTuple 1 5), (1, sampleTuple 4 6),
    (1, sampleTuple 1 5)] ?_
  simp only [forall_mem_cons, not_mem_nil, false_imp_iff, implies_true, and_true]
  exact ⟨arrives_sampleTuple (by decide) (by decide), arrives_sampleTuple (by decide) (by decide),
    arrives_sampleTuple (by decide) (by decide)⟩

/-- The 5 arrives, the next tuple says that everything up to 5 has arrived, and the 5 arrives again:
it is passed on twice. -/
theorem late_duplicate_passed_on :
    (∀ arrival ∈ [((1 : ℤ), sampleTuple 1 5), (1, sampleTuple 5 6), (1, sampleTuple 1 5)],
      Arrives (.str [97]) arrival.2) ∧
    ∃ s, ({} : DupRemove).run
        [(1, sampleTuple 1 5), (1, sampleTuple 5 6), (1, sampleTuple 1 5)] = some s ∧
      s.output.map seqOf = [5, 6, 5] ∧ ¬ (s.output.map seqOf).Nodup := by
  refine ⟨?_, _, rfl, ?_, ?_⟩
  · simp only [forall_mem_cons, not_mem_nil, false_imp_iff, implies_true, and_true]
    exact ⟨arrives_sampleTuple (by decide) (by decide), arrives_sampleTuple (by decide) (by decide),
      arrives_sampleTuple (by decide) (by decide)⟩
  · decide +kernel
  · decide +kernel

end DupRemove

end P2.Net
