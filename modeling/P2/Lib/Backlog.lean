import Mathlib.Data.List.Infix
import Mathlib.Tactic.Common

/-!
# The backlog of a queue with owners

Owners are queued each time they enter or are touched, and leave by themselves or when there are too
many: then cells are taken off the back of the queue up to the last cell of an owner. Cells of owners
that left, and all but the last cell of the others, are backlog.

* `Move.strand` leaves cells behind, `Move.evict` takes some off.
-/

namespace P2.Lib

open List

/-- What a move means for the cells. -/
inductive Turn where
  | plain
  | strand
  | evict
  deriving DecidableEq

/-- A queue, from the back to the front, and the owners of its cells, the last one queued first. -/
structure Backlog (α : Type) where
  queue : List α
  live : List α

namespace Backlog

variable {α : Type} {m c : ℕ} {b b' : Backlog α}

/-- The moves, for at most `m` owners. -/
inductive Move (m : ℕ) (b : Backlog α) : Turn → Backlog α → Prop
  | still : Move m b .plain b
  | enter (a : α) : b.live.length < m → Move m b .plain ⟨b.queue ++ [a], a :: b.live⟩
  | leave {live : List α} : live.Sublist b.live → live.length + 1 = b.live.length →
      Move m b .strand ⟨b.queue, live⟩
  | touch (a : α) {live : List α} : live.Sublist b.live → live.length + 1 = b.live.length →
      Move m b .strand ⟨b.queue ++ [a], a :: live⟩
  /-- One owner too many enters, and the one that was queued first goes with its cells. -/
  | evict (a v : α) {dropped queue live : List α} : b.live.length = m →
      b.queue ++ [a] = dropped ++ queue → a :: b.live = live ++ [v] → v ∉ queue →
      Move m b .evict ⟨queue, live⟩

/-- Moves one after the other. -/
inductive Run (m : ℕ) (b : Backlog α) : List Turn → Backlog α → Prop
  | nil : Run m b [] b
  | snoc {turns : List Turn} {turn : Turn} {b' b'' : Backlog α} : Run m b turns b' →
      Move m b' turn b'' → Run m b (turns ++ [turn]) b''

lemma Move.length_live_le {turn : Turn} (h : Move m b turn b') (hb : b.live.length ≤ m) :
    b'.live.length ≤ m := by
  cases h with
  | still => exact hb
  | enter a hlt => exact hlt
  | leave hsub hlen =>
    dsimp only
    omega
  | touch a hsub hlen =>
    rw [length_cons]
    omega
  | evict a v hfull hqueue hlive hv =>
    have hlength := congrArg List.length hlive
    rw [length_append, length_cons, length_singleton] at hlength
    dsimp only
    omega

/-! ## What the queue holds -/

section Covered

variable [DecidableEq α]

def total : List ℕ → ℕ
  | [] => 0
  | round :: rounds => round + total rounds

/-- The owners with no cell in a suffix of the queue. -/
def behind (b : Backlog α) (q : List α) : ℕ := b.live.countP (· ∉ q)

/-- With `rounds` the numbers of cells pushed since the last eviction, between that one and the one
before it, and so on: a suffix of the queue was pushed in the last rounds, all but as many of `m +
1` as there are owners behind it. -/
def Covered (m : ℕ) (b : Backlog α) (rounds : List ℕ) : Prop :=
  ∀ q, q ≠ [] → q <:+ b.queue → q.length ≤ total (rounds.take (m + 1 - b.behind q))

lemma behind_le (b : Backlog α) (q : List α) : b.behind q ≤ b.live.length := countP_le_length

lemma total_take_mono (rounds : List ℕ) {i j : ℕ} (hij : i ≤ j) :
    total (rounds.take i) ≤ total (rounds.take j) := by
  induction rounds generalizing i j with
  | nil => simp
  | cons round rounds ih =>
    cases i with
    | zero => exact Nat.zero_le _
    | succ i =>
      obtain ⟨j, rfl⟩ : ∃ k, j = k + 1 := ⟨j - 1, by omega⟩
      exact Nat.add_le_add_left (ih (by omega)) round

lemma Covered.push {round : ℕ} {rounds : List ℕ} {live : List α} (h : Covered m b (round :: rounds))
    (hb : b.live.length ≤ m) (hsub : live.Sublist b.live) (a : α) :
    Covered m ⟨b.queue ++ [a], a :: live⟩ ((round + 1) :: rounds) := by
  intro q' hne hq'
  obtain ⟨q, rfl, hq⟩ : ∃ q, q' = q ++ [a] ∧ q <:+ b.queue := by
    rcases suffix_concat_iff.mp hq' with rfl | ⟨q, rfl, hq⟩
    · exact absurd rfl hne
    · exact ⟨q, rfl, hq⟩
  have hbehind : behind ⟨b.queue ++ [a], a :: live⟩ (q ++ [a]) ≤ b.behind q := by
    unfold behind
    rw [countP_cons_of_neg (by simp)]
    refine le_trans (countP_mono_left fun x _ hx => ?_) hsub.countP_le
    simp only [mem_append, decide_eq_true_eq, not_or] at hx ⊢
    exact hx.1
  have hle := b.behind_le q
  obtain ⟨i, hi⟩ : ∃ i, m + 1 - b.behind q = i + 1 := ⟨m - b.behind q, by omega⟩
  have hmono := total_take_mono ((round + 1) :: rounds)
    (by omega : i + 1 ≤ m + 1 - behind ⟨b.queue ++ [a], a :: live⟩ (q ++ [a]))
  refine le_trans ?_ hmono
  rw [length_append, length_singleton, take_succ_cons, total]
  by_cases hnil : q = []
  · rw [hnil, length_nil]
    omega
  · have hcovered := h q hnil hq
    rw [hi, take_succ_cons, total] at hcovered
    omega

lemma Covered.leave {rounds : List ℕ} {live : List α} (h : Covered m b rounds)
    (hsub : live.Sublist b.live) : Covered m ⟨b.queue, live⟩ rounds := by
  intro q hne hq
  have hbehind : behind ⟨b.queue, live⟩ q ≤ b.behind q := hsub.countP_le
  exact (h q hne hq).trans (total_take_mono rounds (by omega))

lemma Covered.evict {rounds : List ℕ} {queue live dropped : List α} {v : α}
    (h : Covered m b rounds) (hlive : live.length ≤ m) (hqueue : b.queue = dropped ++ queue)
    (howners : b.live = live ++ [v]) (hv : v ∉ queue) : Covered m ⟨queue, live⟩ (0 :: rounds) := by
  intro q hne hq
  have hcovered := h q hne (hq.trans ⟨dropped, hqueue.symm⟩)
  have hbehind : b.behind q = behind ⟨queue, live⟩ q + 1 := by
    have hvq : v ∉ q := fun hmem => hv (hq.subset hmem)
    unfold behind
    rw [howners, countP_append, countP_singleton, if_pos (decide_eq_true hvq)]
  have hle := behind_le ⟨queue, live⟩ q
  have hround : m + 1 - behind ⟨queue, live⟩ q = m + 1 - b.behind q + 1 := by
    dsimp only at hle
    omega
  rw [hround, take_succ_cons, total, Nat.zero_add]
  exact hcovered

/-! ## Runs -/

/-- The pushed cells are accounted for: those since the last eviction by the moves that left cells
behind since then and by the owners, the earlier ones round by round. -/
def Accounted (m c : ℕ) (b : Backlog α) (stranded : ℕ) : Prop :=
  ∃ round rounds, Covered m b (round :: rounds) ∧ round ≤ 2 * stranded + b.live.length ∧
    ∀ n ∈ rounds, n ≤ 2 * c + m + 1

lemma Accounted.evict {stranded : ℕ} (h : Accounted m c b stranded) (hb : b.live.length ≤ m)
    (hc : stranded ≤ c) (hmove : Move m b .evict b') : Accounted m c b' 0 := by
  obtain ⟨round, rounds, hcovered, hround, hrounds⟩ := h
  have hlive := hmove.length_live_le hb
  cases hmove with
  | evict a v hfull hqueue howners hv =>
    refine ⟨0, (round + 1) :: rounds, ?_, Nat.zero_le _, ?_⟩
    · exact (hcovered.push hb (List.Sublist.refl b.live) a).evict hlive hqueue howners hv
    · refine forall_mem_cons.mpr ⟨?_, hrounds⟩
      omega

lemma Accounted.go {stranded : ℕ} (h : Accounted m c b stranded) (hb : b.live.length ≤ m)
    {turn : Turn} (hturn : turn ≠ .evict) (hmove : Move m b turn b') :
    Accounted m c b' (stranded + [turn].count .strand) := by
  obtain ⟨round, rounds, hcovered, hround, hrounds⟩ := h
  cases hmove with
  | still => exact ⟨round, rounds, hcovered, hround, hrounds⟩
  | enter a hlt =>
    refine ⟨round + 1, rounds, hcovered.push hb (List.Sublist.refl b.live) a, ?_, hrounds⟩
    rw [length_cons]
    omega
  | leave hsub hlen =>
    refine ⟨round, rounds, hcovered.leave hsub, ?_, hrounds⟩
    rw [count_singleton_self]
    dsimp only
    omega
  | touch a hsub hlen =>
    refine ⟨round + 1, rounds, hcovered.push hb hsub a, ?_, hrounds⟩
    rw [count_singleton_self, length_cons]
    omega
  | evict a v hfull hqueue howners hv => exact absurd rfl hturn

/-- No stretch of moves without an eviction leaves more than `c` cells behind. -/
def Tidy (c : ℕ) (turns : List Turn) : Prop :=
  ∀ stretch, stretch <:+: turns → Turn.evict ∉ stretch → stretch.count .strand ≤ c

lemma Run.accounted {turns : List Turn} (h : Run m (⟨[], []⟩ : Backlog α) turns b)
    (htidy : Tidy c turns) : b.live.length ≤ m ∧ ∃ before stretch, turns = before ++ stretch ∧
      Turn.evict ∉ stretch ∧ Accounted m c b (stretch.count .strand) := by
  induction h with
  | nil =>
    refine ⟨Nat.zero_le m, [], [], rfl, not_mem_nil, 0, [], ?_, Nat.zero_le _, ?_⟩
    · intro q hne hq
      exact absurd (suffix_nil.mp hq) hne
    · exact forall_mem_nil _
  | snoc hrun hmove ih =>
    rename_i turns turn b₁ b₂
    obtain ⟨hlive, before, stretch, rfl, hnot, haccounted⟩ :=
      ih fun stretch hstretch => htidy stretch (hstretch.trans (prefix_append _ _).isInfix)
    refine ⟨hmove.length_live_le hlive, ?_⟩
    by_cases hturn : turn = .evict
    · subst hturn
      have hc := htidy stretch ⟨before, [.evict], rfl⟩ hnot
      exact ⟨before ++ stretch ++ [.evict], [], (append_nil _).symm, not_mem_nil,
        haccounted.evict hlive hc hmove⟩
    · refine ⟨before, stretch ++ [turn], append_assoc _ _ _, ?_, ?_⟩
      · rw [mem_append, mem_singleton, not_or]
        exact ⟨hnot, fun heq => hturn heq.symm⟩
      · rw [count_append]
        exact haccounted.go hlive hturn hmove

lemma total_take_le {rounds : List ℕ} {bound : ℕ} (h : ∀ n ∈ rounds, n ≤ bound) (i : ℕ) :
    total (rounds.take i) ≤ i * bound := by
  induction rounds generalizing i with
  | nil =>
    rw [take_nil]
    exact Nat.zero_le _
  | cons round rounds ih =>
    cases i with
    | zero => exact Nat.zero_le _
    | succ i =>
      obtain ⟨hround, hrounds⟩ := forall_mem_cons.mp h
      have hrest := ih hrounds i
      rw [take_succ_cons, total, Nat.succ_mul]
      omega

lemma Run.length_queue_le {turns : List Turn} (h : Run m (⟨[], []⟩ : Backlog α) turns b)
    (htidy : Tidy c turns) : b.queue.length ≤ (m + 1) * (2 * c + m + 1) := by
  obtain ⟨hlive, before, stretch, rfl, hnot, round, rounds, hcovered, hround, hrounds⟩ :=
    h.accounted htidy
  have hc := htidy stretch ⟨before, [], append_nil _⟩ hnot
  by_cases hq : b.queue = []
  · rw [hq]
    exact Nat.zero_le _
  · have hall : ∀ n ∈ round :: rounds, n ≤ 2 * c + m + 1 := forall_mem_cons.mpr ⟨by omega, hrounds⟩
    calc b.queue.length ≤ total ((round :: rounds).take (m + 1 - b.behind b.queue)) :=
          hcovered b.queue hq suffix_rfl
      _ ≤ total ((round :: rounds).take (m + 1)) := total_take_mono _ (Nat.sub_le _ _)
      _ ≤ (m + 1) * (2 * c + m + 1) := total_take_le hall (m + 1)

end Covered

lemma Run.count_strand_le {turns : List Turn} (h : Run m b turns b') (hnot : Turn.evict ∉ turns) :
    turns.count .strand + 2 * b.queue.length + b'.live.length ≤
      2 * b'.queue.length + b.live.length := by
  induction h with
  | nil =>
    rw [count_nil]
    omega
  | snoc hrun hmove ih =>
    rw [mem_append, not_or, mem_singleton] at hnot
    have hih := ih hnot.1
    rw [count_append]
    cases hmove with
    | still =>
      rw [count_singleton]
      simpa using hih
    | enter a hlt =>
      simp
      omega
    | leave hsub hlen =>
      rw [count_singleton_self]
      dsimp only
      omega
    | touch a hsub hlen =>
      rw [count_singleton_self]
      simp only [length_append, length_cons, length_nil]
      omega
    | evict a v hfull hqueue howners hv => exact absurd rfl hnot.2

lemma Run.append {turns turns' : List Turn} {b'' : Backlog α} (h : Run m b turns b')
    (h' : Run m b' turns' b'') : Run m b (turns ++ turns') b'' := by
  induction h' with
  | nil =>
    rw [append_nil]
    exact h
  | snoc hrun hmove ih =>
    rw [← append_assoc]
    exact ih.snoc hmove

end Backlog

end P2.Lib
