import P2.Value.Compare

/-!
# Intervals on the ring

The tests for membership in an interval of the ring. They come twice in the source, as methods of
`ID` and as operators on values; both are the same disjunction of three comparisons, here over any
comparison. `owner_unique` is about the nodes of a ring.
-/

namespace P2.Value

open P2.Lib.Ripple List

/-! ## The tests -/

section Tests

variable {α : Type} (cmp : α → α → Ordering) (v f t : α)

def inOO : Bool :=
  (cmp v f == .gt && cmp v t == .lt) || (cmp t f != .gt && cmp v f == .gt) ||
    (cmp v t == .lt && cmp t f != .gt)

def inOC : Bool :=
  (cmp v f == .gt && cmp v t != .gt) || (cmp t f != .gt && cmp v f == .gt) ||
    (cmp v t != .gt && cmp t f != .gt)

def inCO : Bool :=
  (cmp v f != .lt && cmp v t == .lt) || (cmp t f != .gt && cmp v f != .lt) ||
    (cmp v t == .lt && cmp t f != .gt)

def inCC : Bool :=
  (cmp v f != .lt && cmp v t != .gt) || (cmp t f != .gt && cmp v f != .lt) ||
    (cmp v t != .gt && cmp t f != .gt)

end Tests

namespace ID

variable (x src dest : ID)

def compareTo (a other : ID) : Ordering := compare a.words other.words

def betweenOO : Bool := inOO compareTo x src dest

def betweenOC : Bool := inOC compareTo x src dest

def betweenCO : Bool := inCO compareTo x src dest

def betweenCC : Bool := inCC compareTo x src dest

/-! ## Identifiers as numbers -/

lemma compare_words (l m : List UInt32) (hlen : l.length = m.length) :
    compare l m = compare (beNat (2 ^ 32) (l.map UInt32.toNat))
      (beNat (2 ^ 32) (m.map UInt32.toNat)) := by
  induction l generalizing m with
  | nil =>
    rw [length_nil, eq_comm, length_eq_zero_iff] at hlen
    rw [hlen]
    rfl
  | cons w l ih =>
    obtain ⟨w', m, rfl⟩ := exists_cons_of_length_eq_add_one hlen.symm
    have hlen' : l.length = m.length := Nat.succ.inj hlen
    have hl := beNat_words_lt l
    have hm := beNat_words_lt m
    rw [hlen'] at hl
    rw [List.compare_cons_cons, ih m hlen', map_cons, map_cons, beNat_cons, beNat_cons,
      length_map, length_map, hlen', compare_mul_add _ _ hl hm, ← compare_word,
      compare_size]

lemma compareTo_eq (a b : ID) : compareTo a b = compare a.toNat b.toNat :=
  compare_words a.words b.words (a.length_words.trans b.length_words.symm)

/-! ## Arcs -/

/-- The length of the way from one identifier to another: all around when they are the same. -/
def arc : ℕ := if src = dest then 2 ^ 160 else (src.distance dest).toNat

lemma compareTo_eq_lt_iff (a b : ID) : compareTo a b = .lt ↔ a.toNat < b.toNat := by
  rw [compareTo_eq, Nat.compare_eq_lt]

lemma compareTo_eq_gt_iff (a b : ID) : compareTo a b = .gt ↔ b.toNat < a.toNat := by
  rw [compareTo_eq, Nat.compare_eq_gt]

/-- The facts that decide all four tests: identifiers and distances are below `2 ^ 160`, and the
distance and the arc are differences on the ring. -/
lemma ring_facts : x.toNat < 2 ^ 160 ∧ src.toNat < 2 ^ 160 ∧ dest.toNat < 2 ^ 160 ∧
    ((src.distance x).toNat : ℤ) = ((x.toNat : ℤ) - src.toNat) % 2 ^ 160 ∧
    (src.toNat = dest.toNat ∧ arc src dest = 2 ^ 160 ∨ src.toNat ≠ dest.toNat ∧
      (arc src dest : ℤ) = ((dest.toNat : ℤ) - src.toNat) % 2 ^ 160) := by
  refine ⟨x.toNat_lt, src.toNat_lt, dest.toNat_lt, src.distance_toNat x, ?_⟩
  unfold arc
  by_cases h : src = dest
  · exact Or.inl ⟨congrArg toNat h, if_pos h⟩
  · rw [if_neg h]
    exact Or.inr ⟨fun heq => h (toNat_inj heq), src.distance_toNat dest⟩

lemma betweenOO_iff : x.betweenOO src dest ↔
    0 < (src.distance x).toNat ∧ (src.distance x).toNat < arc src dest := by
  have hring := ring_facts x src dest
  simp only [betweenOO, inOO, Bool.or_eq_true, Bool.and_eq_true, beq_iff_eq, bne_iff_ne, ne_eq,
    compareTo_eq_lt_iff, compareTo_eq_gt_iff]
  omega

lemma betweenOC_iff : x.betweenOC src dest ↔
    0 < (src.distance x).toNat ∧ (src.distance x).toNat ≤ arc src dest ∨
      src = dest ∧ (src.distance x).toNat = 0 := by
  have hring := ring_facts x src dest
  have hsame : src = dest ↔ src.toNat = dest.toNat := ⟨congrArg toNat, toNat_inj⟩
  simp only [betweenOC, inOC, Bool.or_eq_true, Bool.and_eq_true, beq_iff_eq, bne_iff_ne, ne_eq,
    compareTo_eq_gt_iff, hsame]
  omega

lemma betweenCO_iff : x.betweenCO src dest ↔
    (src.distance x).toNat < arc src dest := by
  have hring := ring_facts x src dest
  simp only [betweenCO, inCO, Bool.or_eq_true, Bool.and_eq_true, beq_iff_eq, bne_iff_ne, ne_eq,
    compareTo_eq_lt_iff, compareTo_eq_gt_iff]
  omega

lemma betweenCC_iff : x.betweenCC src dest ↔
    (src.distance x).toNat ≤ arc src dest := by
  have hring := ring_facts x src dest
  simp only [betweenCC, inCC, Bool.or_eq_true, Bool.and_eq_true, bne_iff_ne, ne_eq,
    compareTo_eq_lt_iff, compareTo_eq_gt_iff]
  omega

/-! ## Rings of nodes -/

/-- The arcs of a ring of nodes: the first node has the whole ring, and one that joins splits the arc
in which it lies. -/
inductive Ring : List (ID × ID) → Prop
  | alone (n : ID) : Ring [(n, n)]
  | join {before after : List (ID × ID)} {a b n : ID} : Ring (before ++ (a, b) :: after) →
      n.betweenOO a b → Ring (before ++ (a, n) :: (n, b) :: after)

lemma betweenOC_split {a b n : ID} (hn : n.betweenOO a b) :
    (x.betweenOC a b ↔ x.betweenOC a n ∨ x.betweenOC n b) ∧
      ¬ (x.betweenOC a n ∧ x.betweenOC n b) := by
  simp only [betweenOO, inOO, betweenOC, inOC, Bool.or_eq_true, Bool.and_eq_true, beq_iff_eq,
    bne_iff_ne, ne_eq, compareTo_eq_lt_iff, compareTo_eq_gt_iff] at hn ⊢
  omega

lemma Ring.countP_eq_one {arcs : List (ID × ID)} (h : Ring arcs) :
    arcs.countP (fun arc => x.betweenOC arc.1 arc.2) = 1 := by
  induction h with
  | alone n =>
    have hall : x.betweenOC n n := by
      simp only [betweenOC, inOC, Bool.or_eq_true, Bool.and_eq_true, beq_iff_eq, bne_iff_ne, ne_eq,
        compareTo_eq_gt_iff]
      omega
    simp [hall]
  | join _ hn ih =>
    obtain ⟨hcover, hapart⟩ := betweenOC_split x hn
    simp only [countP_append, countP_cons, hcover] at ih ⊢
    split_ifs at ih ⊢ <;> tauto

/-- **Every identifier has one owner**: where nodes have joined a ring one after the other, the
half-open test puts it into exactly one of the arcs.
Hyps: `h` — each node joined inside an arc -/
theorem owner_unique {arcs : List (ID × ID)} (h : Ring arcs) :
    arcs.countP (fun arc => x.betweenOC arc.1 arc.2) = 1 :=
  h.countP_eq_one x

theorem owner_unique_two :
    [(⟨[0, 0, 0, 0, 9], rfl⟩, ⟨[0, 0, 0, 7, 0], rfl⟩),
      (⟨[0, 0, 0, 7, 0], rfl⟩, ⟨[0, 0, 0, 0, 9], rfl⟩)].countP
        (fun arc => betweenOC ⟨[1, 0, 0, 0, 0], rfl⟩ arc.1 arc.2) = 1 :=
  owner_unique _ (Ring.join (show Ring ([] ++ (_, _) :: []) from .alone ⟨[0, 0, 0, 0, 9], rfl⟩)
    (by decide))

end ID

end P2.Value
