import P2.Lib.SortedRange
import P2.Lib.Threshold
import P2.Value.Order

/-!
# Threshold primitives

A primitive says that so many of some speakers said something to some receivers, as some verifiers
can check. `verify` combines primitives along three axes and compares them.
-/

namespace P2.Secure

open P2.Value P2.Lib UInt32

/-! ## Sets of values -/

abbrev ValPtrSet := List Value

namespace ValPtrSet

def setunion (L M : ValPtrSet) : ValPtrSet := setUnion comparator L M

def intersect (L M : ValPtrSet) : ValPtrSet := setIntersection comparator L M

def subset (L M : ValPtrSet) : Bool := includes comparator L M

def size (L : ValPtrSet) : UInt32 := UInt32.ofNat L.length

end ValPtrSet

/-! ## Primitives -/

structure Primitive where
  p : ValPtrSet
  r : ValPtrSet
  k : UInt32
  v : ValPtrSet

inductive CombinationAxis where
  | SPKR
  | RCVR
  | VERIFIER
  deriving DecidableEq

namespace Primitive

def combine (f g : Primitive) : CombinationAxis → Primitive
  | .SPKR =>
    { p := f.p.setunion g.p
      r := f.r.intersect g.r
      v := f.v.intersect g.v
      k := max (max f.k g.k) (f.k + g.k - (f.p.intersect g.p).size) }
  | .RCVR =>
    { p := f.p.intersect g.p
      r := f.r.setunion g.r
      v := f.v.intersect g.v
      k := max 0 (f.k + g.k - (f.p.setunion g.p).size) }
  | .VERIFIER =>
    { p := f.p.intersect g.p
      r := f.r.intersect g.r
      v := f.v.setunion g.v
      k := max 0 ((f.k.toInt32 + g.k.toInt32).toUInt32 - (f.p.setunion g.p).size) }

/-- `smaller`: this primitive has all speakers, receivers and verifiers of the other one, and its
threshold is greater by as many as it has more speakers. -/
def smaller (f g : Primitive) : Bool :=
  f.p.subset g.p && f.r.subset g.r && f.v.subset g.v && decide (g.k ≤ f.k) && f.p.subset g.p &&
    decide (f.p.size.toInt32 - g.p.size.toInt32 ≤ f.k.toInt32 - g.k.toInt32)

def compareTo (f g : Primitive) : Ordering :=
  (compareElements f.p g.p).then ((compareElements f.r g.r).then
    ((compare (f.k.toInt32 - g.k.toInt32) 0).then (compareElements f.v g.v)))

/-! ## What a primitive says -/

def Reaches (Said : Value → Value → Value → Prop) (f : Primitive) (s : Value) : Prop :=
  ∀ r ∈ f.r, ∀ v ∈ f.v, Said s r v

open Classical in
noncomputable def speakers (f : Primitive) : Finset Value := f.p.toFinset

open Classical in
/-- The primitive holds of a relation: at least `k` of its speakers reached all receivers. -/
def Holds (Said : Value → Value → Value → Prop) (f : Primitive) : Prop :=
  AtLeast f.k.toNat f.speakers (f.Reaches Said)

end Primitive

def signed (k : UInt32) : ℤ := k.toInt32.toInt

namespace Primitive

open Classical in
/-- The primitive holds with its threshold read as a signed number. -/
def Says (Said : Value → Value → Value → Prop) (f : Primitive) : Prop :=
  AtLeast (signed f.k) f.speakers (f.Reaches Said)

/-- The sets of a primitive are sets of values that compare as in a total order. -/
structure Wf (C : Set Value) (f : Primitive) : Prop where
  pMem : ∀ x ∈ f.p, x ∈ C
  rMem : ∀ x ∈ f.r, x ∈ C
  vMem : ∀ x ∈ f.v, x ∈ C
  pSorted : f.p.Pairwise fun a b => comparator a b
  rSorted : f.r.Pairwise fun a b => comparator a b
  vSorted : f.v.Pairwise fun a b => comparator a b

def counted (f g : Primitive) : CombinationAxis → ValPtrSet
  | .SPKR => f.p.intersect g.p
  | .RCVR => f.p.setunion g.p
  | .VERIFIER => f.p.setunion g.p

def total (f g : Primitive) (axis : CombinationAxis) : ℤ :=
  signed f.k + signed g.k - (f.counted g axis).length

end Primitive

/-! ## Signed numbers -/

lemma signed_eq (k : UInt32) :
    signed k = if k.toNat < 2 ^ 31 then (k.toNat : ℤ) else k.toNat - 2 ^ 32 := by
  unfold signed
  rw [← Int32.toInt_toBitVec, toBitVec_toInt32, BitVec.toInt_eq_toNat_cond]
  show (if 2 * k.toNat < 2 ^ 32 then (k.toNat : ℤ) else k.toNat - (2 ^ 32 : ℕ)) = _
  split_ifs <;> omega

lemma signed_of_lt {k : UInt32} (h : k.toNat < 2 ^ 31) : signed k = k.toNat := by
  rw [signed_eq, if_pos h]

lemma toNat_of_signed {k : UInt32} (h : 0 ≤ signed k) : (k.toNat : ℤ) = signed k := by
  have hlt : k.toNat < 2 ^ 32 := k.toNat_lt
  rw [signed_eq] at h ⊢
  split_ifs at h ⊢
  · rfl
  · omega

lemma signed_size {L : ValPtrSet} (h : L.length < 2 ^ 31) : signed L.size = L.length := by
  have hsize : L.size.toNat = L.length := by
    unfold ValPtrSet.size
    rw [toNat_ofNat', Nat.mod_eq_of_lt (by omega)]
  rw [signed_of_lt (by rwa [hsize]), hsize]

lemma max_eq_or (a b : UInt32) : (max a b = a ∨ max a b = b) ∧ b ≤ max a b := by
  show ((if a ≤ b then b else a) = a ∨ (if a ≤ b then b else a) = b) ∧ b ≤ if a ≤ b then b else a
  split_ifs with h
  · exact ⟨Or.inr rfl, UInt32.le_refl b⟩
  · exact ⟨Or.inl rfl, UInt32.le_of_lt (UInt32.not_le.mp h)⟩

lemma signed_add_sub {a b : UInt32} {L : ValPtrSet} (hL : L.length < 2 ^ 31)
    (hlow : -2 ^ 31 ≤ signed a + signed b - L.length)
    (hhigh : signed a + signed b - L.length < 2 ^ 31) :
    signed (a + b - L.size) = signed a + signed b - L.length := by
  have hsize := signed_size hL
  unfold signed at *
  rw [toInt32_sub, toInt32_add, Int32.toInt_sub, Int32.toInt_add, hsize]
  rw [Int.bmod_sub_bmod]
  exact Int.bmod_eq_of_le (by omega) (by omega)

/-! ## Combinations -/

/-- The threshold of a combination is the sum, less what is taken off, or along the speakers that of
a part where it is not less. -/
lemma Primitive.combine_k (f g : Primitive) (axis : CombinationAxis) :
    (f.combine g axis).k = f.k + g.k - (f.counted g axis).size ∨
      axis = .SPKR ∧ ((f.combine g axis).k = f.k ∨ (f.combine g axis).k = g.k) ∧
        f.k + g.k - (f.counted g axis).size ≤ (f.combine g axis).k := by
  have hzero (k : UInt32) : max 0 k = k := if_pos UInt32.zero_le
  cases axis with
  | SPKR =>
    obtain ⟨h, hle⟩ := max_eq_or (max f.k g.k) (f.k + g.k - (f.counted g .SPKR).size)
    rcases h with h | h
    · refine Or.inr ⟨rfl, ?_, hle⟩
      exact (max_eq_or f.k g.k).1.imp h.trans h.trans
    · exact Or.inl h
  | RCVR => exact Or.inl (hzero _)
  | VERIFIER =>
    refine Or.inl ((hzero _).trans ?_)
    rw [← toInt32_add, toUInt32_toInt32]
    rfl

section Combine

variable {C : Set Value} (hC : StrictTotal comparator C) {f g : Primitive}

namespace Primitive

include hC

open Classical in
lemma Wf.card_speakers (hf : f.Wf C) : f.speakers.card = f.p.length := by
  have hnodup : f.p.Nodup := by
    refine List.Pairwise.imp_of_mem (fun {a b} ha _ hab heq => ?_) hf.pSorted
    rw [heq] at ha hab
    exact hC.irrefl (hf.pMem b ha) hab
  exact List.toFinset_card_of_nodup hnodup

lemma Wf.combine (hf : f.Wf C) (hg : g.Wf C) (axis : CombinationAxis) : (f.combine g axis).Wf C := by
  have hunion {L M : ValPtrSet} (hL : ∀ x ∈ L, x ∈ C) (hM : ∀ x ∈ M, x ∈ C) :
      ∀ x ∈ L.setunion M, x ∈ C := fun x hx =>
    ((mem_setUnion hC hL hM).mp hx).elim (hL x) (hM x)
  have hinter {L M : ValPtrSet} (hL : ∀ x ∈ L, x ∈ C) : ∀ x ∈ L.intersect M, x ∈ C :=
    fun x hx => hL x ((sublist_setIntersection comparator L M).subset hx)
  have hinterSorted {L M : ValPtrSet} (hL : L.Pairwise fun a b => comparator a b) :
      (L.intersect M).Pairwise fun a b => comparator a b :=
    hL.sublist (sublist_setIntersection comparator L M)
  cases axis with
  | SPKR =>
    exact ⟨hunion hf.pMem hg.pMem, hinter hf.rMem, hinter hf.vMem,
      sorted_setUnion hC hf.pMem hg.pMem hf.pSorted hg.pSorted, hinterSorted hf.rSorted,
      hinterSorted hf.vSorted⟩
  | RCVR =>
    exact ⟨hinter hf.pMem, hunion hf.rMem hg.rMem, hinter hf.vMem, hinterSorted hf.pSorted,
      sorted_setUnion hC hf.rMem hg.rMem hf.rSorted hg.rSorted, hinterSorted hf.vSorted⟩
  | VERIFIER =>
    exact ⟨hinter hf.pMem, hinter hf.rMem, hunion hf.vMem hg.vMem, hinterSorted hf.pSorted,
      hinterSorted hf.rSorted, sorted_setUnion hC hf.vMem hg.vMem hf.vSorted hg.vSorted⟩

variable (hf : f.Wf C) (hg : g.Wf C)

include hf hg

open Classical in
lemma toFinset_setunion : (f.p.setunion g.p).toFinset = f.speakers ∪ g.speakers := by
  ext x
  rw [Finset.mem_union, List.mem_toFinset, speakers, speakers, List.mem_toFinset, List.mem_toFinset]
  exact mem_setUnion hC hf.pMem hg.pMem

open Classical in
lemma toFinset_intersect : (f.p.intersect g.p).toFinset = f.speakers ∩ g.speakers := by
  ext x
  rw [Finset.mem_inter, List.mem_toFinset, speakers, speakers, List.mem_toFinset, List.mem_toFinset]
  exact mem_setIntersection hC hf.pMem hg.pMem hf.pSorted hg.pSorted

open Classical in
lemma speakers_combine (axis : CombinationAxis) : (f.combine g axis).speakers =
    match axis with
    | .SPKR => f.speakers ∪ g.speakers
    | _ => f.speakers ∩ g.speakers := by
  cases axis with
  | SPKR => exact toFinset_setunion hC hf hg
  | RCVR => exact toFinset_intersect hC hf hg
  | VERIFIER => exact toFinset_intersect hC hf hg

open Classical in
lemma length_counted (axis : CombinationAxis) : ((f.counted g axis).length : ℤ) =
    match axis with
    | .SPKR => ((f.speakers ∩ g.speakers).card : ℤ)
    | _ => ((f.speakers ∪ g.speakers).card : ℤ) := by
  have hunion := (hf.combine hC hg .SPKR).card_speakers hC
  have hinter := (hf.combine hC hg .RCVR).card_speakers hC
  rw [speakers_combine hC hf hg] at hunion hinter
  cases axis with
  | SPKR => exact congrArg Nat.cast hinter.symm
  | RCVR => exact congrArg Nat.cast hunion.symm
  | VERIFIER => exact congrArg Nat.cast hunion.symm

open Classical in
lemma signed_sum (hsize : (f.speakers ∪ g.speakers).card < 2 ^ 31)
    (hkf : signed f.k ≤ f.speakers.card) (hkg : signed g.k ≤ g.speakers.card)
    (axis : CombinationAxis) (hroom : -2 ^ 31 ≤ f.total g axis) :
    signed (f.k + g.k - (f.counted g axis).size) = f.total g axis := by
  have hcount := Finset.card_union_add_card_inter f.speakers g.speakers
  have hle := Finset.card_le_card (Finset.inter_subset_union (s := f.speakers) (t := g.speakers))
  have hlength := length_counted hC hf hg axis
  have hcounted : (f.counted g axis).length < 2 ^ 31 := by
    cases axis <;> simp only at hlength <;> omega
  have htotal : f.total g axis < 2 ^ 31 := by
    unfold total
    cases axis <;> simp only at hlength <;> omega
  exact signed_add_sub hcounted hroom htotal

open Classical in
/-- **The threshold of a combination.** It is the exact one or, along the speakers, that of a part,
if the exact one is in the range of signed numbers. -/
lemma signed_combine (hsize : (f.speakers ∪ g.speakers).card < 2 ^ 31)
    (hkf : signed f.k ≤ f.speakers.card) (hkg : signed g.k ≤ g.speakers.card)
    (axis : CombinationAxis) (hroom : -2 ^ 31 ≤ f.total g axis) :
    signed (f.combine g axis).k = f.total g axis ∨
      axis = .SPKR ∧ (signed (f.combine g axis).k = signed f.k ∨
        signed (f.combine g axis).k = signed g.k) := by
  have hsum := signed_sum hC hf hg hsize hkf hkg axis hroom
  rcases combine_k f g axis with h | ⟨haxis, h | h, -⟩
  · exact Or.inl ((congrArg signed h).trans hsum)
  · exact Or.inr ⟨haxis, Or.inl (congrArg signed h)⟩
  · exact Or.inr ⟨haxis, Or.inr (congrArg signed h)⟩

open Classical in
lemma says_combine {Said : Value → Value → Value → Prop}
    (hsize : (f.speakers ∪ g.speakers).card < 2 ^ 31) (hsf : f.Says Said) (hsg : g.Says Said)
    (axis : CombinationAxis) (hroom : -2 ^ 31 ≤ f.total g axis) :
    (f.combine g axis).Says Said := by
  have hsigned := signed_combine hC hf hg hsize hsf.le_card hsg.le_card axis hroom
  have hspeakers := speakers_combine hC hf hg axis
  have hlength := length_counted hC hf hg axis
  have hinter {L M : ValPtrSet} {x : Value} (hL : ∀ x ∈ L, x ∈ C) (hM : ∀ x ∈ M, x ∈ C)
      (hsL : L.Pairwise fun a b => comparator a b) (hsM : M.Pairwise fun a b => comparator a b)
      (hx : x ∈ L.intersect M) : x ∈ L ∧ x ∈ M := (mem_setIntersection hC hL hM hsL hsM).mp hx
  have hunion {L M : ValPtrSet} {x : Value} (hL : ∀ x ∈ L, x ∈ C) (hM : ∀ x ∈ M, x ∈ C)
      (hx : x ∈ L.setunion M) : x ∈ L ∨ x ∈ M := (mem_setUnion hC hL hM).mp hx
  unfold Says
  rw [hspeakers]
  cases axis with
  | SPKR =>
    -- who reached the receivers of a part reached the common ones
    have hqf : ∀ s, f.Reaches Said s → (f.combine g .SPKR).Reaches Said s :=
      fun s hs r hr v hv => hs r (hinter hf.rMem hg.rMem hf.rSorted hg.rSorted hr).1 v
        (hinter hf.vMem hg.vMem hf.vSorted hg.vSorted hv).1
    have hqg : ∀ s, g.Reaches Said s → (f.combine g .SPKR).Reaches Said s :=
      fun s hs r hr v hv => hs r (hinter hf.rMem hg.rMem hf.rSorted hg.rSorted hr).2 v
        (hinter hf.vMem hg.vMem hf.vSorted hg.vSorted hv).2
    rcases hsigned with h | ⟨-, h | h⟩
    · rw [h, total, hlength]
      exact (hsf.mono le_rfl (Finset.Subset.refl _) hqf).union
        (hsg.mono le_rfl (Finset.Subset.refl _) hqg)
    · rw [h]
      exact hsf.mono le_rfl Finset.subset_union_left hqf
    · rw [h]
      exact hsg.mono le_rfl Finset.subset_union_right hqg
  | RCVR =>
    rcases hsigned with h | ⟨h, -⟩
    · rw [h, total, hlength]
      refine (hsf.inter hsg).mono le_rfl (Finset.Subset.refl _) ?_
      rintro s ⟨hsf, hsg⟩ r hr v hv
      obtain ⟨hvf, hvg⟩ := hinter hf.vMem hg.vMem hf.vSorted hg.vSorted hv
      rcases hunion hf.rMem hg.rMem hr with hr | hr
      · exact hsf r hr v hvf
      · exact hsg r hr v hvg
    · cases h
  | VERIFIER =>
    rcases hsigned with h | ⟨h, -⟩
    · rw [h, total, hlength]
      refine (hsf.inter hsg).mono le_rfl (Finset.Subset.refl _) ?_
      rintro s ⟨hsf, hsg⟩ r hr v hv
      obtain ⟨hrf, hrg⟩ := hinter hf.rMem hg.rMem hf.rSorted hg.rSorted hr
      rcases hunion hf.vMem hg.vMem hv with hv | hv
      · exact hsf r hrf v hv
      · exact hsg r hrg v hv
    · cases h

omit hC hf hg in
lemma k_le_of_smaller (h : f.smaller g) : g.k.toNat ≤ f.k.toNat := by
  unfold smaller at h
  simp only [Bool.and_eq_true, decide_eq_true_eq] at h
  exact UInt32.le_iff_toNat_le.mp h.1.1.2

open Classical in
/-- **What is accepted holds.** The requested threshold is nonnegative as a signed number, and the
difference of the thresholds is in the range of signed numbers. -/
lemma holds_of_smaller {Said : Value → Value → Value → Prop} (hsize : f.speakers.card < 2 ^ 31)
    (hsf : f.Says Said) (hk : g.k.toNat < 2 ^ 31) (hroom : -2 ^ 31 ≤ signed f.k - g.k.toNat)
    (hsmaller : f.smaller g) : g.Holds Said := by
  unfold smaller at hsmaller
  simp only [Bool.and_eq_true, decide_eq_true_eq] at hsmaller
  obtain ⟨⟨⟨⟨⟨hp, hr⟩, hv⟩, -⟩, -⟩, hle⟩ := hsmaller
  have hsub : g.speakers ⊆ f.speakers := by
    intro x hx
    rw [speakers, List.mem_toFinset] at hx ⊢
    exact mem_of_includes hC hf.pMem hg.pMem hp x hx
  have hcard := Finset.card_le_card hsub
  have hfcard := hf.card_speakers hC
  have hgcard := hg.card_speakers hC
  have hfsize : signed f.p.size = f.p.length := signed_size (by omega)
  have hgsize : signed g.p.size = g.p.length := signed_size (by omega)
  have hgk := signed_of_lt hk
  have hfk := hsf.le_card
  -- neither difference wraps around
  have hdiff : (f.p.length : ℤ) - g.p.length ≤ signed f.k - signed g.k := by
    unfold signed at *
    rw [Int32.le_iff_toInt_le, Int32.toInt_sub, Int32.toInt_sub, hfsize, hgsize] at hle
    rwa [Int.bmod_eq_of_le (by omega) (by omega), Int.bmod_eq_of_le (by omega) (by omega)] at hle
  refine (hsf.subset hsub).mono (by omega) (Finset.Subset.refl _) fun s hs r hr' v hv' => ?_
  exact hs r (mem_of_includes hC hf.rMem hg.rMem hr r hr') v
    (mem_of_includes hC hf.vMem hg.vMem hv v hv')

end Primitive

end Combine

end P2.Secure
