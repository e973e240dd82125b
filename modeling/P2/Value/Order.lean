import P2.Value.Compare
import P2.Lib.SearchTree

/-!
# Values as keys

`Value::Comparator` on a set of values on which `compareTo` is lawful: a strict weak order whose
equivalence is `compareTo = 0`.
-/

namespace P2.Value

open P2.Lib

/-- `Value::Comparator`, the comparator of the maps keyed by values. -/
def comparator (a b : Value) : Bool := compareTo a b == .lt

lemma compareTo_self (v : Value) : compareTo v v = .eq := by
  have hd : ∀ d : Double, d.lt d = false := by
    simp [Double.lt]
  have ht : ∀ t : TimeRep, t.lt t = false := by
    intro t
    cases t <;> simp [TimeRep.lt]
  refine (parts_induction (P := fun v => compareTo v v = .eq)
    (Q := fun vs => compareElements vs vs = .eq) ?_ rfl ?_).1 v
  · intro a hparts
    cases a <;> simp_all [compareTo, parts, typeCode, ofTests]
  · intro a as ha has
    rw [compareElements, ha, has]
    rfl

@[simp] lemma comparator_self (v : Value) : comparator v v = false := by
  unfold comparator
  rw [compareTo_self]
  rfl

namespace LawfulOn

variable {S : Set Value} {a b c : Value}

lemma strictWeak (h : LawfulOn S) : StrictWeak comparator S where
  asymm a ha b hb hab := by
    simp only [comparator, beq_iff_eq] at hab ⊢
    rw [h.swap b hb a ha, hab]
    exact nofun
  not_lt_trans a ha b hb c hc hab hbc := by
    simp only [comparator, beq_iff_eq] at hab hbc ⊢
    intro hac
    -- not less from one side is at most from the other
    have hle : ∀ x ∈ S, ∀ y ∈ S, compareTo x y ≠ .lt → (compareTo y x).isLE := by
      intro x hx y hy hxy
      rw [h.swap y hy x hx]
      rcases hcmp : compareTo x y with _ | _ | _
      · exact absurd hcmp hxy
      · rfl
      · rfl
    have hca := h.trans c hc b hb a ha (hle b hb c hc hbc) (hle a ha b hb hab)
    rw [h.swap c hc a ha, hac] at hca
    cases hca

lemma eq_symm (h : LawfulOn S) (ha : a ∈ S) (hb : b ∈ S) (hab : compareTo a b = .eq) :
    compareTo b a = .eq := by
  rw [h.swap b hb a ha, hab]
  rfl

lemma eq_of_isLE (h : LawfulOn S) (ha : a ∈ S) (hb : b ∈ S) (hab : (compareTo a b).isLE)
    (hba : (compareTo b a).isLE) : compareTo a b = .eq := by
  rw [h.swap b hb a ha] at hba
  rcases hcmp : compareTo a b with _ | _ | _
  · rw [hcmp] at hba
    cases hba
  · rfl
  · rw [hcmp] at hab
    cases hab

lemma eq_trans (h : LawfulOn S) (ha : a ∈ S) (hb : b ∈ S) (hc : c ∈ S)
    (hab : compareTo a b = .eq) (hbc : compareTo b c = .eq) : compareTo a c = .eq := by
  have hba := h.eq_symm ha hb hab
  have hcb := h.eq_symm hb hc hbc
  apply h.eq_of_isLE ha hc
  · exact h.trans a ha b hb c hc (by rw [hab]; rfl) (by rw [hbc]; rfl)
  · exact h.trans c hc b hb a ha (by rw [hcb]; rfl) (by rw [hba]; rfl)

lemma ne_trans (h : LawfulOn S) (ha : a ∈ S) (hb : b ∈ S) (hc : c ∈ S) {worse : Ordering}
    (hworse : worse ≠ .eq) (hab : compareTo a b ≠ worse) (hbc : compareTo b c ≠ worse) :
    compareTo a c ≠ worse := by
  rcases worse with _ | _ | _
  · have hlt := h.strictWeak.not_lt_trans a ha b hb c hc
    simp only [comparator, beq_iff_eq] at hlt
    exact hlt hab hbc
  · exact absurd rfl hworse
  · rw [ne_eq, ← Ordering.isLE_iff_ne_gt] at hab hbc ⊢
    exact h.trans a ha b hb c hc hab hbc

lemma eq_iff_not_comparator (h : LawfulOn S) (ha : a ∈ S) (hb : b ∈ S) :
    (!comparator a b && !comparator b a) = true ↔ compareTo a b = .eq := by
  unfold comparator
  rw [h.swap b hb a ha]
  rcases compareTo a b with _ | _ | _ <;> decide

end LawfulOn

lemma lawfulOn_range {α : Type} {f : α → Value} (hnan : ∀ a, (f a).noNaN)
    (hclash : ∀ a b, ¬ clash (f a) (f b)) : LawfulOn (Set.range f) := by
  apply lawfulOn_of_not_clash
  · rintro _ ⟨a, rfl⟩
    exact hnan a
  · rintro _ ⟨a, rfl⟩ _ ⟨b, rfl⟩
    exact hclash a b

lemma lawfulOn_str : LawfulOn (Set.range Value.str) :=
  lawfulOn_range (fun _ => rfl) fun _ _ => Bool.false_ne_true

lemma lawfulOn_int64 : LawfulOn (Set.range Value.int64) :=
  lawfulOn_range (fun _ => rfl) fun _ _ => Bool.false_ne_true

end P2.Value
