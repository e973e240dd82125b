import Mathlib.Data.Multiset.Bind
import Mathlib.Data.List.Pairwise

/-!
# Bindings

A combination of rows binds each of its names to a value, a name perhaps more than once. Rows join
when all values of a name agree: `Agree`.
-/

namespace P2.Lib

open Multiset

/-! ## Agreement -/

/-- The relation is an equivalence on the set. -/
structure EquivOn {β : Type*} (r : β → β → Prop) (s : Set β) : Prop where
  refl : ∀ a ∈ s, r a a
  symm : ∀ a ∈ s, ∀ b ∈ s, r a b → r b a
  trans : ∀ a ∈ s, ∀ b ∈ s, ∀ c ∈ s, r a b → r b c → r a c

/-- Any two bindings of a name have related values. -/
def Agree {α β : Type*} (r : β → β → Prop) (W : List (α × β)) : Prop :=
  W.Pairwise fun p q => p.1 = q.1 → r p.2 q.2

def TypedBy {α β : Type*} (T : α → Set β) (W : List (α × β)) : Prop := ∀ p ∈ W, p.2 ∈ T p.1

section Agree

variable {α β : Type*} {r : β → β → Prop} {T : α → Set β} {W R : List (α × β)}

instance [DecidableEq α] [DecidableRel r] : Decidable (Agree r W) :=
  inferInstanceAs (Decidable (W.Pairwise _))

lemma TypedBy.append (hW : TypedBy T W) (hR : TypedBy T R) : TypedBy T (W ++ R) := by
  intro p hp
  rcases List.mem_append.mp hp with hp | hp
  · exact hW p hp
  · exact hR p hp

lemma agree_append_iff : Agree r (W ++ R) ↔
    Agree r W ∧ Agree r R ∧ ∀ p ∈ W, ∀ q ∈ R, p.1 = q.1 → r p.2 q.2 :=
  List.pairwise_append

lemma agree_of_nodup (hnodup : (W.map Prod.fst).Nodup) : Agree r W := by
  have hne : W.Pairwise fun p q => p.1 ≠ q.1 := List.pairwise_map.mp hnodup
  exact hne.imp fun hpq heq => absurd heq hpq

variable (hT : ∀ x, EquivOn r (T x))

include hT

lemma Agree.rel (h : Agree r W) (hW : TypedBy T W) {p q : α × β} (hp : p ∈ W) (hq : q ∈ W)
    (hpq : p.1 = q.1) : r p.2 q.2 := by
  have hpT := hW p hp
  by_cases heq : p = q
  · rw [heq] at hpT ⊢
    exact (hT q.1).refl q.2 hpT
  · -- the bindings are in one order or the other
    have hsymm : Std.Symm fun a b : α × β => a ∈ W ∧ b ∈ W ∧ (a.1 = b.1 → r a.2 b.2) := by
      refine ⟨?_⟩
      rintro a b ⟨ha, hb, hab⟩
      refine ⟨hb, ha, fun hba => ?_⟩
      exact (hT a.1).symm a.2 (hW a ha) b.2 (hba ▸ hW b hb) (hab hba.symm)
    have hpair : W.Pairwise fun a b => a ∈ W ∧ b ∈ W ∧ (a.1 = b.1 → r a.2 b.2) :=
      h.imp_of_mem fun ha hb hab => ⟨ha, hb, hab⟩
    exact (hpair.forall hp hq heq).2.2 hpq

lemma agree_append (h : Agree r W) (hW : TypedBy T W) (hR : TypedBy T R)
    (hcross : ∀ p ∈ W, ∀ q ∈ R, p.1 = q.1 → r p.2 q.2)
    (hnew : (R.map Prod.fst).Pairwise fun x y => x = y → x ∈ W.map Prod.fst) :
    Agree r (W ++ R) := by
  refine agree_append_iff.mpr ⟨h, ?_, hcross⟩
  refine (List.pairwise_map.mp hnew).imp_of_mem ?_
  intro q q' hq hq' hold hqq'
  -- a name that is there already is related to both values
  obtain ⟨p, hp, hpq⟩ := List.mem_map.mp (hold hqq')
  have hpT : p.2 ∈ T q.1 := hpq ▸ hW p hp
  have hq'T : q'.2 ∈ T q.1 := hqq' ▸ hR q' hq'
  exact (hT q.1).trans q.2 (hR q hq) p.2 hpT q'.2 hq'T
    ((hT q.1).symm p.2 hpT q.2 (hR q hq) (hcross p hp q hq hpq))
    (hcross p hp q' hq' (hpq.trans hqq'))

end Agree

/-! ## Counting successors -/

section Count

variable {α β γ δ : Type*} {r : α → β → Prop} {s : Multiset α} {t : Multiset β}
  {F : α → Multiset γ} {G : β → Multiset δ}

lemma card_bind_le (h : Multiset.Rel r s t)
    (hle : ∀ a b, r a b → card (G b) ≤ card (F a)) :
    card (t.bind G) ≤ card (s.bind F) := by
  induction h with
  | zero => exact le_rfl
  | cons hab _ ih =>
    rw [cons_bind, cons_bind, card_add, card_add]
    exact Nat.add_le_add (hle _ _ hab) ih

lemma exists_card_eq (h : Multiset.Rel r s t)
    (hle : ∀ a b, r a b → card (G b) ≤ card (F a))
    (hcard : card (s.bind F) = card (t.bind G)) {b : β} (hb : b ∈ t) :
    ∃ a ∈ s, r a b ∧ card (F a) = card (G b) := by
  induction h with
  | zero => exact absurd hb (notMem_zero b)
  | @cons a b' s t hab hst ih =>
    rw [cons_bind, cons_bind, card_add, card_add] at hcard
    have hfirst := hle a b' hab
    have hrest := card_bind_le hst hle
    rcases Multiset.mem_cons.mp hb with rfl | hb
    · exact ⟨a, mem_cons_self a s, hab, by omega⟩
    · obtain ⟨a', ha', hr, heq⟩ := ih (by omega) hb
      exact ⟨a', mem_cons_of_mem ha', hr, heq⟩

end Count

end P2.Lib
