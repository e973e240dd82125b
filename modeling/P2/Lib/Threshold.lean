import Mathlib.Data.Finset.Card

/-!
# Thresholds

That at least so many members of a finite set have a property: `AtLeast`. The number may be
negative, which says nothing.
-/

namespace P2.Lib

variable {α : Type}

/-- At least `k` members of the set have the property. -/
def AtLeast (k : ℤ) (P : Finset α) (Q : α → Prop) : Prop :=
  ∃ A ⊆ P, k ≤ A.card ∧ ∀ s ∈ A, Q s

namespace AtLeast

variable {k k₁ k₂ : ℤ} {P P' P₁ P₂ : Finset α} {Q Q' Q₁ Q₂ : α → Prop}

lemma le_card (h : AtLeast k P Q) : k ≤ P.card := by
  obtain ⟨A, hA, hk, -⟩ := h
  have hcard := Finset.card_le_card hA
  omega

lemma mono (h : AtLeast k P Q) (hk : k₁ ≤ k) (hP : P ⊆ P') (hQ : ∀ s, Q s → Q' s) :
    AtLeast k₁ P' Q' := by
  obtain ⟨A, hA, hkA, hQA⟩ := h
  exact ⟨A, hA.trans hP, hk.trans hkA, fun s hs => hQ s (hQA s hs)⟩

variable [DecidableEq α]

lemma union (h₁ : AtLeast k₁ P₁ Q) (h₂ : AtLeast k₂ P₂ Q) :
    AtLeast (k₁ + k₂ - (P₁ ∩ P₂).card) (P₁ ∪ P₂) Q := by
  obtain ⟨A, hA, hkA, hQA⟩ := h₁
  obtain ⟨B, hB, hkB, hQB⟩ := h₂
  refine ⟨A ∪ B, Finset.union_subset_union hA hB, ?_, fun s hs => ?_⟩
  · have hcount := Finset.card_union_add_card_inter A B
    have htwice := Finset.card_le_card (Finset.inter_subset_inter hA hB)
    omega
  · rcases Finset.mem_union.mp hs with hs | hs
    · exact hQA s hs
    · exact hQB s hs

lemma inter (h₁ : AtLeast k₁ P₁ Q₁) (h₂ : AtLeast k₂ P₂ Q₂) :
    AtLeast (k₁ + k₂ - (P₁ ∪ P₂).card) (P₁ ∩ P₂) fun s => Q₁ s ∧ Q₂ s := by
  obtain ⟨A, hA, hkA, hQA⟩ := h₁
  obtain ⟨B, hB, hkB, hQB⟩ := h₂
  refine ⟨A ∩ B, Finset.inter_subset_inter hA hB, ?_, fun s hs => ?_⟩
  · have hcount := Finset.card_union_add_card_inter A B
    have hall := Finset.card_le_card (Finset.union_subset_union hA hB)
    omega
  · obtain ⟨hsA, hsB⟩ := Finset.mem_inter.mp hs
    exact ⟨hQA s hsA, hQB s hsB⟩

lemma subset (h : AtLeast k P Q) (hP : P' ⊆ P) : AtLeast (k - (P.card - P'.card)) P' Q := by
  have hall : AtLeast P'.card P' fun _ => True := ⟨P', Finset.Subset.refl P', le_rfl, fun _ _ => trivial⟩
  have hinter := h.inter hall
  rw [Finset.union_eq_left.mpr hP, Finset.inter_eq_right.mpr hP] at hinter
  exact hinter.mono (by omega) (Finset.Subset.refl P') fun s hs => hs.1

end AtLeast

end P2.Lib
