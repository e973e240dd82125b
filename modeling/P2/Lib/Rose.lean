import Mathlib.Order.Compare
import Mathlib.Tactic.Common

/-!
# Lexicographic comparison of labelled trees

A nested value that is compared "my head first, then my parts from left to right" is compared as
a labelled tree. This module has the order of such trees, over any label type with a lawful
comparison.

* `Rose α` — finitely branching trees with a label at every node.
* `Rose.cmp` is `Std.TransCmp` and `Std.LawfulEqCmp` when the comparison of labels is.
-/

namespace P2.Lib

/-! ## Transitivity of comparison results -/

/-- Three comparison results `ab`, `bc`, `ac` fit together as those of `a, b`, of `b, c` and of
`a, c` do under a total preorder. -/
structure LexTrans (ab bc ac : Ordering) : Prop where
  /-- Equal on the left: the comparison is that of the right pair. -/
  eq_left : ab = .eq → ac = bc
  /-- Equal on the right: the comparison is that of the left pair. -/
  eq_right : bc = .eq → ac = ab
  lt_lt : ab = .lt → bc = .lt → ac = .lt
  gt_gt : ab = .gt → bc = .gt → ac = .gt

namespace LexTrans

lemma of_transCmp {α : Type} {cmp : α → α → Ordering} [Std.TransCmp cmp] (a b c : α) :
    LexTrans (cmp a b) (cmp b c) (cmp a c) where
  eq_left h := Std.TransCmp.congr_left h
  eq_right h := (Std.TransCmp.congr_right h).symm
  lt_lt h₁ h₂ := Std.TransCmp.lt_trans h₁ h₂
  gt_gt h₁ h₂ := Std.TransCmp.gt_trans h₁ h₂

lemma then_then {ab bc ac ab' bc' ac' : Ordering} (h : LexTrans ab bc ac)
    (h' : LexTrans ab' bc' ac') :
    LexTrans (ab.then ab') (bc.then bc') (ac.then ac') := by
  obtain ⟨hl, hr, hlt, hgt⟩ := h
  -- the first key decides unless both of its results are `eq`
  cases ab <;> cases bc <;> cases ac <;> simp_all [Ordering.then] <;>
    exact ⟨by simp, by simp, by simp, by simp⟩

lemma isLE {ab bc ac : Ordering} (h : LexTrans ab bc ac) (h₁ : ab.isLE) (h₂ : bc.isLE) :
    ac.isLE := by
  obtain ⟨hl, hr, hlt, -⟩ := h
  cases ab <;> cases bc <;> simp_all

end LexTrans

/-! ## Trees -/

/-- A finitely branching tree with a label at every node. -/
inductive Rose (α : Type) where
  | node (label : α) (children : List (Rose α))

namespace Rose

variable {α : Type}

mutual

def cmp (c : α → α → Ordering) : Rose α → Rose α → Ordering
  | .node a as, .node b bs => (c a b).then (cmpChildren c as bs)

/-- Compare two lists of trees lexicographically; a proper initial segment comes first. -/
def cmpChildren (c : α → α → Ordering) : List (Rose α) → List (Rose α) → Ordering
  | [], [] => .eq
  | [], _ :: _ => .lt
  | _ :: _, [] => .gt
  | t :: ts, u :: us => (cmp c t u).then (cmpChildren c ts us)

end

variable {c : α → α → Ordering}

mutual

lemma cmp_swap [Std.OrientedCmp c] : ∀ t u : Rose α, cmp c t u = (cmp c u t).swap
  | .node a as, .node b bs => by
    rw [cmp, cmp, Ordering.swap_then, ← Std.OrientedCmp.eq_swap, ← cmpChildren_swap as bs]

lemma cmpChildren_swap [Std.OrientedCmp c] :
    ∀ ts us : List (Rose α), cmpChildren c ts us = (cmpChildren c us ts).swap
  | [], [] => by simp [cmpChildren]
  | [], _ :: _ => by simp [cmpChildren]
  | _ :: _, [] => by simp [cmpChildren]
  | t :: ts, u :: us => by
    rw [cmpChildren, cmpChildren, Ordering.swap_then, ← cmp_swap t u, ← cmpChildren_swap ts us]

end

mutual

lemma cmp_lexTrans [Std.TransCmp c] :
    ∀ t u v : Rose α, LexTrans (cmp c t u) (cmp c u v) (cmp c t v)
  | .node _ as, .node _ bs, .node _ cs => by
    rw [cmp, cmp, cmp]
    exact (LexTrans.of_transCmp _ _ _).then_then (cmpChildren_lexTrans as bs cs)

lemma cmpChildren_lexTrans [Std.TransCmp c] : ∀ ts us vs : List (Rose α),
    LexTrans (cmpChildren c ts us) (cmpChildren c us vs) (cmpChildren c ts vs)
  | [], [], vs => by cases vs <;> exact ⟨by simp [cmpChildren], by simp [cmpChildren],
      by simp [cmpChildren], by simp [cmpChildren]⟩
  | [], _ :: _, vs => by cases vs <;> exact ⟨by simp [cmpChildren], by simp [cmpChildren],
      by simp [cmpChildren], by simp [cmpChildren]⟩
  | _ :: _, [], vs => by cases vs <;> exact ⟨by simp [cmpChildren], by simp [cmpChildren],
      by simp [cmpChildren], by simp [cmpChildren]⟩
  | _ :: _, _ :: _, [] => ⟨by simp [cmpChildren], by simp [cmpChildren],
      by simp [cmpChildren], by simp [cmpChildren]⟩
  | t :: ts, u :: us, v :: vs => by
    rw [cmpChildren, cmpChildren, cmpChildren]
    exact (cmp_lexTrans t u v).then_then (cmpChildren_lexTrans ts us vs)

end

mutual

lemma cmp_eq_iff [Std.LawfulEqCmp c] : ∀ t u : Rose α, cmp c t u = .eq ↔ t = u
  | .node a as, .node b bs => by
    rw [cmp, Ordering.then_eq_eq, Std.LawfulEqCmp.compare_eq_iff_eq, cmpChildren_eq_iff as bs,
      node.injEq]

lemma cmpChildren_eq_iff [Std.LawfulEqCmp c] :
    ∀ ts us : List (Rose α), cmpChildren c ts us = .eq ↔ ts = us
  | [], [] => by simp [cmpChildren]
  | [], _ :: _ => by simp [cmpChildren]
  | _ :: _, [] => by simp [cmpChildren]
  | t :: ts, u :: us => by
    rw [cmpChildren, Ordering.then_eq_eq, cmp_eq_iff t u, cmpChildren_eq_iff ts us, List.cons.injEq]

end

/-- **The comparison of trees is a total preorder.** -/
instance [Std.TransCmp c] : Std.TransCmp (cmp c) where
  eq_swap := cmp_swap _ _
  isLE_trans h₁ h₂ := (cmp_lexTrans _ _ _).isLE h₁ h₂

instance [Std.LawfulEqCmp c] : Std.LawfulEqCmp (cmp c) where
  compare_self := (cmp_eq_iff _ _).mpr rfl
  eq_of_compare h := (cmp_eq_iff _ _).mp h

end Rose

end P2.Lib
