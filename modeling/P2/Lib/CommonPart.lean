import Mathlib.Data.List.Perm.Basic
import Mathlib.Data.Set.List

/-!
# The common part of two lists

Two lists are sorted with a comparison and walked through side by side (`common`). What is found in
both, counted up to equality in the comparison, is as much as the list with fewer has.
-/

namespace P2.Lib.CommonPart

open List

variable {α : Type} (cmp : α → α → Ordering)

/-- Insertion before the first greater element. -/
def insertInto (x : α) : List α → List α
  | [] => [x]
  | y :: ys => if cmp x y = .lt then x :: y :: ys else y :: insertInto x ys

/-- The elements of a list inserted one after the other. -/
def sortInto : List α → List α → List α
  | sorted, [] => sorted
  | sorted, x :: xs => sortInto (insertInto cmp x sorted) xs

def common : List α → List α → List α
  | [], _ => []
  | _ :: _, [] => []
  | x :: xs, y :: ys =>
    match cmp x y with
    | .eq => x :: common xs ys
    | .lt => common xs (y :: ys)
    | .gt => common (x :: xs) ys
  termination_by xs ys => xs.length + ys.length

/-- How many elements compare equal to a value. -/
def countLike (v : α) (l : List α) : ℕ := l.countP fun x => cmp x v == .eq

variable {cmp}

lemma perm_insertInto (x : α) (l : List α) : (insertInto cmp x l).Perm (x :: l) := by
  fun_induction insertInto cmp x l with
  | case1 | case2 => exact .refl _
  | case3 y ys _ ih => exact (ih.cons y).trans (List.Perm.swap x y ys)

lemma perm_sortInto (sorted l : List α) : (sortInto cmp sorted l).Perm (sorted ++ l) := by
  induction l generalizing sorted with
  | nil =>
    rw [append_nil]
    exact .refl _
  | cons x xs ih =>
    refine (ih _).trans (((perm_insertInto x sorted).append_right xs).trans ?_)
    exact perm_middle.symm

@[simp] lemma countLike_cons (v x : α) (l : List α) :
    countLike cmp v (x :: l) = countLike cmp v l + if cmp x v = .eq then 1 else 0 := by
  unfold countLike
  rw [countP_cons]
  simp

section Map

variable {β : Type} {f : β → α}

lemma insertInto_map (x : β) (l : List β) : insertInto cmp (f x) (l.map f) =
    (insertInto (fun a b => cmp (f a) (f b)) x l).map f := by
  induction l with
  | nil => rfl
  | cons y ys ih =>
    rw [map_cons]
    unfold insertInto
    split_ifs
    · rfl
    · rw [map_cons, ih]

lemma sortInto_map (sorted l : List β) : sortInto cmp (sorted.map f) (l.map f) =
    (sortInto (fun a b => cmp (f a) (f b)) sorted l).map f := by
  induction l generalizing sorted with
  | nil => rfl
  | cons x xs ih =>
    rw [map_cons, sortInto, insertInto_map, ih]
    rfl

lemma common_map (l l' : List β) : common cmp (l.map f) (l'.map f) =
    (common (fun a b => cmp (f a) (f b)) l l').map f := by
  fun_induction common (fun a b => cmp (f a) (f b)) l l' with
  | case1 l' => rw [map_nil, common]
  | case2 x xs => rw [map_nil, map_cons, common]
  | case3 x xs y ys heq ih => rw [map_cons, map_cons, common, heq, ih, map_cons]
  | case4 x xs y ys hlt ih =>
    rw [map_cons, map_cons, common, hlt]
    exact ih
  | case5 x xs y ys hgt ih =>
    rw [map_cons, map_cons, common, hgt]
    exact ih

lemma countLike_map (v : β) (l : List β) :
    countLike cmp (f v) (l.map f) = countLike (fun a b => cmp (f a) (f b)) v l := by
  unfold countLike
  rw [countP_map]
  rfl

end Map

section Ordered

variable [Std.TransCmp cmp]

lemma pairwise_insertInto (x : α) {l : List α} (hl : l.Pairwise fun a b => (cmp a b).isLE) :
    (insertInto cmp x l).Pairwise fun a b => (cmp a b).isLE := by
  fun_induction insertInto cmp x l with
  | case1 => exact pairwise_singleton _ _
  | case2 y ys hlt =>
    have hxy : (cmp x y).isLE := by rw [hlt]; rfl
    refine pairwise_cons.mpr ⟨fun z hz => ?_, hl⟩
    rcases mem_cons.mp hz with rfl | hz
    · exact hxy
    · exact Std.TransCmp.isLE_trans hxy ((pairwise_cons.mp hl).1 z hz)
  | case3 y ys hlt ih =>
    obtain ⟨hy, hys⟩ := pairwise_cons.mp hl
    have hyx : (cmp y x).isLE := by
      have hswap : cmp y x = (cmp x y).swap := Std.OrientedCmp.eq_swap
      rw [hswap]
      cases hcmp : cmp x y with
      | lt => exact absurd hcmp hlt
      | eq => rfl
      | gt => rfl
    refine pairwise_cons.mpr ⟨fun z hz => ?_, ih hys⟩
    rcases mem_cons.mp ((perm_insertInto x ys).mem_iff.mp hz) with rfl | hz
    · exact hyx
    · exact hy z hz

lemma pairwise_sortInto {sorted : List α} (l : List α)
    (hsorted : sorted.Pairwise fun a b => (cmp a b).isLE) :
    (sortInto cmp sorted l).Pairwise fun a b => (cmp a b).isLE := by
  induction l generalizing sorted with
  | nil => exact hsorted
  | cons x xs ih => exact ih (pairwise_insertInto x hsorted)

lemma countLike_eq_zero {v y : α} {ys : List α}
    (hys : (y :: ys).Pairwise fun a b => (cmp a b).isLE) (hv : cmp v y = .lt) :
    countLike cmp v (y :: ys) = 0 := by
  unfold countLike
  rw [countP_eq_zero]
  intro z hz heq
  rw [beq_iff_eq] at heq
  have hyz : (cmp y z).isLE := by
    rcases mem_cons.mp hz with rfl | hz
    · have hself : cmp z z = .eq := Std.ReflCmp.compare_self
      rw [hself]
      rfl
    · exact (pairwise_cons.mp hys).1 z hz
  have hlt : cmp v z = .lt := Std.TransCmp.lt_of_lt_of_isLE hv hyz
  rw [Std.OrientedCmp.eq_comm.mp heq] at hlt
  cases hlt

lemma countLike_common (v : α) {l l' : List α} (hl : l.Pairwise fun a b => (cmp a b).isLE)
    (hl' : l'.Pairwise fun a b => (cmp a b).isLE) :
    countLike cmp v (common cmp l l') = min (countLike cmp v l) (countLike cmp v l') := by
  fun_induction common cmp l l' with
  | case1 l' => exact (Nat.zero_min _).symm
  | case2 x xs => exact (Nat.min_zero _).symm
  | case3 x xs y ys heq ih =>
    -- equal heads: both lists lose one element of one class
    rw [countLike_cons, countLike_cons, countLike_cons, ih (pairwise_cons.mp hl).2
      (pairwise_cons.mp hl').2, Std.TransCmp.congr_left heq]
    omega
  | case4 x xs y ys hlt ih =>
    rw [ih (pairwise_cons.mp hl).2 hl', countLike_cons v x xs]
    split_ifs with hv
    · rw [countLike_eq_zero hl' (by rwa [← Std.TransCmp.congr_left hv]), Nat.min_zero, Nat.min_zero]
    · rfl
  | case5 x xs y ys hgt ih =>
    rw [ih hl (pairwise_cons.mp hl').2, countLike_cons v y ys]
    split_ifs with hv
    · rw [countLike_eq_zero hl, Nat.zero_min, Nat.zero_min]
      rw [← Std.TransCmp.congr_left hv]
      exact Std.OrientedCmp.gt_iff_lt.mp hgt
    · rfl

end Ordered

/-- **The common part of two lists has the smaller of the two counts**, where the comparison is an
order on the elements. -/
lemma countLike_common_sortInto {S : α → Prop}
    (hcmp : Std.TransCmp fun a b : {x // S x} => cmp a.1 b.1) {v : α} (hv : S v) {l l' : List α}
    (hl : ∀ x ∈ l, S x) (hl' : ∀ x ∈ l', S x) :
    countLike cmp v (common cmp (sortInto cmp [] l) (sortInto cmp [] l')) =
      min (countLike cmp v l) (countLike cmp v l') := by
  lift v to {x // S x} using hv
  lift l to List {x // S x} using hl
  lift l' to List {x // S x} using hl'
  have hsort : ∀ m : List {x // S x}, sortInto cmp [] (m.map Subtype.val) =
      (sortInto (fun a b : {x // S x} => cmp a.1 b.1) [] m).map Subtype.val :=
    fun m => sortInto_map [] m
  rw [hsort, hsort, common_map, countLike_map, countLike_map, countLike_map,
    countLike_common v (pairwise_sortInto l .nil) (pairwise_sortInto l' .nil)]
  unfold countLike
  rw [(perm_sortInto [] l).countP_eq, (perm_sortInto [] l').countP_eq, nil_append, nil_append]

end P2.Lib.CommonPart
