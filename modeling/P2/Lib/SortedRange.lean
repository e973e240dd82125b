import P2.Lib.SearchTree

/-!
# Algorithms on sorted ranges

`std::set_union`, `std::set_intersection` and `std::includes` on ranges sorted by a comparator.

* `mem_setUnion`, `mem_setIntersection`, `mem_of_includes` — what they compute.
* `sorted_setUnion`, `sublist_setIntersection` — their results are sorted again.
-/

namespace P2.Lib

open List

variable {α : Type} {lt : α → α → Bool} {S : Set α}

/-- A strict weak order in which only equal elements are equivalent. -/
structure StrictTotal (lt : α → α → Bool) (S : Set α) : Prop extends StrictWeak lt S where
  /-- Of two different elements one is less. -/
  eq_of_not_lt : ∀ a ∈ S, ∀ b ∈ S, ¬ lt a b → ¬ lt b a → a = b

/-! ## The algorithms -/

/-- `std::set_union` where the first range starts with `a`; `rest` goes on without it. -/
def unionFrom (lt : α → α → Bool) (a : α) (as : List α) (rest : List α → List α) :
    List α → List α
  | [] => a :: as
  | b :: bs =>
    if lt a b then a :: rest (b :: bs)
    else if lt b a then b :: unionFrom lt a as rest bs
    else a :: rest bs

/-- `std::set_union`: of two equivalent elements the one of the first range is taken. -/
def setUnion (lt : α → α → Bool) : List α → List α → List α
  | [], bs => bs
  | a :: as, bs => unionFrom lt a as (setUnion lt as) bs

/-- `std::set_intersection` where the first range starts with `a`; `rest` goes on without it. -/
def intersectionFrom (lt : α → α → Bool) (a : α) (rest : List α → List α) : List α → List α
  | [] => []
  | b :: bs =>
    if lt a b then rest (b :: bs)
    else if lt b a then intersectionFrom lt a rest bs
    else a :: rest bs

def setIntersection (lt : α → α → Bool) : List α → List α → List α
  | [], _ => []
  | a :: as, bs => intersectionFrom lt a (setIntersection lt as) bs

/-- `std::includes`: the first range has the elements of the second one. -/
def includes (lt : α → α → Bool) : List α → List α → Bool
  | _, [] => true
  | [], _ :: _ => false
  | a :: as, b :: bs =>
    if lt b a then false
    else if lt a b then includes lt as (b :: bs)
    else includes lt as bs

/-! ## Members -/

section Members

variable (hS : StrictTotal lt S)

include hS

lemma mem_setUnion {as bs : List α} (has : ∀ a ∈ as, a ∈ S) (hbs : ∀ b ∈ bs, b ∈ S) {x : α} :
    x ∈ setUnion lt as bs ↔ x ∈ as ∨ x ∈ bs := by
  induction as generalizing bs with
  | nil => simp [setUnion]
  | cons a as ih =>
    obtain ⟨ha, has⟩ := forall_mem_cons.mp has
    rw [setUnion]
    induction bs with
    | nil => simp [unionFrom]
    | cons b bs ihb =>
      obtain ⟨hb, hbs'⟩ := forall_mem_cons.mp hbs
      rw [unionFrom]
      split_ifs with hab hba
      · rw [mem_cons, ih has hbs, mem_cons (l := as), or_assoc]
      · rw [mem_cons, ihb hbs', mem_cons, mem_cons]
        tauto
      · obtain rfl := hS.eq_of_not_lt a ha b hb hab hba
        rw [mem_cons, ih has hbs', mem_cons, mem_cons]
        tauto

lemma mem_of_includes {as bs : List α} (has : ∀ a ∈ as, a ∈ S) (hbs : ∀ b ∈ bs, b ∈ S)
    (h : includes lt as bs) : ∀ x ∈ bs, x ∈ as := by
  fun_induction includes lt as bs with
  | case1 => exact forall_mem_nil _
  | case2 | case3 => cases h
  | case4 a as b bs _ hab ih =>
    exact fun x hx => mem_cons_of_mem a (ih (forall_mem_cons.mp has).2 hbs h x hx)
  | case5 a as b bs hba hab ih =>
    obtain ⟨ha, has⟩ := forall_mem_cons.mp has
    obtain ⟨hb, hbs'⟩ := forall_mem_cons.mp hbs
    obtain rfl := hS.eq_of_not_lt a ha b hb hab hba
    intro x hx
    rcases mem_cons.mp hx with rfl | hx
    · exact mem_cons_self
    · exact mem_cons_of_mem a (ih has hbs' h x hx)

lemma lt_of_lt_head {a b : α} {bs : List α} (ha : a ∈ S) (hbs : ∀ x ∈ b :: bs, x ∈ S)
    (hsb : (b :: bs).Pairwise fun a b => lt a b) (hab : lt a b) : ∀ x ∈ b :: bs, lt a x := by
  intro x hx
  rcases mem_cons.mp hx with rfl | hx'
  · exact hab
  · exact hS.trans ha (hbs b mem_cons_self) (hbs x hx) hab ((pairwise_cons.mp hsb).1 x hx')

lemma mem_setIntersection {as bs : List α} (has : ∀ a ∈ as, a ∈ S) (hbs : ∀ b ∈ bs, b ∈ S)
    (hsa : as.Pairwise fun a b => lt a b) (hsb : bs.Pairwise fun a b => lt a b) {x : α} :
    x ∈ setIntersection lt as bs ↔ x ∈ as ∧ x ∈ bs := by
  induction as generalizing bs with
  | nil => simp [setIntersection]
  | cons a as ih =>
    obtain ⟨ha, has'⟩ := forall_mem_cons.mp has
    have hsa' := (pairwise_cons.mp hsa).2
    rw [setIntersection]
    induction bs with
    | nil => simp [intersectionFrom]
    | cons b bs ihb =>
      obtain ⟨hb, hbs'⟩ := forall_mem_cons.mp hbs
      have hsb' := (pairwise_cons.mp hsb).2
      rw [intersectionFrom]
      split_ifs with hab hba
      · -- `a` is below the second range
        have hnot := mt (lt_of_lt_head hS ha hbs hsb hab a) (hS.irrefl ha)
        refine (ih has' hbs hsa' hsb).trans ⟨And.imp_left (mem_cons_of_mem a),
          fun h => ⟨(mem_cons.mp h.1).resolve_left ?_, h.2⟩⟩
        rintro rfl
        exact hnot h.2
      · -- `b` is below the first range
        have hnot := mt (lt_of_lt_head hS hb has hsa hba b) (hS.irrefl hb)
        refine (ihb hbs' hsb').trans ⟨And.imp_right (mem_cons_of_mem b),
          fun h => ⟨h.1, (mem_cons.mp h.2).resolve_left ?_⟩⟩
        rintro rfl
        exact hnot h.1
      · obtain rfl := hS.eq_of_not_lt a ha b hb hab hba
        rw [mem_cons, ih has' hbs' hsa' hsb', mem_cons, mem_cons]
        tauto

/-! ## Order -/

lemma sorted_setUnion {as bs : List α} (has : ∀ a ∈ as, a ∈ S) (hbs : ∀ b ∈ bs, b ∈ S)
    (hsa : as.Pairwise fun a b => lt a b) (hsb : bs.Pairwise fun a b => lt a b) :
    (setUnion lt as bs).Pairwise fun a b => lt a b := by
  induction as generalizing bs with
  | nil => exact hsb
  | cons a as ih =>
    have hunion {bs : List α} (hbs : ∀ b ∈ bs, b ∈ S) {x : α} := mem_setUnion hS has hbs (x := x)
    obtain ⟨ha, has'⟩ := forall_mem_cons.mp has
    obtain ⟨hbelow, hsa'⟩ := pairwise_cons.mp hsa
    simp only [setUnion] at hunion ⊢
    induction bs with
    | nil => exact hsa
    | cons b bs ihb =>
      obtain ⟨hb, hbs'⟩ := forall_mem_cons.mp hbs
      obtain ⟨hbelow', hsb'⟩ := pairwise_cons.mp hsb
      rw [unionFrom]
      split_ifs with hab hba
      · refine pairwise_cons.mpr ⟨fun x hx => ?_, ih has' hbs hsa' hsb⟩
        rcases (mem_setUnion hS has' hbs).mp hx with hx | hx
        · exact hbelow x hx
        · exact lt_of_lt_head hS ha hbs hsb hab x hx
      · refine pairwise_cons.mpr ⟨fun x hx => ?_, ihb hbs' hsb'⟩
        rcases (hunion hbs').mp hx with hx | hx
        · exact lt_of_lt_head hS hb has hsa hba x hx
        · exact hbelow' x hx
      · obtain rfl := hS.eq_of_not_lt a ha b hb hab hba
        refine pairwise_cons.mpr ⟨fun x hx => ?_, ih has' hbs' hsa' hsb'⟩
        rcases (mem_setUnion hS has' hbs').mp hx with hx | hx
        · exact hbelow x hx
        · exact hbelow' x hx

omit hS

lemma sublist_setIntersection (lt : α → α → Bool) (as bs : List α) :
    (setIntersection lt as bs).Sublist as := by
  induction as generalizing bs with
  | nil => exact List.Sublist.refl []
  | cons a as ih =>
    rw [setIntersection]
    induction bs with
    | nil => exact nil_sublist _
    | cons b bs ihb =>
      rw [intersectionFrom]
      split_ifs
      · exact (ih (b :: bs)).cons a
      · exact ihb
      · exact (ih bs).cons_cons a

end Members

end P2.Lib
