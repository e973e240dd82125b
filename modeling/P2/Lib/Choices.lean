import Mathlib.Data.List.Perm.Basic
import Mathlib.Data.List.Sections

/-!
# Counting choices

One element is chosen from each list of a list. The `number` of choices with a property grows by the
choices that take a new element. They can be counted one label at a time if no choice with the
property takes two new elements, whether or not the other lists have the new element already.
-/

namespace P2.Lib

open List

variable {α γ : Type*}

def number (p : List γ → Bool) (L : List (List γ)) : ℕ := L.sections.countP p

def Unordered (p : List γ → Bool) : Prop := ∀ c c', c.Perm c' → p c = p c'

section Number

variable {p : List γ → Bool} {L L' : List (List γ)} {b : γ} {bs : List γ}

lemma Unordered.cons (hp : Unordered p) (b : γ) : Unordered fun c => p (b :: c) :=
  fun _ _ hperm => hp _ _ (hperm.cons b)

lemma number_pos_iff : 0 < number p L ↔ ∃ c ∈ L.sections, p c = true := countP_pos_iff

lemma number_nil_cons : number p ([] :: L) = 0 := by
  unfold number
  rw [countP_eq_zero]
  intro c hc
  rw [mem_sections] at hc
  rcases hc with _ | ⟨hb, -⟩
  cases hb

lemma number_cons_cons :
    number p ((b :: bs) :: L) = number (fun c => p (b :: c)) L + number p (bs :: L) := by
  unfold number
  simp only [sections, map_cons]
  induction L.sections with
  | nil => rfl
  | cons s l ih =>
    simp only [flatMap_cons, countP_append, countP_cons, ih]
    omega

lemma number_singleton_cons : number p ([b] :: L) = number (fun c => p (b :: c)) L := by
  rw [number_cons_cons, number_nil_cons, Nat.add_zero]

lemma number_cons_congr
    (h : ∀ b ∈ bs, number (fun c => p (b :: c)) L = number (fun c => p (b :: c)) L') :
    number p (bs :: L) = number p (bs :: L') := by
  induction bs with
  | nil => rw [number_nil_cons, number_nil_cons]
  | cons b bs ih =>
    rw [number_cons_cons, number_cons_cons, h b mem_cons_self,
      ih fun b hb => h b (mem_cons_of_mem _ hb)]

lemma number_congr (h : Forall₂ Perm L L') : number p L = number p L' := by
  induction h generalizing p with
  | nil => rfl
  | @cons bs bs' L L' hperm _ ih =>
    rw [number_cons_congr fun b _ => ih]
    induction hperm with
    | nil => rfl
    | cons b _ ih => rw [number_cons_cons, number_cons_cons, ih]
    | swap b b' bs =>
      rw [number_cons_cons, number_cons_cons, number_cons_cons, number_cons_cons]
      omega
    | trans _ _ ih ih' => exact ih.trans ih'

end Number

/-! ## A new element -/

def turns : List α → List (α × List α)
  | [] => []
  | a :: as => (a, as) :: (turns as).map fun x => (x.1, a :: x.2)

lemma turns_perm {as : List α} {x : α × List α} (h : x ∈ turns as) : (x.1 :: x.2).Perm as := by
  induction as generalizing x with
  | nil => cases h
  | cons a as ih =>
    rcases mem_cons.mp h with rfl | h
    · exact Perm.refl _
    · obtain ⟨y, hy, rfl⟩ := mem_map.mp h
      exact (Perm.swap ..).trans ((ih hy).cons a)

/-- The number of choices that take the new element, one label at a time. -/
def gained (p : List γ → Bool) (new : α → γ) : List (α × List (List γ)) → ℕ
  | [] => 0
  | (a, L) :: l => number p ([new a] :: L) + gained p new l

/-- The elements of a label, with the new one if the label is marked. -/
def grown (mark : α → Bool) (new : α → γ) (D : α → List γ) (a : α) : List γ :=
  if mark a then new a :: D a else D a

section Grow

variable {p : List γ → Bool} {mark : α → Bool} {new : α → γ} {D H : α → List γ} {N : γ → Prop}
  {as : List α} {bs : List γ}

lemma gained_nil (l : List (α × List (List γ))) :
    gained p new (l.map fun x => (x.1, [] :: x.2)) = 0 := by
  induction l with
  | nil => rfl
  | cons x l ih =>
    simp only [map_cons, gained, ih, Nat.add_zero]
    rw [number_singleton_cons, number_nil_cons]

lemma gained_cons (hp : Unordered p) (b : γ) (l : List (α × List (List γ))) :
    gained p new (l.map fun x => (x.1, (b :: bs) :: x.2)) =
      gained (fun c => p (b :: c)) new l + gained p new (l.map fun x => (x.1, bs :: x.2)) := by
  induction l with
  | nil => rfl
  | cons x l ih =>
    have hswap : (fun c => p (new x.1 :: b :: c)) = fun c => p (b :: new x.1 :: c) :=
      funext fun c => hp _ _ (Perm.swap ..)
    simp only [map_cons, gained, ih]
    rw [number_singleton_cons, number_cons_cons, number_singleton_cons, number_singleton_cons, hswap]
    omega

lemma gained_congr (p : List γ → Bool) (new : α → γ) {l : List (α × List α)} {E : α → List γ}
    (h : ∀ x ∈ l, ∀ a ∈ x.2, (D a).Perm (E a)) :
    gained p new (l.map fun x => (x.1, x.2.map D)) =
      gained p new (l.map fun x => (x.1, x.2.map E)) := by
  induction l with
  | nil => rfl
  | cons x l ih =>
    have hx : number p ([new x.1] :: x.2.map D) = number p ([new x.1] :: x.2.map E) := by
      refine number_congr (Forall₂.cons (Perm.refl _) ?_)
      rw [forall₂_map_left_iff, forall₂_map_right_iff, forall₂_same]
      exact h x mem_cons_self
    simp [gained, hx, ih fun y hy => h y (mem_cons_of_mem _ hy)]

lemma cons_mem_sections {b : γ} {c : List γ} {L : List (List γ)} (hb : b ∈ bs)
    (hc : c ∈ L.sections) : b :: c ∈ (bs :: L).sections := by
  rw [mem_sections] at hc ⊢
  exact Forall₂.cons hb hc

/-- No choice with the property takes two new elements. -/
def Once (p : List γ → Bool) (N : γ → Prop) (L : List (List γ)) : Prop :=
  ∀ c ∈ L.sections, p c = true → c.Pairwise fun x y => ¬ (N x ∧ N y)

lemma number_eq_of_not_taken (hN : ∀ a, mark a = true → N (new a))
    (hH : ∀ a, H a = D a ∨ H a = grown mark new D a)
    (h : ∀ c ∈ (as.map H).sections, p c = true → ∀ y ∈ c, ¬ N y) :
    number p (as.map H) = number p (as.map D) := by
  induction as generalizing p with
  | nil => rfl
  | cons a as ih =>
    have hcons : ∀ b ∈ H a, ∀ c ∈ (as.map H).sections, p (b :: c) = true →
        ∀ y ∈ b :: c, ¬ N y :=
      fun b hb c hc => h (b :: c) (cons_mem_sections hb hc)
    have htail : number p (H a :: as.map H) = number p (H a :: as.map D) :=
      number_cons_congr fun b hb => ih fun c hc hpc y hy =>
        hcons b hb c hc hpc y (mem_cons_of_mem _ hy)
    simp only [map_cons]
    rw [htail]
    rcases hH a with heq | heq
    · rw [heq]
    · by_cases hmark : mark a
      · -- the new element of this label is in no choice with the property
        have hgrown : H a = new a :: D a := heq.trans (if_pos hmark)
        have hnew := hcons (new a) (hgrown ▸ mem_cons_self)
        have hzero : number (fun c => p (new a :: c)) (as.map H) = 0 := by
          unfold number
          rw [countP_eq_zero]
          exact fun c hc hpc => hnew c hc hpc (new a) mem_cons_self (hN a hmark)
        have hnone := ih fun c hc hpc y hy => hnew c hc hpc y (mem_cons_of_mem _ hy)
        rw [hgrown, number_cons_cons, ← hnone, hzero, Nat.zero_add]
      · rw [heq, grown, if_neg hmark]

/-- **What a new element adds.** The choices that take it are counted one label at a time; the other
labels may have it or not. -/
lemma number_grow (hp : Unordered p) (hN : ∀ a, mark a = true → N (new a))
    (hH : ∀ a, H a = D a ∨ H a = grown mark new D a)
    (honce : Once p N (as.map (grown mark new D))) :
    number p (as.map (grown mark new D)) = number p (as.map D) +
      gained p new (((turns as).filter fun x => mark x.1).map fun x => (x.1, x.2.map H)) := by
  induction as generalizing p with
  | nil => rfl
  | cons a as ih =>
    generalize hl : ((turns as).filter fun x => mark x.1).map (fun x => (x.1, x.2.map H)) = l at ih
    have hturns : (((turns (a :: as)).filter fun x => mark x.1).map fun x => (x.1, x.2.map H)) =
        (if mark a then [(a, as.map H)] else []) ++ l.map fun x => (x.1, H a :: x.2) := by
      rw [← hl]
      by_cases hmark : mark a
      · simp [turns, hmark, filter_map, Function.comp_def]
      · simp [turns, hmark, filter_map, Function.comp_def]
    have hmem : ∀ b ∈ grown mark new D a, ∀ c ∈ (as.map (grown mark new D)).sections,
        p (b :: c) = true → (b :: c).Pairwise fun x y => ¬ (N x ∧ N y) :=
      fun b hb c hc => honce (b :: c) (cons_mem_sections hb hc)
    have hstep : ∀ b ∈ grown mark new D a, number (fun c => p (b :: c)) (as.map (grown mark new D)) =
        number (fun c => p (b :: c)) (as.map D) + gained (fun c => p (b :: c)) new l :=
      fun b hb => ih (hp.cons b) fun c hc hpc => (pairwise_cons.mp (hmem b hb c hc hpc)).2
    -- the choices that take an old element for this label
    have hold : ∀ bs, (∀ b ∈ bs, b ∈ grown mark new D a) →
        number p (bs :: as.map (grown mark new D)) = number p (bs :: as.map D) +
          gained p new (l.map fun x => (x.1, bs :: x.2)) := by
      intro bs hbs
      induction bs with
      | nil => rw [number_nil_cons, number_nil_cons, gained_nil]
      | cons b bs ihbs =>
        rw [number_cons_cons, number_cons_cons, gained_cons hp, hstep b (hbs b mem_cons_self),
          ihbs fun b hb => hbs b (mem_cons_of_mem _ hb)]
        omega
    rw [hturns]
    simp only [map_cons]
    by_cases hmark : mark a
    · have hgrown : grown mark new D a = new a :: D a := if_pos hmark
      rw [hgrown] at hmem hstep hold
      -- those that take the new one take no other new element
      have hnone : ∀ H' : α → List γ, (∀ a, H' a = D a ∨ H' a = grown mark new D a) →
          number (fun c => p (new a :: c)) (as.map H') =
            number (fun c => p (new a :: c)) (as.map D) := by
        intro H' hH'
        refine number_eq_of_not_taken hN hH' fun c hc hpc y hy hNy => ?_
        have hc' : c ∈ (as.map (grown mark new D)).sections := by
          rw [mem_sections, forall₂_map_right_iff] at hc ⊢
          refine hc.imp fun x a' hx => ?_
          rcases hH' a' with heq | heq
          · rw [heq] at hx
            unfold grown
            split_ifs
            · exact mem_cons_of_mem _ hx
            · exact hx
          · rwa [heq] at hx
        have hpair := hmem (new a) mem_cons_self c hc' hpc
        exact (pairwise_cons.mp hpair).1 y hy ⟨hN a hmark, hNy⟩
      have hzero : gained (fun c => p (new a :: c)) new l = 0 := by
        have hnew := hstep (new a) mem_cons_self
        rw [hnone _ fun _ => Or.inr rfl] at hnew
        omega
      have hH' : gained p new (l.map fun x => (x.1, H a :: x.2)) =
          gained p new (l.map fun x => (x.1, D a :: x.2)) := by
        rcases hH a with heq | heq
        · rw [heq]
        · rw [heq, hgrown, gained_cons hp, hzero, Nat.zero_add]
      have hfirst := hold (D a) fun b hb => mem_cons_of_mem _ hb
      rw [if_pos hmark, hgrown, number_cons_cons, hfirst, hnone _ fun _ => Or.inr rfl]
      simp only [cons_append, nil_append, gained]
      rw [hH', number_singleton_cons, hnone H hH]
      omega
    · have hgrown : grown mark new D a = D a := if_neg hmark
      have hHa : H a = D a := by
        rcases hH a with heq | heq
        · exact heq
        · exact heq.trans hgrown
      rw [if_neg hmark, hHa, hgrown]
      exact hold (D a) fun b hb => hgrown ▸ hb

end Grow

end P2.Lib
