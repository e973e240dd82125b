import P2.Lib.CommonPart
import P2.Pel.Safety
import Mathlib.Data.List.Dedup

/-!
# Common elements of two lists

`List::intersect` sorts both lists with `compareTo` and walks through them. `List::multiset_intersect`
counts the elements of one list by their texts and takes as many from the other.

* `IntersectsRight`: what is asked of both functions for two lists.
* `picks`: the elements with a text that `multiset_intersect` gives.
* `multisetIntersect_iff`: both functions are right for two lists exactly if the picks are; so they are
  where the texts tell elements of one list from those of the other as `compareTo` does.
-/

namespace P2.Pel

open P2.Value P2.Lib.Exec P2.Lib.CommonPart List

/-! ## Specification -/

def printed (host : Host) (h : Heap) (p : Ptr) : List UInt8 :=
  (toString host h host.room p).toOption.getD []

def orderOf (host : Host) (h : Heap) (p q : Ptr) : Ordering :=
  (compareTo h host.room p q).toOption.getD .eq

def countEqual (host : Host) (h : Heap) (v : Ptr) (l : List Ptr) : ℕ :=
  countLike (orderOf host h) v l

structure Comparable (host : Host) (h : Heap) (S : Ptr → Prop) : Prop where
  sound : ∀ p, S p → sound host h p
  order : Std.TransCmp fun a b : {p // S p} => orderOf host h a.1 b.1

/-- `multiset_intersect` gives each value as often as the list that has it less often and nothing
else, and `intersect` gives the same. -/
def IntersectsRight (env : Env) (h : Heap) (S : Ptr → Prop) (A B : List Ptr) : Prop :=
  ∃ R R', listMultisetIntersect env A B h = .ok R ∧ listIntersect env A B h = .ok R' ∧
    (∀ p ∈ R, p ∈ A ∨ p ∈ B) ∧
    ∀ v, S v → countEqual env.host h v R =
        min (countEqual env.host h v A) (countEqual env.host h v B) ∧
      countEqual env.host h v R = countEqual env.host h v R'

/-- The elements with a text. -/
def withText (host : Host) (h : Heap) (text : List UInt8) (l : List Ptr) : List Ptr :=
  l.filter fun p => printed host h p == text

/-- What `multiset_intersect` takes of the elements with a text: first the last one of the second list,
then those of the first one in order, as many in all as the list that has fewer. -/
def picks (host : Host) (h : Heap) (A B : List Ptr) (text : List UInt8) : List Ptr :=
  ((withText host h text B).getLast?.toList ++ withText host h text A).take
    (min (withText host h text A).length (withText host h text B).length)

/-- The picks for all texts. -/
def picked (host : Host) (h : Heap) (A B : List Ptr) : List Ptr :=
  (A.map (printed host h)).dedup.flatMap (picks host h A B)

/-- The texts tell elements of one list from those of the other as `compareTo` does. -/
def PrintsApart (host : Host) (h : Heap) (A B : List Ptr) : Prop :=
  ∀ p ∈ A, ∀ q ∈ B, (printed host h p = printed host h q ↔ orderOf host h p q = .eq)

section Lists

variable {env : Env} {host : Host} {h : Heap} {S : Ptr → Prop} {l l' : List Ptr} {p q : Ptr}

/-! ## `intersect` -/

lemma Comparable.compareTo_eq (hS : Comparable host h S) (hp : S p) (hq : S q) :
    compareTo h host.room p q = .ok (orderOf host h p q) := by
  obtain ⟨ord, hord⟩ :=
    compareTo_of_nested (whole_of_sound (hS.sound p hp)) (whole_of_sound (hS.sound q hq))
  unfold orderOf
  rw [hord]
  rfl

lemma Comparable.ltSet_eq (hS : Comparable host h S) (hp : S p) (hq : S q) :
    ltSet host h p q = .ok (orderOf host h p q == .lt) := by
  unfold ltSet
  rw [hS.compareTo_eq hp hq]
  rfl

lemma Comparable.insertByOrder_eq (hS : Comparable host h S) (hp : S p) (hl : ∀ q ∈ l, S q) :
    insertByOrder (ltSet host h) p l = .ok (insertInto (orderOf host h) p l) := by
  induction l with
  | nil => rfl
  | cons q qs ih =>
    obtain ⟨hq, hqs⟩ := forall_mem_cons.mp hl
    rw [insertByOrder, hS.ltSet_eq hp hq, insertInto]
    simp only [bind, Except.bind, beq_iff_eq]
    split_ifs
    · rfl
    · rw [ih hqs]

lemma Comparable.sortByOrder_eq (hS : Comparable host h S) (hl : ∀ p ∈ l, S p)
    (hl' : ∀ p ∈ l', S p) :
    sortByOrder (ltSet host h) l l' = .ok (sortInto (orderOf host h) l l') := by
  induction l' generalizing l with
  | nil => rfl
  | cons p ps ih =>
    obtain ⟨hp, hps⟩ := forall_mem_cons.mp hl'
    rw [sortByOrder, hS.insertByOrder_eq hp hl]
    refine ih (fun q hq => ?_) hps
    rcases mem_cons.mp ((perm_insertInto p l).mem_iff.mp hq) with rfl | hq
    · exact hp
    · exact hl q hq

lemma Comparable.intersectLoop_eq (hS : Comparable host h S) (hl : ∀ p ∈ l, S p)
    (hl' : ∀ p ∈ l', S p) :
    intersectLoop (fun p q => compareTo h host.room p q) l l' =
      .ok (common (orderOf host h) l l') := by
  fun_induction common (orderOf host h) l l' with
  | case1 l' => rw [intersectLoop]
  | case2 p ps => rw [intersectLoop]
  | case3 p ps q qs heq ih =>
    rw [intersectLoop, hS.compareTo_eq (hl p mem_cons_self) (hl' q mem_cons_self), heq]
    simp only [bind, Except.bind]
    rw [ih (forall_mem_cons.mp hl).2 (forall_mem_cons.mp hl').2]
  | case4 p ps q qs hlt ih =>
    rw [intersectLoop, hS.compareTo_eq (hl p mem_cons_self) (hl' q mem_cons_self), hlt]
    exact ih (forall_mem_cons.mp hl).2 hl'
  | case5 p ps q qs hgt ih =>
    rw [intersectLoop, hS.compareTo_eq (hl p mem_cons_self) (hl' q mem_cons_self), hgt]
    exact ih hl (forall_mem_cons.mp hl').2

lemma Comparable.countEqual_intersect (hS : Comparable env.host h S) (hl : ∀ p ∈ l, S p)
    (hl' : ∀ p ∈ l', S p) : ∃ R, listIntersect env l l' h = .ok R ∧ ∀ v, S v →
      countEqual env.host h v R = min (countEqual env.host h v l) (countEqual env.host h v l') := by
  have hsorted : ∀ m : List Ptr, (∀ p ∈ m, S p) →
      ∀ p ∈ sortInto (orderOf env.host h) [] m, S p :=
    fun m hm p hp => hm p ((perm_sortInto [] m).mem_iff.mp hp)
  refine ⟨_, ?_, fun v hv => countLike_common_sortInto hS.order hv hl hl'⟩
  unfold listIntersect
  rw [hS.sortByOrder_eq (forall_mem_nil _) hl, hS.sortByOrder_eq (forall_mem_nil _) hl']
  exact hS.intersectLoop_eq (hsorted l hl) (hsorted l' hl')

/-! ## `multiset_intersect` -/

lemma Comparable.withTexts_eq (hS : Comparable env.host h S) (hl : ∀ p ∈ l, S p) :
    withTexts env h l = .ok (l.map fun p => (printed env.host h p, p)) := by
  unfold withTexts
  induction l with
  | nil => rfl
  | cons p ps ih =>
    obtain ⟨hp, hps⟩ := forall_mem_cons.mp hl
    obtain ⟨text, htext⟩ := toString_of_nested (hS.sound p hp)
    have hprinted : printed env.host h p = text := by
      unfold printed
      rw [htext]
      rfl
    rw [mapM_cons, ih hps, htext, map_cons, hprinted]
    rfl

lemma lookup_cons_ite (text text' : List UInt8) (e : Ptr × ℕ)
    (counts : List (List UInt8 × Ptr × ℕ)) :
    ((text, e) :: counts).lookup text' = if text' = text then some e else counts.lookup text' := by
  rw [lookup_cons]
  split_ifs with heq
  · rw [heq, beq_self_eq_true]
  · rw [beq_eq_false_iff_ne.mpr heq]

@[simp] lemma withText_cons_self (p : Ptr) (l : List Ptr) :
    withText host h (printed host h p) (p :: l) = p :: withText host h (printed host h p) l :=
  filter_cons_of_pos (beq_self_eq_true _)

@[simp] lemma withText_cons_ne {text : List UInt8} (hne : text ≠ printed host h p) (l : List Ptr) :
    withText host h text (p :: l) = withText host h text l :=
  filter_cons_of_neg (by simpa using hne.symm)

/-- The map after the counting loop: the last value with a text, and how many there are. -/
lemma lookup_countText (counts : List (List UInt8 × Ptr × ℕ)) (l : List Ptr) (text : List UInt8) :
    ((l.map fun p => (printed host h p, p)).foldl (fun counts e => countText counts e.1 e.2)
      counts).lookup text =
    match (withText host h text l).getLast? with
    | none => counts.lookup text
    | some q => some (q, ((counts.lookup text).map Prod.snd).getD 0 +
        (withText host h text l).length) := by
  induction l generalizing counts with
  | nil => rfl
  | cons p ps ih =>
    have hstep : countText counts (printed host h p) p =
        (printed host h p, p, ((counts.lookup (printed host h p)).map Prod.snd).getD 0 + 1) ::
          counts := by
      unfold countText
      cases counts.lookup (printed host h p) <;> rfl
    rw [map_cons, foldl_cons, hstep, ih, lookup_cons_ite]
    by_cases heq : text = printed host h p
    · subst heq
      rw [withText_cons_self, getLast?_cons, if_pos rfl, length_cons]
      rcases hlast : (withText host h (printed host h p) ps).getLast? with _ | q
      · rw [getLast?_eq_none_iff.mp hlast]
        rfl
      · simp only [Option.map_some, Option.getD_some, Nat.add_assoc, Nat.add_comm 1]
    · rw [withText_cons_ne heq, if_neg heq]

/-- The second loop, from a map whose values have the texts they are filed under. -/
lemma withText_takeCounted {counts : List (List UInt8 × Ptr × ℕ)}
    (hfiled : ∀ text q n, counts.lookup text = some (q, n) → printed host h q = text)
    (l : List Ptr) (text : List UInt8) :
    withText host h text (takeCounted counts (l.map fun p => (printed host h p, p))) =
    match counts.lookup text with
    | none => []
    | some (q, n) => (q :: withText host h text l).take (min (withText host h text l).length n) := by
  induction l generalizing counts with
  | nil => cases counts.lookup text <;> simp [takeCounted, withText]
  | cons p ps ih =>
    rw [map_cons, takeCounted]
    rcases hlookup : counts.lookup (printed host h p) with _ | ⟨q, _ | n⟩
    · rw [ih hfiled]
      by_cases heq : text = printed host h p
      · rw [heq, hlookup]
      · rw [withText_cons_ne heq]
    · rw [ih hfiled]
      by_cases heq : text = printed host h p
      · simp only [heq, hlookup, Nat.min_zero, take_zero]
      · rw [withText_cons_ne heq]
    · have hq := hfiled _ _ _ hlookup
      have hfiled' : ∀ text' q' n', ((printed host h p, p, n) :: counts).lookup text' = some (q', n') →
          printed host h q' = text' := by
        intro text' q' n' hlookup'
        rw [lookup_cons_ite] at hlookup'
        split_ifs at hlookup' with heq
        · cases hlookup'
          exact heq.symm
        · exact hfiled _ _ _ hlookup'
      by_cases heq : text = printed host h p
      · -- one less of this text is left in the map, one less in the list
        subst heq
        rw [← hq, withText_cons_self, hq, ih hfiled', lookup_cons_ite, if_pos rfl, hlookup,
          withText_cons_self]
        simp only [length_cons, Nat.add_min_add_right, take_succ_cons]
      · rw [withText_cons_ne (hq ▸ heq), ih hfiled', lookup_cons_ite, if_neg heq,
          withText_cons_ne heq]

lemma Comparable.withText_multisetIntersect (hS : Comparable env.host h S) (hl : ∀ p ∈ l, S p)
    (hl' : ∀ p ∈ l', S p) : ∃ R, listMultisetIntersect env l l' h = .ok R ∧
      ∀ text, withText env.host h text R = picks env.host h l l' text := by
  refine ⟨takeCounted ((l'.map fun p => (printed env.host h p, p)).foldl
    (fun counts e => countText counts e.1 e.2) []) (l.map fun p => (printed env.host h p, p)), ?_,
    fun text => ?_⟩
  · unfold listMultisetIntersect
    rw [hS.withTexts_eq hl, hS.withTexts_eq hl']
    rfl
  · have hfiled : ∀ text q n, (((l'.map fun p => (printed env.host h p, p)).foldl
        (fun counts e => countText counts e.1 e.2) []).lookup text) = some (q, n) →
        printed env.host h q = text := by
      intro text q n hlookup
      rw [lookup_countText] at hlookup
      rcases hlast : (withText env.host h text l').getLast? with _ | q'
      · rw [hlast] at hlookup
        cases hlookup
      · rw [hlast] at hlookup
        cases hlookup
        exact beq_iff_eq.mp (mem_filter.mp (mem_of_getLast? hlast)).2
    rw [withText_takeCounted hfiled, lookup_countText, picks]
    rcases hlast : (withText env.host h text l').getLast? with _ | q
    · rw [getLast?_eq_none_iff.mp hlast]
      simp
    · simp

/-! ## Both -/

lemma mem_picks {text : List UInt8} (hp : p ∈ picks host h l l' text) : p ∈ l ∨ p ∈ l' := by
  rcases mem_append.mp (mem_of_mem_take hp) with hp | hp
  · exact Or.inr (mem_of_mem_filter (mem_of_getLast? (Option.mem_toList.mp hp)))
  · exact Or.inl (mem_of_mem_filter hp)

lemma length_picks (text : List UInt8) : (picks host h l l' text).length =
    min (withText host h text l).length (withText host h text l').length := by
  unfold picks
  rw [length_take, length_append]
  rcases hlast : (withText host h text l').getLast? with _ | q
  · rw [getLast?_eq_none_iff.mp hlast]
    simp
  · simp

/-- An element of the result is a pick for its text. -/
lemma mem_picks_of_mem {R : List Ptr} (hR : ∀ text, withText host h text R = picks host h l l' text)
    (hp : p ∈ R) : p ∈ picks host h l l' (printed host h p) := by
  rw [← hR]
  exact mem_filter.mpr ⟨hp, beq_self_eq_true _⟩

/-- An element of the result has the text of an element of each list. -/
lemma exists_printed_eq {R : List Ptr}
    (hR : ∀ text, withText host h text R = picks host h l l' text) (hp : p ∈ R) :
    (∃ x ∈ l, printed host h x = printed host h p) ∧
      ∃ y ∈ l', printed host h y = printed host h p := by
  have hpos := length_pos_of_mem (mem_picks_of_mem hR hp)
  rw [length_picks, Nat.lt_min] at hpos
  obtain ⟨x, hx⟩ := exists_mem_of_length_pos hpos.1
  obtain ⟨y, hy⟩ := exists_mem_of_length_pos hpos.2
  obtain ⟨hx, hxp⟩ := mem_filter.mp hx
  obtain ⟨hy, hyp⟩ := mem_filter.mp hy
  exact ⟨⟨x, hx, beq_iff_eq.mp hxp⟩, y, hy, beq_iff_eq.mp hyp⟩

/-- A list, sorted by texts. -/
lemma perm_flatMap_withText {texts : List (List UInt8)} (hnodup : texts.Nodup)
    (hl : ∀ p ∈ l, printed host h p ∈ texts) :
    l.Perm (texts.flatMap fun text => withText host h text l) := by
  induction texts generalizing l with
  | nil =>
    rw [eq_nil_iff_forall_not_mem.mpr fun p hp => not_mem_nil (hl p hp)]
    exact .refl _
  | cons text texts ih =>
    obtain ⟨hnot, hnodup⟩ := nodup_cons.mp hnodup
    have hsplit := (filter_append_perm (fun p => printed host h p == text) l).symm
    refine hsplit.trans (Perm.append_left _ ((ih hnodup fun p hp => ?_).trans (.of_eq ?_)))
    · obtain ⟨hp, hne⟩ := mem_filter.mp hp
      exact (mem_cons.mp (hl p hp)).resolve_left fun heq => by simp [heq] at hne
    · refine flatMap_congr fun text' htext' => ?_
      unfold withText
      rw [filter_filter]
      refine filter_congr fun p _ => ?_
      have hne : text' ≠ text := fun heq => hnot (heq ▸ htext')
      by_cases hp : printed host h p = text'
      · simp [hp, hne]
      · simp [hp]

/-- What `multiset_intersect` gives are the picks, in some order. -/
lemma perm_picked {R : List Ptr}
    (hR : ∀ text, withText host h text R = picks host h l l' text) : R.Perm (picked host h l l') := by
  refine (perm_flatMap_withText (nodup_dedup (l.map (printed host h))) fun p hp => ?_).trans
    (.of_eq (flatMap_congr fun text _ => hR text))
  obtain ⟨⟨x, hx, htext⟩, -⟩ := exists_printed_eq hR hp
  exact mem_dedup.mpr (mem_map.mpr ⟨x, hx, htext⟩)

lemma Comparable.orderOf_swap (hS : Comparable host h S) (hp : S p) (hq : S q) :
    orderOf host h q p = (orderOf host h p q).swap :=
  hS.order.toOrientedCmp.eq_swap (a := ⟨q, hq⟩) (b := ⟨p, hp⟩)

lemma Comparable.symm (hS : Comparable host h S) (hp : S p) (hq : S q)
    (heq : orderOf host h p q = .eq) : orderOf host h q p = .eq := by
  rw [hS.orderOf_swap hp hq, heq]
  rfl

lemma Comparable.trans (hS : Comparable host h S) {v : Ptr} (hp : S p) (hq : S q) (hv : S v)
    (hpq : orderOf host h p q = .eq) (hqv : orderOf host h q v = .eq) : orderOf host h p v = .eq :=
  hS.order.eq_trans (a := ⟨p, hp⟩) (b := ⟨q, hq⟩) (c := ⟨v, hv⟩) hpq hqv

/-- Where the texts tell the elements of the lists apart as `compareTo` does, what `multiset_intersect`
gives has each value as often as the list that has it less often. -/
lemma countEqual_eq_zero {v : Ptr} :
    countEqual host h v l = 0 ↔ ∀ x ∈ l, orderOf host h x v ≠ .eq := by
  simp only [countEqual, countLike, countP_eq_zero, beq_iff_eq, ne_eq]

lemma countEqual_eq_length {v : Ptr} {text : List UInt8}
    (hl : ∀ x ∈ l, (orderOf host h x v = .eq ↔ printed host h x = text)) :
    countEqual host h v l = (withText host h text l).length := by
  rw [withText, ← countP_eq_length_filter]
  refine countP_congr fun x hx => ?_
  rw [beq_iff_eq, beq_iff_eq, hl x hx]

lemma Comparable.countEqual_of_printsApart (hS : Comparable host h S) {R : List Ptr}
    (hl : ∀ p ∈ l, S p) (hl' : ∀ p ∈ l', S p) (hapart : PrintsApart host h l l')
    (hR : ∀ text, withText host h text R = picks host h l l' text) {v : Ptr} (hv : S v) :
    countEqual host h v R = min (countEqual host h v l) (countEqual host h v l') := by
  have hmem : ∀ x ∈ R, x ∈ l ∨ x ∈ l' := fun x hx => mem_picks (mem_picks_of_mem hR hx)
  by_cases hlike : (∃ p ∈ l, orderOf host h p v = .eq) ∧ ∃ q ∈ l', orderOf host h q v = .eq
  · -- both lists have the value, under one text
    obtain ⟨⟨p, hp, hpv⟩, q, hq, hqv⟩ := hlike
    have hpq := hS.trans (hl p hp) hv (hl' q hq) hpv (hS.symm (hl' q hq) hv hqv)
    have htext := (hapart p hp q hq).mpr hpq
    have hfirst : ∀ x ∈ l, (orderOf host h x v = .eq ↔ printed host h x = printed host h q) := by
      intro x hx
      rw [hapart x hx q hq]
      exact ⟨fun hxv => hS.trans (hl x hx) hv (hl' q hq) hxv (hS.symm (hl' q hq) hv hqv),
        fun hxq => hS.trans (hl x hx) (hl' q hq) hv hxq hqv⟩
    have hsecond : ∀ x ∈ l', (orderOf host h x v = .eq ↔ printed host h x = printed host h q) := by
      intro x hx
      rw [← htext, eq_comm (a := printed host h x), hapart p hp x hx]
      exact ⟨fun hxv => hS.trans (hl p hp) hv (hl' x hx) hpv (hS.symm (hl' x hx) hv hxv),
        fun hpx => hS.trans (hl' x hx) (hl p hp) hv (hS.symm (hl p hp) (hl' x hx) hpx) hpv⟩
    rw [countEqual_eq_length hfirst, countEqual_eq_length hsecond,
      countEqual_eq_length fun x hx => (hmem x hx).elim (hfirst x) (hsecond x), hR, length_picks]
  · -- one list does not have the value, and so the result does not
    have hzero : countEqual host h v R = 0 := by
      refine countEqual_eq_zero.mpr fun x hx hxv => hlike ?_
      obtain ⟨⟨p, hp, hpx⟩, q, hq, hqx⟩ := exists_printed_eq hR hx
      have hpq := (hapart p hp q hq).mp (hpx.trans hqx.symm)
      have hqp := hS.symm (hl p hp) (hl' q hq) hpq
      rcases hmem x hx with hx | hx
      · have hqv := hS.trans (hl' q hq) (hl x hx) hv
          (hS.symm (hl x hx) (hl' q hq) ((hapart x hx q hq).mp hqx.symm)) hxv
        exact ⟨⟨p, hp, hS.trans (hl p hp) (hl' q hq) hv hpq hqv⟩, q, hq, hqv⟩
      · have hpv := hS.trans (hl p hp) (hl' x hx) hv ((hapart p hp x hx).mp hpx) hxv
        exact ⟨⟨p, hp, hpv⟩, q, hq, hS.trans (hl' q hq) (hl p hp) hv hqp hpv⟩
    rw [hzero]
    rcases not_and_or.mp hlike with hnone | hnone
    · rw [countEqual_eq_zero.mpr fun x hx hxv => hnone ⟨x, hx, hxv⟩, Nat.zero_min]
    · rw [countEqual_eq_zero.mpr fun x hx hxv => hnone ⟨x, hx, hxv⟩, Nat.min_zero]

end Lists

/-- **When the common elements of two lists are right.** Both functions are right for two lists of
values that `compareTo` orders exactly if the picks have each value as often as the list that has it
less often; and they are, if the texts tell the elements of one list from those of the other as
`compareTo` does.
Hyps: `hS` — values with texts, on which `compareTo` is an order -/
theorem multisetIntersect_iff (env : Env) (h : Heap) (S : Ptr → Prop)
    (hS : Comparable env.host h S) (A B : List Ptr) (hA : ∀ p ∈ A, S p) (hB : ∀ p ∈ B, S p) :
    (IntersectsRight env h S A B ↔ ∀ v, S v → countEqual env.host h v (picked env.host h A B) =
      min (countEqual env.host h v A) (countEqual env.host h v B)) ∧
    (PrintsApart env.host h A B → IntersectsRight env h S A B) := by
  obtain ⟨R, hR, htexts⟩ := hS.withText_multisetIntersect hA hB
  obtain ⟨R', hR', hcount'⟩ := hS.countEqual_intersect hA hB
  have hmem : ∀ p ∈ R, p ∈ A ∨ p ∈ B := fun p hp => mem_picks (mem_picks_of_mem htexts hp)
  have hright : IntersectsRight env h S A B ↔ ∀ v, S v → countEqual env.host h v R =
      min (countEqual env.host h v A) (countEqual env.host h v B) := by
    constructor
    · rintro ⟨R₁, R₁', hR₁, -, -, hequal⟩ v hv
      obtain rfl := Except.ok.inj (hR.symm.trans hR₁)
      exact (hequal v hv).1
    · exact fun hmin => ⟨R, R', hR, hR', hmem,
        fun v hv => ⟨hmin v hv, (hmin v hv).trans (hcount' v hv).symm⟩⟩
  refine ⟨hright.trans (forall₂_congr fun v _ => ?_), fun hapart => hright.mpr fun v hv =>
    hS.countEqual_of_printsApart hA hB hapart htexts hv⟩
  rw [countEqual, countLike, (perm_picked htexts).countP_eq]
  rfl

def emptyHeap : Heap := ⟨[], [], [], [], []⟩

def Sample (p : Ptr) : Prop := p = some (.int64 1) ∨ p = some (.str [49]) ∨ p = some (.int64 5)

lemma comparable_sample : Comparable sampleHost emptyHeap Sample := by
  refine ⟨?_, { eq_swap := ?_, isLE_trans := ?_ }⟩
  · rintro p (rfl | rfl | rfl) <;> rfl
  · rintro ⟨p, rfl | rfl | rfl⟩ ⟨q, rfl | rfl | rfl⟩ <;> rfl
  · rintro ⟨p, rfl | rfl | rfl⟩ ⟨q, rfl | rfl | rfl⟩ ⟨r, rfl | rfl | rfl⟩ <;> decide

/-- Two values with one text in the first list do no harm if the second list has no such text. -/
theorem multisetIntersect_apart :
    IntersectsRight ⟨sampleHost, 0, 0⟩ emptyHeap Sample [some (.int64 1), some (.str [49])]
      [some (.int64 5)] := by
  refine (multisetIntersect_iff ⟨sampleHost, 0, 0⟩ emptyHeap Sample comparable_sample _ _ ?_ ?_).2 ?_
  · exact forall_mem_cons.mpr ⟨Or.inl rfl, forall_mem_singleton.mpr (Or.inr (Or.inl rfl))⟩
  · exact forall_mem_singleton.mpr (Or.inr (Or.inr rfl))
  · refine forall_mem_cons.mpr ⟨forall_mem_singleton.mpr ?_, forall_mem_singleton.mpr
      (forall_mem_singleton.mpr ?_)⟩ <;> decide

/-- **The number 1 and the string `1`.** `multiset_intersect` finds the string in both lists,
`intersect` finds nothing. -/
theorem multisetIntersect_wrong :
    sound sampleHost emptyHeap (some (.int64 1)) ∧
      sound sampleHost emptyHeap (some (.str [49])) ∧
      listMultisetIntersect ⟨sampleHost, 0, 0⟩ [some (.int64 1)] [some (.str [49])]
        emptyHeap = .ok [some (.str [49])] ∧
      listIntersect ⟨sampleHost, 0, 0⟩ [some (.int64 1)] [some (.str [49])]
        emptyHeap = .ok [] ∧
      ¬ IntersectsRight ⟨sampleHost, 0, 0⟩ emptyHeap
        (fun p => p = some (.int64 1) ∨ p = some (.str [49])) [some (.int64 1)]
        [some (.str [49])] := by
  have hmultiset : listMultisetIntersect ⟨sampleHost, 0, 0⟩ [some (.int64 1)] [some (.str [49])]
      emptyHeap = .ok [some (.str [49])] := rfl
  have hlist : listIntersect ⟨sampleHost, 0, 0⟩ [some (.int64 1)] [some (.str [49])] emptyHeap =
      .ok [] := by
    show intersectLoop _ [some (.int64 1)] [some (.str [49])] = _
    rw [intersectLoop]
    show intersectLoop _ [some (.int64 1)] [] = _
    rw [intersectLoop]
  refine ⟨rfl, rfl, hmultiset, hlist, ?_⟩
  rintro ⟨R, R', hR, -, -, hequal⟩
  obtain rfl := Except.ok.inj (hmultiset.symm.trans hR)
  exact absurd (hequal _ (.inr rfl)).1 (by decide)

end P2.Pel
