import Mathlib.Data.List.Sort
import Mathlib.Tactic.Common

/-!
# Search trees

The ordered containers of the C++ standard library (`std::set`, `std::multiset`, `std::map`) as
binary search trees over a comparator, with the operations programs use on them: the two bounds,
find, the two insertions, erasing at an iterator. An iterator is the position of an element in
iteration order.

Every operation descends the tree as the library does, so it has a meaning for any comparator.
Trees are not rebalanced: the shape is observable only through a comparator that is not a strict
weak order, and a tree of at most two elements has the shape it has in the library.
-/

namespace P2.Lib

open List

/-- A comparator that is a strict weak order on a set of elements: asymmetric, and not being less
is transitive. -/
structure StrictWeak {α : Type} (lt : α → α → Bool) (S : Set α) : Prop where
  /-- Two elements are not less than each other. -/
  asymm : ∀ a ∈ S, ∀ b ∈ S, lt a b → ¬ lt b a
  /-- Not less, twice, is not less. -/
  not_lt_trans : ∀ a ∈ S, ∀ b ∈ S, ∀ c ∈ S, ¬ lt a b → ¬ lt b c → ¬ lt a c

namespace StrictWeak

variable {α : Type} {lt : α → α → Bool} {S : Set α}

lemma irrefl (h : StrictWeak lt S) {a : α} (ha : a ∈ S) : ¬ lt a a :=
  fun haa => h.asymm a ha a ha haa haa

lemma trans (h : StrictWeak lt S) {a b c : α} (ha : a ∈ S) (hb : b ∈ S) (hc : c ∈ S)
    (hab : lt a b) (hbc : lt b c) : lt a c := by
  by_contra hac
  exact h.not_lt_trans a ha c hc b hb hac (h.asymm b hb c hc hbc) hab

lemma comap {β : Type} (h : StrictWeak lt S) (f : β → α) :
    StrictWeak (fun a b => lt (f a) (f b)) {b | f b ∈ S} where
  asymm a ha b hb := h.asymm (f a) ha (f b) hb
  not_lt_trans a ha b hb c hc := h.not_lt_trans (f a) ha (f b) hb (f c) hc

lemma isStrictWeakOrder {ι : Type} (h : StrictWeak lt S) {f : ι → α} (hf : ∀ i, f i ∈ S) :
    IsStrictWeakOrder ι fun i j => lt (f i) (f j) where
  irrefl i := h.irrefl (hf i)
  trans i j k := h.trans (hf i) (hf j) (hf k)
  incomp_trans i j k hij hjk :=
    ⟨h.not_lt_trans (f i) (hf i) (f j) (hf j) (f k) (hf k) hij.1 hjk.1,
      h.not_lt_trans (f k) (hf k) (f j) (hf j) (f i) (hf i) hjk.2 hij.2⟩

end StrictWeak

/-- A list is sorted when no element is less than an earlier one. -/
def Sorted {α : Type} (lt : α → α → Bool) (l : List α) : Prop := l.Pairwise fun a b => ¬ lt b a

/-- A binary tree with elements at its nodes. -/
inductive SearchTree (α : Type) where
  | nil
  | node (left : SearchTree α) (value : α) (right : SearchTree α)

namespace SearchTree

variable {α : Type}

/-! ## Operations -/

def toList : SearchTree α → List α
  | nil => []
  | node l a r => l.toList ++ a :: r.toList

def size : SearchTree α → ℕ
  | nil => 0
  | node l _ r => l.size + (r.size + 1)

/-- `lower_bound(k)`: the descent to the first element that is not less than the key; `below a`
says that `a` is less than the key. -/
def lowerBound (below : α → Bool) : SearchTree α → ℕ
  | nil => 0
  | node l a r => if below a then l.size + 1 + r.lowerBound below else l.lowerBound below

/-- `upper_bound(k)`: the descent to the first element that the key is less than; `above a` says
that the key is less than `a`. -/
def upperBound (above : α → Bool) : SearchTree α → ℕ
  | nil => 0
  | node l a r => if above a then l.upperBound above else l.size + 1 + r.upperBound above

/-- What a loop from the iterator `i` visits that runs until it meets the iterator `j` or the
end. -/
def range (i j : ℕ) (t : SearchTree α) : List α :=
  if i ≤ j then (t.toList.drop i).take (j - i) else t.toList.drop i

/-- `find(k)`: the element at the lower bound, unless the key is less than it. -/
def find (below above : α → Bool) (t : SearchTree α) : Option α :=
  match t.toList[t.lowerBound below]? with
  | some a => if above a then none else some a
  | none => none

/-- `std::multiset::insert`: a new leaf, to the left of the elements that are greater. -/
def insertEqual (lt : α → α → Bool) (x : α) : SearchTree α → SearchTree α
  | nil => node nil x nil
  | node l a r => if lt x a then node (l.insertEqual lt x) a r else node l a (r.insertEqual lt x)

/-- `std::set::insert`: the same descent, and no insertion when the element before the place found
is not less than the new one. -/
def insertUnique (lt : α → α → Bool) (x : α) (t : SearchTree α) : SearchTree α :=
  match t.upperBound (lt x) with
  | 0 => t.insertEqual lt x
  | p + 1 =>
    match t.toList[p]? with
    | some a => if lt a x then t.insertEqual lt x else t
    | none => t

/-- The tree without its first element, and that element. -/
def popMin : SearchTree α → Option (α × SearchTree α)
  | nil => none
  | node l a r =>
    match l.popMin with
    | none => some (a, r)
    | some (m, l') => some (m, node l' a r)

/-- The elements of two trees, one after the other. -/
def join (l r : SearchTree α) : SearchTree α :=
  match r.popMin with
  | none => l
  | some (m, r') => node l m r'

/-- `erase(it)`: the tree without the element at position `i`. -/
def eraseIdx : SearchTree α → ℕ → SearchTree α
  | nil, _ => nil
  | node l a r, i =>
    if i < l.size then node (l.eraseIdx i) a r
    else if i = l.size then join l r
    else node l a (r.eraseIdx (i - l.size - 1))

/-- `erase(k)`: the tree without the elements between the bounds of the key. -/
def eraseKey (below above : α → Bool) (t : SearchTree α) : SearchTree α :=
  (fun t' => t'.eraseIdx (t.lowerBound below))^[t.upperBound above - t.lowerBound below] t

/-! ## Operations on the list of elements -/

@[simp] lemma toList_nil : (nil : SearchTree α).toList = [] := rfl

@[simp] lemma length_toList (t : SearchTree α) : t.toList.length = t.size := by
  induction t with
  | nil => rfl
  | node l a r ihl ihr => simp [toList, size, ihl, ihr]

lemma upperBound_le_length (above : α → Bool) (t : SearchTree α) :
    t.upperBound above ≤ t.toList.length := by
  rw [length_toList]
  induction t with
  | nil => exact le_rfl
  | node l a r ihl ihr =>
    rw [upperBound, size]
    split_ifs <;> omega

lemma toList_insertEqual (lt : α → α → Bool) (x : α) (t : SearchTree α) :
    (t.insertEqual lt x).toList =
      t.toList.take (t.upperBound (lt x)) ++ x :: t.toList.drop (t.upperBound (lt x)) := by
  induction t with
  | nil => rfl
  | node l a r ihl ihr =>
    rw [insertEqual, upperBound]
    split_ifs with h
    · have hle := upperBound_le_length (lt x) l
      rw [toList, toList, ihl, take_append_of_le_length hle, drop_append_of_le_length hle]
      simp
    · have hlen : l.size + 1 + r.upperBound (lt x) = l.toList.length + (r.upperBound (lt x) + 1) := by
        rw [length_toList]
        omega
      rw [toList, toList, ihr, hlen, take_length_add_append, drop_length_add_append]
      simp

lemma eq_nil_of_popMin {t : SearchTree α} (h : t.popMin = none) : t = nil := by
  cases t with
  | nil => rfl
  | node l a r => rw [popMin] at h; split at h <;> cases h

lemma toList_of_popMin {t t' : SearchTree α} {m : α} (h : t.popMin = some (m, t')) :
    t.toList = m :: t'.toList := by
  induction t generalizing m t' with
  | nil => cases h
  | node l a r ihl _ =>
    rw [popMin] at h
    split at h
    next hl =>
      obtain ⟨rfl, rfl⟩ : a = m ∧ r = t' := by simpa using h
      rw [eq_nil_of_popMin hl, toList, toList_nil, nil_append]
    next m' l' hl =>
      obtain ⟨rfl, rfl⟩ : m' = m ∧ node l' a r = t' := by simpa using h
      rw [toList, toList, ihl hl, cons_append]

lemma toList_join (l r : SearchTree α) : (join l r).toList = l.toList ++ r.toList := by
  rw [join]
  split
  next h => rw [eq_nil_of_popMin h, toList_nil, append_nil]
  next m r' h => rw [toList, toList_of_popMin h]

lemma toList_eraseIdx (t : SearchTree α) (i : ℕ) : (t.eraseIdx i).toList = t.toList.eraseIdx i := by
  induction t generalizing i with
  | nil => rfl
  | node l a r ihl ihr =>
    rw [eraseIdx]
    split_ifs with hlt heq
    · rw [toList, toList, ihl, eraseIdx_append_of_lt_length (by simpa using hlt)]
    · rw [toList_join, toList, eraseIdx_append_of_length_le (by simp [heq]), heq,
        length_toList, Nat.sub_self, eraseIdx_cons_zero]
    · have hle : l.toList.length ≤ i := by rw [length_toList]; omega
      obtain ⟨k, hk⟩ : ∃ k, i - l.size = k + 1 := ⟨i - l.size - 1, by omega⟩
      rw [toList, toList, ihr, eraseIdx_append_of_length_le hle, length_toList, hk,
        eraseIdx_cons_succ, Nat.add_sub_cancel]

lemma toList_iterate_eraseIdx (t : SearchTree α) (i n : ℕ) :
    ((fun t' : SearchTree α => t'.eraseIdx i)^[n] t).toList =
      t.toList.take i ++ t.toList.drop (i + n) := by
  induction n generalizing t with
  | zero => simp
  | succ n ih =>
    rw [Function.iterate_succ_apply, ih, toList_eraseIdx, eraseIdx_eq_take_drop_succ]
    rcases Nat.lt_or_ge i t.toList.length with h | h
    · have hlen : (t.toList.take i).length = i := length_take_of_le h.le
      rw [take_append_of_le_length hlen.ge, take_take, Nat.min_self, drop_append, hlen,
        drop_eq_nil_of_le (by omega : (t.toList.take i).length ≤ i + n), nil_append,
        drop_drop]
      congr 2
      omega
    · rw [drop_eq_nil_of_le (by omega), take_of_length_le h, append_nil,
        drop_eq_nil_of_le (by omega), take_of_length_le h,
        drop_eq_nil_of_le (by omega)]

/-! ## Bounds on a sorted tree -/

lemma filter_append_filter_of_pairwise {p : α → Bool} {l : List α}
    (h : l.Pairwise fun a b => p b → p a) : l.filter p ++ l.filter (fun a => !p a) = l := by
  induction l with
  | nil => rfl
  | cons a l ih =>
    rw [pairwise_cons] at h
    by_cases ha : p a
    · simp [ha, ih h.2]
    · have hnone : l.filter p = [] := filter_eq_nil_iff.mpr fun b hb hpb => ha (h.1 b hb hpb)
      have hall : l.filter (fun a => !p a) = l :=
        filter_eq_self.mpr fun b hb => by
          simpa using fun hpb => ha (h.1 b hb hpb)
      simp [ha, hnone, hall]

lemma pairwise_not {above : α → Bool} {l : List α} (h : l.Pairwise fun a b => above a → above b) :
    l.Pairwise fun a b => (!above b) = true → (!above a) = true := by
  refine h.imp fun {a b} hab hb => ?_
  cases ha : above a with
  | false => rfl
  | true => rw [hab ha] at hb; cases hb

lemma cut_length_filter {p : α → Bool} {l : List α} (h : l.Pairwise fun a b => p b → p a) :
    l.take (l.filter p).length = l.filter p ∧
      l.drop (l.filter p).length = l.filter fun a => !p a := by
  have hsplit := filter_append_filter_of_pairwise h
  constructor
  · conv_lhs => rw [← hsplit]
    exact take_left' (by rw [hsplit])
  · conv_lhs => rw [← hsplit]
    exact drop_left' (by rw [hsplit])

section cuts

variable {p q : α → Bool} {l : List α} (hp : l.Pairwise fun a b => p b → p a)
  (hq : l.Pairwise fun a b => q b → q a)

include hp hq

lemma length_filter_le_iff :
    (l.filter p).length ≤ (l.filter q).length ↔ ∀ a ∈ l, p a → q a := by
  constructor
  · intro hle a ha hpa
    have hmem : a ∈ l.take (l.filter p).length := by
      rw [(cut_length_filter hp).1]
      exact mem_filter.mpr ⟨ha, hpa⟩
    have hmem' := (take_sublist_take_left hle).mem hmem
    rw [(cut_length_filter hq).1] at hmem'
    exact (mem_filter.mp hmem').2
  · intro himp
    rw [← countP_eq_length_filter, ← countP_eq_length_filter]
    exact countP_mono_left himp

lemma drop_take_filter (himp : ∀ a ∈ l, p a → q a) :
    (l.take (l.filter q).length).drop (l.filter p).length = l.filter fun a => !p a && q a := by
  -- the elements in front of the first cut are kept by the second property
  have hfront : (l.filter q).filter p = l.filter p := by
    rw [filter_filter]
    refine filter_congr fun a ha => ?_
    cases hpa : p a with
    | false => rfl
    | true => simpa using himp a ha hpa
  have hsplit := filter_append_filter_of_pairwise (hp.filter q)
  rw [(cut_length_filter hq).1, ← hfront]
  conv_lhs => rw [← hsplit]
  rw [drop_left' (by rw [hsplit]), filter_filter]

end cuts

lemma lowerBound_eq_length {below : α → Bool} {t : SearchTree α}
    (h : t.toList.Pairwise fun a b => below b → below a) :
    t.lowerBound below = (t.toList.filter below).length := by
  induction t with
  | nil => rfl
  | node l a r ihl ihr =>
    rw [toList, pairwise_append, pairwise_cons] at h
    obtain ⟨hl, ⟨har, hr⟩, hlr⟩ := h
    rw [lowerBound, toList, filter_append, length_append]
    split_ifs with ha
    · have hall : l.toList.filter below = l.toList :=
        filter_eq_self.mpr fun b hb => hlr b hb a mem_cons_self ha
      rw [ihr hr, hall, length_toList, filter_cons_of_pos ha, length_cons]
      omega
    · have hnone : (a :: r.toList).filter below = [] := by
        refine filter_eq_nil_iff.mpr fun b hb hpb => ha ?_
        rcases mem_cons.mp hb with rfl | hb
        · exact hpb
        · exact har b hb hpb
      rw [ihl hl, hnone, length_nil, Nat.add_zero]

lemma upperBound_eq_length {above : α → Bool} {t : SearchTree α}
    (h : t.toList.Pairwise fun a b => above a → above b) :
    t.upperBound above = (t.toList.filter fun a => !above a).length := by
  have hlower : t.upperBound above = t.lowerBound fun a => !above a := by
    clear h
    induction t with
    | nil => rfl
    | node l a r ihl ihr =>
      rw [upperBound, lowerBound, ihl, ihr]
      cases above a <;> rfl
  rw [hlower]
  exact lowerBound_eq_length (pairwise_not h)

lemma mem_of_mem_range {i j : ℕ} {t : SearchTree α} {a : α} (h : a ∈ t.range i j) :
    a ∈ t.toList := by
  unfold range at h
  split_ifs at h
  · exact mem_of_mem_drop (mem_of_mem_take h)
  · exact mem_of_mem_drop h

lemma perm_insertEqual (lt : α → α → Bool) (x : α) (t : SearchTree α) :
    (t.insertEqual lt x).toList.Perm (x :: t.toList) := by
  rw [toList_insertEqual]
  refine perm_middle.trans (Perm.cons x ?_)
  rw [take_append_drop]

section sorted

variable {lt : α → α → Bool} {S : Set α} {t : SearchTree α} {k : α}

section

variable (hS : StrictWeak lt S) (ht : Sorted lt t.toList) (hmem : ∀ a ∈ t.toList, a ∈ S) (hk : k ∈ S)

include hS ht hmem hk

lemma pairwise_below : t.toList.Pairwise fun a b => lt b k → lt a k := by
  refine ht.imp_of_mem fun {a b} ha hb hba hbk => ?_
  by_contra hak
  exact hS.not_lt_trans b (hmem b hb) a (hmem a ha) k hk hba hak hbk

lemma pairwise_above : t.toList.Pairwise fun a b => lt k a → lt k b := by
  refine ht.imp_of_mem fun {a b} ha hb hba hka => ?_
  by_contra hkb
  exact hS.not_lt_trans k hk b (hmem b hb) a (hmem a ha) hkb hba hka

lemma cut_lowerBound :
    t.toList.take (t.lowerBound (lt · k)) = t.toList.filter (lt · k) ∧
      t.toList.drop (t.lowerBound (lt · k)) = t.toList.filter fun a => !lt a k := by
  have hmono := pairwise_below hS ht hmem hk
  rw [lowerBound_eq_length hmono]
  exact cut_length_filter hmono

lemma cut_upperBound :
    t.toList.take (t.upperBound (lt k)) = (t.toList.filter fun a => !lt k a) ∧
      t.toList.drop (t.upperBound (lt k)) = t.toList.filter (lt k) := by
  have hmono := pairwise_above hS ht hmem hk
  rw [upperBound_eq_length hmono]
  simpa only [Bool.not_not] using cut_length_filter (pairwise_not hmono)

lemma lowerBound_le_upperBound :
    t.lowerBound (lt · k) ≤ t.upperBound (lt k) := by
  rw [lowerBound_eq_length (pairwise_below hS ht hmem hk),
    upperBound_eq_length (pairwise_above hS ht hmem hk), ← countP_eq_length_filter,
    ← countP_eq_length_filter]
  refine countP_mono_left fun a ha hak => ?_
  simpa using hS.asymm a (hmem a ha) k hk hak

lemma range_eq_filter :
    t.range (t.lowerBound (lt · k)) (t.upperBound (lt k)) =
      t.toList.filter fun a => !lt a k && !lt k a := by
  have hbelow := pairwise_below hS ht hmem hk
  have habove := pairwise_above hS ht hmem hk
  have hnotAbove := pairwise_not habove
  rw [range, if_pos (lowerBound_le_upperBound hS ht hmem hk), ← drop_take,
    lowerBound_eq_length hbelow, upperBound_eq_length habove]
  refine drop_take_filter hbelow hnotAbove fun a ha hak => ?_
  simpa using hS.asymm a (hmem a ha) k hk hak

lemma find_eq_head?_filter :
    t.find (lt · k) (lt k) = (t.toList.filter fun a => !lt a k && !lt k a).head? := by
  have hcut := (cut_lowerBound hS ht hmem hk).2
  have hhead : t.toList[t.lowerBound (lt · k)]? = (t.toList.filter fun a => !lt a k).head? := by
    rw [← hcut, head?_drop]
  have hmono : (t.toList.filter fun a => !lt a k).Pairwise fun a b => lt k a → lt k b :=
    (pairwise_above hS ht hmem hk).filter _
  have hfilter : (t.toList.filter fun a => !lt a k && !lt k a) =
      (t.toList.filter fun a => !lt a k).filter fun a => !lt k a := by
    rw [filter_filter]
    exact filter_congr fun a _ => Bool.and_comm _ _
  rw [find, hhead, hfilter]
  cases hl : t.toList.filter fun a => !lt a k with
  | nil => rfl
  | cons a l =>
    rw [hl, pairwise_cons] at hmono
    simp only [head?_cons]
    split_ifs with ha
    · -- the first candidate is above the key, so all are
      have hnone : (a :: l).filter (fun a => !lt k a) = [] := by
        refine filter_eq_nil_iff.mpr fun b hb => ?_
        rcases mem_cons.mp hb with rfl | hb
        · simpa using ha
        · simpa using hmono.1 b hb ha
      rw [hnone, head?_nil]
    · rw [filter_cons_of_pos (by simpa using ha), head?_cons]

lemma toList_eraseKey :
    (t.eraseKey (lt · k) (lt k)).toList = t.toList.filter fun a => lt a k || lt k a := by
  have hle := lowerBound_le_upperBound hS ht hmem hk
  rw [eraseKey, toList_iterate_eraseIdx, Nat.add_sub_cancel' hle,
    (cut_lowerBound hS ht hmem hk).1, (cut_upperBound hS ht hmem hk).2]
  have hmono : (t.toList.filter fun a => lt a k || lt k a).Pairwise fun a b => lt b k → lt a k :=
    (pairwise_below hS ht hmem hk).filter _
  rw [← filter_append_filter_of_pairwise hmono, filter_filter, filter_filter]
  congr 1 <;> refine filter_congr fun a ha => ?_
  · cases lt a k <;> simp
  · cases hak : lt a k with
    | false => simp
    | true => simpa using hS.asymm a (hmem a ha) k hk hak

lemma toList_insertEqual_of_sorted :
    (t.insertEqual lt k).toList =
      (t.toList.filter fun a => !lt k a) ++ k :: t.toList.filter (lt k) := by
  rw [toList_insertEqual, (cut_upperBound hS ht hmem hk).1, (cut_upperBound hS ht hmem hk).2]

lemma sorted_insertEqual : Sorted lt (t.insertEqual lt k).toList := by
  have hmem' : ∀ (p : α → Bool) (a : α), a ∈ t.toList.filter p → a ∈ S ∧ p a :=
    fun p a ha => ⟨hmem a (mem_of_mem_filter ha), (mem_filter.mp ha).2⟩
  rw [toList_insertEqual_of_sorted hS ht hmem hk, Sorted, pairwise_append, pairwise_cons]
  refine ⟨ht.filter _, ⟨fun b hb => ?_, ht.filter _⟩, fun a ha b hb => ?_⟩
  · exact hS.asymm k hk b (hmem' _ b hb).1 (hmem' _ b hb).2
  · have hka : ¬ lt k a := by simpa using (hmem' _ a ha).2
    rcases mem_cons.mp hb with rfl | hb
    · exact hka
    · intro hba
      exact hka (hS.trans hk (hmem' _ b hb).1 (hmem' _ a ha).1 (hmem' _ b hb).2 hba)

lemma insertUnique_of_forall (hne : ∀ a ∈ t.toList, lt a k ∨ lt k a) :
    t.insertUnique lt k = t.insertEqual lt k := by
  rw [insertUnique]
  split
  · rfl
  next p hp =>
    have htake := (cut_upperBound hS ht hmem hk).1
    have hlt : p < t.toList.length := by
      have := upperBound_le_length (lt k) t
      omega
    have hmemp : t.toList[p] ∈ t.toList.filter fun a => !lt k a := by
      rw [← htake]
      exact mem_take_iff_getElem.mpr ⟨p, by omega, rfl⟩
    have hnot : ¬ lt k t.toList[p] := by simpa using (mem_filter.mp hmemp).2
    have hbelow : lt t.toList[p] k := (hne _ (getElem_mem hlt)).resolve_right hnot
    rw [List.getElem?_eq_getElem hlt]
    simp [hbelow]

lemma insertUnique_of_exists (heq : ∃ a ∈ t.toList, ¬ lt a k ∧ ¬ lt k a) :
    t.insertUnique lt k = t := by
  obtain ⟨a, ha, hak, hka⟩ := heq
  have htake := (cut_upperBound hS ht hmem hk).1
  have hafilter : a ∈ t.toList.take (t.upperBound (lt k)) := by
    rw [htake]
    exact mem_filter.mpr ⟨ha, by simpa using hka⟩
  rw [insertUnique]
  split
  next hzero =>
    rw [hzero, take_zero] at hafilter
    cases hafilter
  next p hp =>
    obtain ⟨i, hi, rfl⟩ := mem_take_iff_getElem.mp hafilter
    have hlt : p < t.toList.length := by
      have := upperBound_le_length (lt k) t
      omega
    -- the element before the upper bound is not less than the equivalent one
    have hnot : ¬ lt t.toList[p] k := by
      have hpi : ¬ lt t.toList[p] t.toList[i] := by
        rcases Nat.lt_or_ge i p with hip | hip
        · exact pairwise_iff_getElem.mp ht i p _ hlt hip
        · have hipeq : i = p := by omega
          subst hipeq
          exact hS.irrefl (hmem _ ha)
      exact hS.not_lt_trans _ (hmem _ (getElem_mem hlt)) _ (hmem _ ha) k hk hpi hak
    rw [List.getElem?_eq_getElem hlt]
    simp [hnot]

end

lemma foldl_insertEqual (hS : StrictWeak lt S) (ht : Sorted lt t.toList)
    (hmem : ∀ a ∈ t.toList, a ∈ S) {l : List α} (hl : ∀ a ∈ l, a ∈ S) :
    Sorted lt (l.foldl (fun t a => t.insertEqual lt a) t).toList ∧
      (l.foldl (fun t a => t.insertEqual lt a) t).toList.Perm (l ++ t.toList) := by
  induction l generalizing t with
  | nil => exact ⟨ht, Perm.refl _⟩
  | cons a l ih =>
    have ha := hl a mem_cons_self
    have hperm := perm_insertEqual lt a t
    obtain ⟨hsorted, hperm'⟩ := ih (sorted_insertEqual hS ht hmem ha)
      (fun b hb => by
        rcases mem_cons.mp (hperm.mem_iff.mp hb) with rfl | hb
        · exact ha
        · exact hmem b hb)
      fun b hb => hl b (mem_cons_of_mem a hb)
    refine ⟨hsorted, hperm'.trans ?_⟩
    exact (hperm.append_left l).trans perm_middle

/-- The tree holds one element of each class of elements of the list. -/
structure Representatives (lt : α → α → Bool) (t : SearchTree α) (l : List α) : Prop where
  sorted : Sorted lt t.toList
  /-- Its elements are from the list. -/
  subset : ∀ a ∈ t.toList, a ∈ l
  /-- They are pairwise inequivalent. -/
  apart : t.toList.Pairwise fun a b => lt a b ∨ lt b a
  /-- Each element of the list is equivalent to one of them. -/
  covers : ∀ a ∈ l, ∃ b ∈ t.toList, ¬ lt b a ∧ ¬ lt a b

lemma Representatives.insertUnique (hS : StrictWeak lt S) {l : List α}
    (h : Representatives lt t l) (hl : ∀ a ∈ l, a ∈ S) (hk : k ∈ S) :
    Representatives lt (t.insertUnique lt k) (l ++ [k]) := by
  have hmem : ∀ a ∈ t.toList, a ∈ S := fun a ha => hl a (h.subset a ha)
  by_cases heq : ∃ a ∈ t.toList, ¬ lt a k ∧ ¬ lt k a
  · rw [insertUnique_of_exists hS h.sorted hmem hk heq]
    refine ⟨h.sorted, fun a ha => mem_append_left _ (h.subset a ha), h.apart, fun a ha => ?_⟩
    rcases mem_append.mp ha with ha | ha
    · exact h.covers a ha
    · rwa [mem_singleton.mp ha]
  · have hne : ∀ a ∈ t.toList, lt a k ∨ lt k a := by
      intro a ha
      by_contra hboth
      exact heq ⟨a, ha, not_or.mp hboth⟩
    have hperm := perm_insertEqual lt k t
    rw [insertUnique_of_forall hS h.sorted hmem hk hne]
    refine ⟨sorted_insertEqual hS h.sorted hmem hk, fun a ha => ?_, ?_, fun a ha => ?_⟩
    · rcases mem_cons.mp (hperm.mem_iff.mp ha) with rfl | ha
      · exact mem_append_right _ (mem_singleton_self a)
      · exact mem_append_left _ (h.subset a ha)
    · apply (hperm.pairwise_iff fun {a b} hab => hab.symm).mpr
      exact pairwise_cons.mpr ⟨fun a ha => (hne a ha).symm, h.apart⟩
    · rcases mem_append.mp ha with ha | ha
      · obtain ⟨b, hb, hab⟩ := h.covers a ha
        exact ⟨b, hperm.mem_iff.mpr (mem_cons_of_mem k hb), hab⟩
      · rw [mem_singleton.mp ha]
        exact ⟨k, hperm.mem_iff.mpr mem_cons_self, hS.irrefl hk, hS.irrefl hk⟩

lemma representatives_foldl (hS : StrictWeak lt S) {l l' : List α} (h : Representatives lt t l)
    (hl : ∀ a ∈ l, a ∈ S) (hl' : ∀ a ∈ l', a ∈ S) :
    Representatives lt (l'.foldl (fun t a => t.insertUnique lt a) t) (l ++ l') := by
  induction l' generalizing t l with
  | nil =>
    rw [append_nil]
    exact h
  | cons k l' ih =>
    have hk := hl' k mem_cons_self
    rw [append_cons]
    refine ih (h.insertUnique hS hl hk) (fun a ha => ?_)
      fun a ha => hl' a (mem_cons_of_mem k ha)
    rcases mem_append.mp ha with ha | ha
    · exact hl a ha
    · rwa [mem_singleton.mp ha]

end sorted

/-- Inserting into a set an element greater than all of its elements puts it at the end. No
assumption on the comparator beyond these pairs is needed. -/
lemma toList_insertUnique_of_forall_lt {lt : α → α → Bool} {x : α} {t : SearchTree α}
    (h : ∀ a ∈ t.toList, lt a x ∧ ¬ lt x a) : (t.insertUnique lt x).toList = t.toList ++ [x] := by
  have hup : t.upperBound (lt x) = t.toList.length := by
    rw [upperBound_eq_length]
    · rw [filter_eq_self.mpr fun a ha => by simpa using (h a ha).2]
    · exact Pairwise.imp_of_mem (fun {a b} ha _ _ hxa => absurd hxa (h a ha).2)
        (pairwise_of_forall (R := fun _ _ => True) fun _ _ => trivial)
  have hins : (t.insertEqual lt x).toList = t.toList ++ [x] := by
    rw [toList_insertEqual, hup, take_length, drop_length]
  rw [insertUnique]
  split
  · exact hins
  next p hp =>
    have hlt : p < t.toList.length := by omega
    rw [List.getElem?_eq_getElem hlt]
    simp only [(h _ (getElem_mem hlt)).1, if_true]
    exact hins

lemma toList_foldl_insertUnique {lt : α → α → Bool} {l : List α} {t : SearchTree α}
    (ht : ∀ a ∈ t.toList, ∀ b ∈ l, lt a b ∧ ¬ lt b a)
    (hl : l.Pairwise fun a b => lt a b ∧ ¬ lt b a) :
    (l.foldl (fun t x => t.insertUnique lt x) t).toList = t.toList ++ l := by
  induction l generalizing t with
  | nil => simp
  | cons x l ih =>
    rw [pairwise_cons] at hl
    have hx := toList_insertUnique_of_forall_lt fun a ha => ht a ha x mem_cons_self
    rw [foldl_cons, ih _ hl.2, hx, append_assoc, singleton_append]
    intro a ha b hb
    rw [hx, mem_append, mem_singleton] at ha
    rcases ha with ha | rfl
    · exact ht a ha b (mem_cons_of_mem x hb)
    · exact hl.1 b hb

end SearchTree

end P2.Lib
