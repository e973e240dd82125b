import P2.Lib.SearchTree
import Mathlib.Data.List.Pairwise
import Mathlib.Data.List.Perm.Basic

/-!
# Search trees of pairs

A tree of pairs that is ordered by the first component, with no two equivalent ones, is a map.

* `Proper.findKeyed_iff`, `Proper.findKeyed_eq_none` — what is found.
* `Proper.insertKeyed`, `Proper.eraseFound`, `Proper.mem_eraseFound` — a pair comes or goes.
-/

namespace P2.Lib

open List

variable {K V : Type}

namespace SearchTree

def ltKey (lt : K → K → Bool) (a b : K × V) : Bool := lt a.1 b.1

def findKeyed (lt : K → K → Bool) (k : K) (t : SearchTree (K × V)) : Option (K × V) :=
  t.find (fun e => lt e.1 k) (fun e => lt k e.1)

def insertKeyed (lt : K → K → Bool) (k : K) (v : V) (t : SearchTree (K × V)) :
    SearchTree (K × V) :=
  t.insertUnique (ltKey lt) (k, v)

/-- `erase(i)`, for the iterator that `find(k)` gave. -/
def eraseFound (lt : K → K → Bool) (k : K) (t : SearchTree (K × V)) : SearchTree (K × V) :=
  t.eraseIdx (t.lowerBound fun e => lt e.1 k)

/-- The tree is a map whose keys are from the set. -/
structure Proper (lt : K → K → Bool) (S : Set K) (t : SearchTree (K × V)) : Prop where
  keys : ∀ e ∈ t.toList, e.1 ∈ S
  ordered : t.toList.Pairwise fun a b => lt a.1 b.1

variable {lt : K → K → Bool} {S : Set K} {t : SearchTree (K × V)} {k : K} {v : V} {e : K × V}

lemma strictWeak_ltKey (hS : StrictWeak lt S) :
    StrictWeak (ltKey lt) {e : K × V | e.1 ∈ S} :=
  hS.comap Prod.fst

lemma proper_nil : Proper lt S (.nil : SearchTree (K × V)) := ⟨forall_mem_nil _, List.Pairwise.nil⟩

lemma Proper.sorted (h : Proper lt S t) (hS : StrictWeak lt S) : Sorted (ltKey lt) t.toList :=
  h.ordered.imp_of_mem fun ha hb hab => hS.asymm _ (h.keys _ ha) _ (h.keys _ hb) hab

lemma Proper.findKeyed_eq (h : Proper lt S t) (hS : StrictWeak lt S) (hk : k ∈ S) (v : V) :
    t.findKeyed lt k = (t.toList.filter fun e => !lt e.1 k && !lt k e.1).head? :=
  find_eq_head?_filter (k := (k, v)) (strictWeak_ltKey hS) (h.sorted hS) h.keys hk

lemma Proper.of_findKeyed (h : Proper lt S t) (hS : StrictWeak lt S) (hk : k ∈ S)
    (hfind : t.findKeyed lt k = some e) : e ∈ t.toList ∧ lt e.1 k = false ∧ lt k e.1 = false := by
  rw [h.findKeyed_eq hS hk e.2] at hfind
  obtain ⟨hmem, heq⟩ := mem_filter.mp (mem_of_head? hfind)
  rw [Bool.and_eq_true, Bool.not_eq_true', Bool.not_eq_true'] at heq
  exact ⟨hmem, heq⟩

lemma Proper.findKeyed_eq_none (h : Proper lt S t) (hS : StrictWeak lt S) (hk : k ∈ S)
    (hfind : t.findKeyed lt k = none) (he : e ∈ t.toList) : lt e.1 k ∨ lt k e.1 := by
  rw [h.findKeyed_eq hS hk e.2, List.head?_eq_none_iff, filter_eq_nil_iff] at hfind
  have hne := hfind e he
  rw [Bool.and_eq_true, Bool.not_eq_true', Bool.not_eq_true', not_and_or, Bool.not_eq_false,
    Bool.not_eq_false] at hne
  exact hne

lemma Proper.eq_of_equivalent (h : Proper lt S t) {a b : K × V} (ha : a ∈ t.toList)
    (hb : b ∈ t.toList) (hab : lt a.1 b.1 = false) (hba : lt b.1 a.1 = false) : a = b := by
  by_contra hne
  have hsymm : Std.Symm fun a b : K × V => lt a.1 b.1 = true ∨ lt b.1 a.1 = true :=
    ⟨fun _ _ hab => hab.symm⟩
  have hpair : t.toList.Pairwise fun a b => lt a.1 b.1 = true ∨ lt b.1 a.1 = true :=
    h.ordered.imp Or.inl
  rcases hpair.forall ha hb hne with hlt | hlt
  · rw [hab] at hlt
    cases hlt
  · rw [hba] at hlt
    cases hlt

lemma Proper.findKeyed_iff (h : Proper lt S t) (hS : StrictWeak lt S) (hk : k ∈ S) :
    t.findKeyed lt k = some e ↔ e ∈ t.toList ∧ lt e.1 k = false ∧ lt k e.1 = false := by
  refine ⟨h.of_findKeyed hS hk, ?_⟩
  rintro ⟨he, hek, hke⟩
  rcases hfind : t.findKeyed lt k with _ | a
  · rcases h.findKeyed_eq_none hS hk hfind he with hlt | hlt
    · exact absurd hlt (by rw [hek]; exact Bool.false_ne_true)
    · exact absurd hlt (by rw [hke]; exact Bool.false_ne_true)
  · obtain ⟨ha, hak, hka⟩ := h.of_findKeyed hS hk hfind
    have heS := h.keys e he
    have haS := h.keys a ha
    rw [← Bool.not_eq_true] at hek hke hak hka
    refine congrArg some (h.eq_of_equivalent ha he ?_ ?_)
    · rw [← Bool.not_eq_true]
      exact hS.not_lt_trans a.1 haS k hk e.1 heS hak hke
    · rw [← Bool.not_eq_true]
      exact hS.not_lt_trans e.1 heS k hk a.1 haS hek hka

lemma Proper.insertKeyed (h : Proper lt S t) (hS : StrictWeak lt S) (hk : k ∈ S)
    (hnew : ∀ e ∈ t.toList, lt e.1 k ∨ lt k e.1) :
    Proper lt S (t.insertKeyed lt k v) ∧ (t.insertKeyed lt k v).toList.Perm ((k, v) :: t.toList) := by
  have hsorted := h.sorted hS
  have hinsert : t.insertKeyed lt k v = t.insertEqual (ltKey lt) (k, v) :=
    insertUnique_of_forall (strictWeak_ltKey hS) hsorted h.keys hk hnew
  have hperm := perm_insertEqual (ltKey lt) (k, v) t
  rw [hinsert]
  refine ⟨⟨fun e he => ?_, ?_⟩, hperm⟩
  · rcases mem_cons.mp (hperm.mem_iff.mp he) with rfl | he
    · exact hk
    · exact h.keys e he
  · rw [toList_insertEqual_of_sorted (strictWeak_ltKey hS) hsorted h.keys hk]
    have hnot : ∀ e ∈ t.toList.filter fun a => !ltKey lt (k, v) a, lt e.1 k := by
      intro e he
      obtain ⟨hmem, hle⟩ := mem_filter.mp he
      refine (hnew e hmem).resolve_right fun hlt => ?_
      rw [show ltKey lt (k, v) e = true from hlt] at hle
      cases hle
    have habove : ∀ e ∈ t.toList.filter (ltKey lt (k, v)), lt k e.1 :=
      fun e he => (mem_filter.mp he).2
    refine pairwise_append.mpr ⟨h.ordered.filter _, pairwise_cons.mpr
      ⟨habove, h.ordered.filter _⟩, fun a ha b hb => ?_⟩
    rcases mem_cons.mp hb with rfl | hb
    · exact hnot a ha
    · exact hS.trans (h.keys a (mem_of_mem_filter ha)) hk
        (h.keys b (mem_of_mem_filter hb)) (hnot a ha) (habove b hb)

lemma Proper.eraseFound (h : Proper lt S t)
    (hfind : t.findKeyed lt k = some e) :
    Proper lt S (t.eraseFound lt k) ∧ t.toList.Perm (e :: (t.eraseFound lt k).toList) := by
  have hat : t.toList[t.lowerBound fun e => lt e.1 k]? = some e := by
    unfold findKeyed find at hfind
    split at hfind
    next a hget =>
      split_ifs at hfind
      rw [hget]
      exact hfind
    next => cases hfind
  have herase : (t.eraseFound lt k).toList =
      t.toList.eraseIdx (t.lowerBound fun e => lt e.1 k) :=
    toList_eraseIdx t _
  obtain ⟨hlt, hget⟩ := List.getElem?_eq_some_iff.mp hat
  have hsub : (t.eraseFound lt k).toList.Sublist t.toList := by
    rw [herase]
    exact eraseIdx_sublist ..
  refine ⟨⟨fun a ha => h.keys a (hsub.subset ha), h.ordered.sublist hsub⟩, ?_⟩
  rw [herase, ← hget]
  exact (getElem_cons_eraseIdx_perm hlt).symm

lemma Proper.mem_eraseFound (h : Proper lt S t) (hS : StrictWeak lt S)
    (hfind : t.findKeyed lt k = some e) (a : K × V) :
    a ∈ (t.eraseFound lt k).toList ↔ a ∈ t.toList ∧ a ≠ e := by
  have hperm := (h.eraseFound hfind).2
  have hnodup : t.toList.Nodup := h.ordered.imp_of_mem fun {a b} ha _ hlt heq =>
    hS.irrefl (h.keys a ha) (by rwa [← heq] at hlt)
  have hnot : e ∉ (t.eraseFound lt k).toList := (nodup_cons.mp (hperm.nodup_iff.mp hnodup)).1
  rw [hperm.mem_iff, mem_cons]
  constructor
  · intro ha
    exact ⟨Or.inr ha, fun heq => hnot (heq ▸ ha)⟩
  · rintro ⟨rfl | ha, hne⟩
    · exact absurd rfl hne
    · exact ha

end SearchTree

end P2.Lib
