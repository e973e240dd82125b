import Mathlib.Data.List.Pairwise
import Mathlib.Data.List.Perm.Basic
import P2.Table.Common

/-!
# The indices of a table agree

The primary index has no two entries with equal keys, and every secondary index holds exactly the
entries of the primary one: `CommonTable.Ok`.
-/

namespace P2.Table

open P2.Value P2.Lib List CommonTable SearchTree

/-- What may be stored: each column has a set of values on which `compareTo` is a total preorder,
and no two tuples share an identifier. -/
structure Schema where
  cols : ℕ → Set Value
  lawful : Lawful cols
  tuples : Set Tuple
  typed : ∀ t ∈ tuples, Typed cols t
  unique : ∀ t ∈ tuples, ∀ u ∈ tuples, t.ID = u.ID → t = u

/-! ## One index -/

namespace Index

variable {S : Schema} {key : Key} {index : Index} {t : Tuple}

lemma strictWeak_ltRef (S : Schema) (key : Key) :
    StrictWeak (ltRef key) {r : Ref | TypedOn S.cols key r.tuple} :=
  (strictWeak_keyedLt S.lawful key).comap Ref.tuple

section Search

variable (hsorted : Sorted (ltRef key) index.toList)
  (htyped : ∀ r ∈ index.toList, Typed S.cols r.tuple) (ht : TypedOn S.cols key t)

include hsorted htyped ht

lemma equalRange_eq : index.equalRange key t =
    index.toList.filter fun r => sameKey key r.tuple t :=
  range_eq_filter (k := searchEntry t) (strictWeak_ltRef S key) hsorted
    (fun r hr => (htyped r hr).on key) ht

lemma findKey_eq : index.findKey key t =
    (index.toList.filter fun r => sameKey key r.tuple t).head? :=
  SearchTree.find_eq_head?_filter (k := searchEntry t) (strictWeak_ltRef S key) hsorted
    (fun r hr => (htyped r hr).on key) ht

lemma toList_eraseKeyed : (index.eraseKeyed key t).toList =
    index.toList.filter fun r => !sameKey key r.tuple t := by
  have h := toList_eraseKey (k := searchEntry t) (strictWeak_ltRef S key) hsorted
    (fun r hr => (htyped r hr).on key) ht
  unfold eraseKeyed
  rw [h]
  apply filter_congr
  intro r _
  unfold sameKey
  rw [Bool.not_and, Bool.not_not, Bool.not_not]
  rfl

lemma findKey_eq_some {r : Ref} (hfind : index.findKey key t = some r) :
    r ∈ index.toList ∧ sameKey key r.tuple t := by
  rw [findKey_eq hsorted htyped ht] at hfind
  exact mem_filter.mp (mem_of_head? hfind)

lemma findKey_eq_none (hfind : index.findKey key t = none) :
    ∀ r ∈ index.toList, sameKey key r.tuple t = false := by
  rw [findKey_eq hsorted htyped ht, head?_eq_none_iff, filter_eq_nil_iff] at hfind
  intro r hr
  simpa using hfind r hr

lemma lower_le_upper : index.lower key t ≤ index.upper key t :=
  lowerBound_le_upperBound (k := searchEntry t) (strictWeak_ltRef S key) hsorted
    (fun r hr => (htyped r hr).on key) ht

lemma runsOff_eq_false : index.runsOff key t = false :=
  decide_eq_false (not_lt.mpr (lower_le_upper hsorted htyped ht))

end Search

lemma perm_eraseIdx_lower {r : Ref} (hfind : index.findKey key t = some r) :
    index.toList.Perm (r :: (eraseIdx index (index.lower key t)).toList) := by
  have hget : index.toList[index.lower key t]? = some r := by
    unfold findKey find at hfind
    show index.toList[lowerBound _ index]? = some r
    split at hfind
    next a ha =>
      split_ifs at hfind
      rw [ha, Option.some.inj hfind]
    · cases hfind
  obtain ⟨hlt, hr⟩ := List.getElem?_eq_some_iff.mp hget
  rw [toList_eraseIdx, ← hr]
  exact (getElem_cons_eraseIdx_perm hlt).symm

lemma eraseTuple_spec (hsorted : Sorted (ltRef key) index.toList)
    (hstored : ∀ r ∈ index.toList, r.tuple ∈ S.tuples) {r : Ref} (hr : r ∈ index.toList)
    (hunique : ∀ x ∈ index.toList, x.tuple = r.tuple → x = r) :
    index.toList.Perm (r :: (index.eraseTuple key r.tuple).toList) ∧
      Sorted (ltRef key) (index.eraseTuple key r.tuple).toList := by
  have htyped : ∀ x ∈ index.toList, Typed S.cols x.tuple := fun x hx =>
    S.typed _ (hstored x hx)
  have hrange := equalRange_eq hsorted htyped ((htyped r hr).on key)
  have hmem : r ∈ index.equalRange key r.tuple := by
    rw [hrange]
    exact mem_filter.mpr ⟨hr, sameKey_refl S.lawful (htyped r hr) key⟩
  -- the loop stops in the range, at an entry with the identifier, which is the entry itself
  obtain ⟨j, hj⟩ : ∃ j, (index.equalRange key r.tuple).findIdx?
      (fun x => x.tuple.ID == r.tuple.ID) = some j := by
    rcases hfind : (index.equalRange key r.tuple).findIdx? (fun x => x.tuple.ID == r.tuple.ID)
      with _ | j
    · rw [findIdx?_eq_none_iff] at hfind
      exact absurd (hfind r hmem) (by simp)
    · exact ⟨j, hfind⟩
  obtain ⟨hjlt, hjid, -⟩ := findIdx?_eq_some_iff_getElem.mp hj
  have hsubset : ∀ x ∈ index.equalRange key r.tuple, x ∈ index.toList := by
    rw [hrange]
    exact fun x hx => mem_of_mem_filter hx
  have hx := hsubset _ (getElem_mem hjlt)
  have hxr : (index.equalRange key r.tuple)[j] = r :=
    hunique _ hx (S.unique _ (hstored _ hx) _ (hstored r hr) (beq_iff_eq.mp hjid))
  have hget : index.toList[index.lower key r.tuple + j]? = some r := by
    have hjget := List.getElem?_eq_getElem hjlt
    rw [hxr] at hjget
    have hle := lower_le_upper hsorted htyped ((htyped r hr).on key)
    unfold equalRange SearchTree.range at hjget hjlt
    rw [if_pos hle] at hjget
    simp only [if_pos hle, length_take] at hjlt
    rwa [List.getElem?_take_of_lt (by omega), List.getElem?_drop] at hjget
  obtain ⟨hlt, hr'⟩ := List.getElem?_eq_some_iff.mp hget
  unfold eraseTuple
  rw [hj]
  simp only [toList_eraseIdx]
  refine ⟨?_, hsorted.sublist (eraseIdx_sublist _ _)⟩
  have hperm := getElem_cons_eraseIdx_perm hlt
  rw [hr'] at hperm
  exact hperm.symm

end Index

/-! ## The table -/

namespace CommonTable

structure Ok (S : Schema) (s : CommonTable) : Prop where
  stored : ∀ r ∈ s.primaryIndex.toList, r.tuple ∈ S.tuples
  sorted : Sorted (ltRef s.key) s.primaryIndex.toList
  distinct : s.primaryIndex.toList.Pairwise fun a b =>
    sameKey s.key a.tuple b.tuple = false ∧ a.addr ≠ b.addr
  keys : (s.indices.map Prod.fst).Nodup
  /-- Every secondary index is sorted and has the entries of the primary one. -/
  indexed : ∀ ix ∈ s.indices,
    Sorted (ltRef ix.1) ix.2.toList ∧ ix.2.toList.Perm s.primaryIndex.toList

variable {S : Schema} {s : CommonTable} {t : Tuple} {r : Ref}

lemma Ok.congr (h : s.Ok S) {s' : CommonTable} (hkey : s'.key = s.key)
    (hprimary : s'.primaryIndex = s.primaryIndex) (hindices : s'.indices = s.indices) :
    s'.Ok S := by
  refine ⟨?_, ?_, ?_, ?_, ?_⟩
  · rw [hprimary]
    exact h.stored
  · rw [hprimary, hkey]
    exact h.sorted
  · rw [hprimary, hkey]
    exact h.distinct
  · rw [hindices]
    exact h.keys
  · rw [hindices, hprimary]
    exact h.indexed

lemma Ok.typed (h : s.Ok S) : ∀ r ∈ s.primaryIndex.toList, Typed S.cols r.tuple :=
  fun r hr => S.typed _ (h.stored r hr)

lemma Ok.scan_mem (h : s.Ok S) : ∀ u ∈ s.scan, u ∈ S.tuples := by
  intro u hu
  obtain ⟨r, hr, rfl⟩ := mem_map.mp hu
  exact h.stored r hr

lemma Ok.typedOn (h : s.Ok S) (key : Key) :
    ∀ r ∈ s.primaryIndex.toList, TypedOn S.cols key r.tuple :=
  fun r hr => (h.typed r hr).on key

lemma Ok.eq_of_sameKey (h : s.Ok S) {a b : Ref} (ha : a ∈ s.primaryIndex.toList)
    (hb : b ∈ s.primaryIndex.toList) (hab : sameKey s.key a.tuple b.tuple) : a = b := by
  by_contra hne
  have hsymm : Std.Symm fun a b : Ref => sameKey s.key a.tuple b.tuple = false :=
    ⟨fun a b hab => by rwa [sameKey_comm]⟩
  have hpair : s.primaryIndex.toList.Pairwise fun a b => sameKey s.key a.tuple b.tuple = false :=
    h.distinct.imp And.left
  rw [hpair.forall ha hb hne] at hab
  exact Bool.false_ne_true hab

lemma Ok.eq_of_addr (h : s.Ok S) {a b : Ref} (ha : a ∈ s.primaryIndex.toList)
    (hb : b ∈ s.primaryIndex.toList) (hab : a.addr = b.addr) : a = b := by
  by_contra hne
  have hsymm : Std.Symm fun a b : Ref => a.addr ≠ b.addr := ⟨fun _ _ hab => hab.symm⟩
  have hpair : s.primaryIndex.toList.Pairwise fun a b => a.addr ≠ b.addr := h.distinct.imp And.right
  exact hpair.forall ha hb hne hab

lemma Ok.eq_of_tuple (h : s.Ok S) {a b : Ref} (ha : a ∈ s.primaryIndex.toList)
    (hb : b ∈ s.primaryIndex.toList) (hab : a.tuple = b.tuple) : a = b := by
  apply h.eq_of_sameKey ha hb
  rw [hab]
  exact sameKey_refl S.lawful (h.typed b hb) s.key

lemma Ok.eq_of_found (h : s.Ok S) {a b : Ref} (ha : a ∈ s.primaryIndex.toList)
    (hb : b ∈ s.primaryIndex.toList) (ht : Typed S.cols t) (hat : sameKey s.key a.tuple t)
    (hbt : sameKey s.key b.tuple t) : a = b := by
  apply h.eq_of_sameKey ha hb
  rwa [sameKey_congr S.lawful (h.typed b hb) ht (h.typed a ha) hbt]

lemma distinct_symm {key : Key} {a b : Ref}
    (h : sameKey key a.tuple b.tuple = false ∧ a.addr ≠ b.addr) :
    sameKey key b.tuple a.tuple = false ∧ b.addr ≠ a.addr := by
  rw [sameKey_comm]
  exact ⟨h.1, h.2.symm⟩

lemma Ok.ne_of_perm (h : s.Ok S) {others : List Ref}
    (hperm : s.primaryIndex.toList.Perm (r :: others)) {x : Ref} (hx : x ∈ others) :
    x.addr ≠ r.addr ∧ sameKey s.key x.tuple r.tuple = false := by
  have hpair := (hperm.pairwise_iff distinct_symm).mp h.distinct
  have hrx := distinct_symm ((pairwise_cons.mp hpair).1 x hx)
  exact ⟨hrx.2, hrx.1⟩

lemma Ok.insert (h : s.Ok S) (ht : r.tuple ∈ S.tuples)
    (hnew : ∀ x ∈ s.primaryIndex.toList, sameKey s.key x.tuple r.tuple = false ∧ x.addr ≠ r.addr) :
    (s.commonInsertTuple r).Ok S ∧
      (s.commonInsertTuple r).primaryIndex.toList.Perm (r :: s.primaryIndex.toList) := by
  have hne : ∀ x ∈ s.primaryIndex.toList, ltRef s.key x r ∨ ltRef s.key r x := by
    intro x hx
    by_contra hboth
    rw [not_or, Bool.not_eq_true, Bool.not_eq_true] at hboth
    have hsame := (hnew x hx).1
    unfold sameKey at hsame
    rw [show keyedLt s.key x.tuple r.tuple = false from hboth.1,
      show keyedLt s.key r.tuple x.tuple = false from hboth.2] at hsame
    cases hsame
  have hprimary : (s.commonInsertTuple r).primaryIndex =
      insertEqual (ltRef s.key) r s.primaryIndex :=
    insertUnique_of_forall (Index.strictWeak_ltRef S s.key) h.sorted
      (h.typedOn s.key) ((S.typed _ ht).on s.key) hne
  have hperm := perm_insertEqual (ltRef s.key) r s.primaryIndex
  rw [hprimary]
  refine ⟨⟨fun x hx => ?_, ?_, ?_, ?_, fun ix hix => ?_⟩, hperm⟩
  · rw [hprimary] at hx
    rcases mem_cons.mp (hperm.mem_iff.mp hx) with rfl | hx
    · exact ht
    · exact h.stored x hx
  · rw [hprimary]
    exact sorted_insertEqual (Index.strictWeak_ltRef S s.key) h.sorted
      (h.typedOn s.key) ((S.typed _ ht).on s.key)
  · rw [hprimary]
    apply (hperm.pairwise_iff distinct_symm).mpr
    exact pairwise_cons.mpr ⟨fun x hx => distinct_symm (hnew x hx), h.distinct⟩
  · show ((s.indices.map fun ix => (ix.1, _)).map Prod.fst).Nodup
    rw [map_map]
    exact h.keys
  · obtain ⟨old, hold, rfl⟩ := mem_map.mp hix
    obtain ⟨hsorted, hperm'⟩ := h.indexed old hold
    rw [hprimary]
    refine ⟨sorted_insertEqual (Index.strictWeak_ltRef S old.1) hsorted
      (fun x hx => h.typedOn old.1 x (hperm'.mem_iff.mp hx)) ((S.typed _ ht).on old.1), ?_⟩
    exact (perm_insertEqual _ r old.2).trans ((hperm'.cons r).trans hperm.symm)

lemma Ok.remove (h : s.Ok S) (hr : r ∈ s.primaryIndex.toList) {primary : Index}
    (hperm : s.primaryIndex.toList.Perm (r :: primary.toList))
    (hsub : primary.toList.Sublist s.primaryIndex.toList) :
    Ok S { s.removeDerivatives r.tuple with primaryIndex := primary } := by
  refine ⟨fun x hx => h.stored x (hsub.subset hx), h.sorted.sublist hsub, h.distinct.sublist hsub,
    ?_, fun ix hix => ?_⟩
  · show ((s.indices.map fun ix => (ix.1, _)).map Prod.fst).Nodup
    rw [map_map]
    exact h.keys
  · obtain ⟨old, hold, rfl⟩ := mem_map.mp hix
    obtain ⟨hsorted, hperm'⟩ := h.indexed old hold
    obtain ⟨hgone, hsorted'⟩ := Index.eraseTuple_spec hsorted
      (fun x hx => h.stored x (hperm'.mem_iff.mp hx)) (hperm'.mem_iff.mpr hr)
      fun x hx hxr => h.eq_of_tuple (hperm'.mem_iff.mp hx) hr hxr
    exact ⟨hsorted', (hgone.symm.trans (hperm'.trans hperm)).cons_inv⟩

lemma Ok.eraseKeyed_spec (h : s.Ok S) (hr : r ∈ s.primaryIndex.toList) :
    s.primaryIndex.toList.Perm (r :: (s.primaryIndex.eraseKeyed s.key r.tuple).toList) ∧
      (s.primaryIndex.eraseKeyed s.key r.tuple).toList.Sublist s.primaryIndex.toList := by
  rw [Index.toList_eraseKeyed h.sorted h.typed (h.typedOn s.key r hr)]
  refine ⟨?_, filter_sublist⟩
  obtain ⟨before, after, hsplit⟩ := append_of_mem hr
  have hperm : s.primaryIndex.toList.Perm (r :: (before ++ after)) := by
    rw [hsplit]
    exact perm_middle
  have hself : sameKey s.key r.tuple r.tuple := sameKey_refl S.lawful (h.typed r hr) s.key
  have hkeep : ∀ l : List Ref, (∀ x ∈ l, x ∈ before ++ after) →
      l.filter (fun x => !sameKey s.key x.tuple r.tuple) = l := by
    intro l hl
    rw [filter_eq_self]
    intro x hx
    rw [(h.ne_of_perm hperm (hl x hx)).2]
    rfl
  rw [hsplit, filter_append, filter_cons_of_neg (by rw [hself]; decide),
    hkeep before fun x hx => mem_append_left _ hx,
    hkeep after fun x hx => mem_append_right _ hx]
  exact perm_middle

lemma erasePosition_spec (hfind : s.primaryIndex.findKey s.key t = some r) :
    s.primaryIndex.toList.Perm
        (r :: (s.primaryIndex.eraseIdx (s.primaryIndex.lower s.key t)).toList) ∧
      (s.primaryIndex.eraseIdx (s.primaryIndex.lower s.key t)).toList.Sublist
        s.primaryIndex.toList := by
  refine ⟨Index.perm_eraseIdx_lower hfind, ?_⟩
  rw [toList_eraseIdx]
  exact eraseIdx_sublist _ _

lemma Ok.mem_of_findKey (h : s.Ok S) (ht : Typed S.cols t)
    (hfind : s.primaryIndex.findKey s.key t = some r) :
    r ∈ s.primaryIndex.toList ∧ sameKey s.key r.tuple t :=
  Index.findKey_eq_some h.sorted h.typed (ht.on _) hfind

lemma Ok.new_of_findKey (h : s.Ok S) (ht : Typed S.cols t)
    (hfind : s.primaryIndex.findKey s.key t = none) :
    ∀ r ∈ s.primaryIndex.toList, sameKey s.key r.tuple t = false :=
  Index.findKey_eq_none h.sorted h.typed (ht.on _) hfind

lemma Ok.removeFlushed (h : s.Ok S) (hr : r ∈ s.primaryIndex.toList) :
    ((s.removeDerivatives r.tuple).erasePrimary r.tuple).Ok S ∧
      s.primaryIndex.toList.Perm
        (r :: ((s.removeDerivatives r.tuple).erasePrimary r.tuple).primaryIndex.toList) := by
  obtain ⟨hperm, hsub⟩ := h.eraseKeyed_spec hr
  exact ⟨h.remove hr hperm hsub, hperm⟩

lemma Ok.removeFound (h : s.Ok S) (ht : TypedOn S.cols s.key t)
    (hfind : s.primaryIndex.findKey s.key t = some r) :
    ((s.removeDerivatives r.tuple).erasePosition t).Ok S ∧
      s.primaryIndex.toList.Perm
        (r :: ((s.removeDerivatives r.tuple).erasePosition t).primaryIndex.toList) := by
  obtain ⟨hperm, hsub⟩ := erasePosition_spec hfind
  exact ⟨h.remove (Index.findKey_eq_some h.sorted h.typed ht hfind).1 hperm hsub, hperm⟩

lemma Ok.sameKey_removeFound (h : s.Ok S) (ht : t ∈ S.tuples)
    (hfind : s.primaryIndex.findKey s.key t = some r) :
    ∀ x ∈ ((s.removeDerivatives r.tuple).erasePosition t).primaryIndex.toList,
      sameKey s.key x.tuple t = false := by
  intro x hx
  have htyped := S.typed t ht
  obtain ⟨hr, hsame⟩ := h.mem_of_findKey htyped hfind
  obtain ⟨-, hperm⟩ := h.removeFound (htyped.on _) hfind
  have hmem : x ∈ s.primaryIndex.toList := hperm.mem_iff.mpr (mem_cons_of_mem _ hx)
  rw [← sameKey_congr S.lawful (h.typed r hr) htyped (h.typed x hmem) hsame]
  exact (h.ne_of_perm hperm hx).2

lemma Ok.secondaryIndex (h : s.Ok S) (key : Key) : (s.secondaryIndex key).Ok S := by
  unfold CommonTable.secondaryIndex
  split
  next hnone =>
    have hfresh : key ∉ s.indices.map Prod.fst := by
      intro hmem
      obtain ⟨ix, hix, rfl⟩ := mem_map.mp hmem
      exact absurd (lookup_eq_none_iff.mp hnone ix hix) (by simp)
    have hfill := foldl_insertEqual (t := .nil) (Index.strictWeak_ltRef S key)
      Pairwise.nil (forall_mem_nil _)
      (h.typedOn key)
    refine ⟨h.stored, h.sorted, h.distinct, ?_, fun ix hix => ?_⟩
    · show ((s.indices ++ [(key, _)]).map Prod.fst).Nodup
      rw [map_append, nodup_append]
      refine ⟨h.keys, nodup_singleton key, fun a ha b hb hab => ?_⟩
      rw [hab, mem_singleton.mp hb] at ha
      exact hfresh ha
    · rcases mem_append.mp hix with hix | hix
      · exact h.indexed ix hix
      · rw [mem_singleton.mp hix]
        rw [toList_nil, append_nil] at hfill
        exact hfill
  · exact h

lemma lookupProjected_snd (s : CommonTable) (lookupKey indexKey : Key) (t : Tuple) :
    ∃ entry, (s.lookupProjected lookupKey indexKey t).2 = { s with lookupSearchEntry := entry } := by
  unfold lookupProjected
  split_ifs
  · exact ⟨s.lookupSearchEntry, rfl⟩
  · exact ⟨s.lookupSearchEntry, rfl⟩
  · split
    · exact ⟨s.lookupSearchEntry, rfl⟩
    next entry _ => exact ⟨entry, rfl⟩

/-- A call that neither brings an entry nor takes one. -/
inductive Silent (s : CommonTable) : CommonTable → Prop
  | nothing : Silent s s
  | lookupProjected (lookupKey indexKey : Key) (t : Tuple) :
      Silent s (s.lookupProjected lookupKey indexKey t).2
  | secondaryIndex (key : Key) : Silent s (s.secondaryIndex key)
  | aggregate (groupBy : Key) (aggFieldNo : ℕ) (function : AggFunc) :
      Silent s (s.aggregate groupBy aggFieldNo function)
  | aggregateMkSet (groupBy : Key) (aggFieldNo : ℕ) :
      Silent s (s.aggregateMkSet groupBy aggFieldNo)

/-- What was there stays; an index or an aggregate may be new. -/
structure Frame (s s' : CommonTable) : Prop where
  key : s'.key = s.key
  faulted : s'.faulted = s.faulted
  primaryIndex : s'.primaryIndex = s.primaryIndex
  indices : s.indices <+: s'.indices
  aggregates : s.aggregates <+: s'.aggregates
  sets : s'.mkSets = s.mkSets ∧ s'.sets = s.sets ∨
    ∃ a, a.set = s.sets.length ∧ s'.mkSets = s.mkSets ++ [a] ∧ s'.sets = s.sets ++ [.nil]

lemma Frame.scan {s' : CommonTable} (h : Frame s s') : s'.scan = s.scan := by
  unfold CommonTable.scan
  rw [h.primaryIndex]

lemma frame_secondaryIndex (s : CommonTable) (key : Key) : Frame s (s.secondaryIndex key) := by
  unfold CommonTable.secondaryIndex
  split
  · exact ⟨rfl, rfl, rfl, prefix_append _ _, prefix_rfl, Or.inl ⟨rfl, rfl⟩⟩
  · exact ⟨rfl, rfl, rfl, prefix_rfl, prefix_rfl, Or.inl ⟨rfl, rfl⟩⟩

lemma Silent.frame {s' : CommonTable} (h : Silent s s') : Frame s s' := by
  cases h with
  | nothing => exact ⟨rfl, rfl, rfl, prefix_rfl, prefix_rfl, Or.inl ⟨rfl, rfl⟩⟩
  | lookupProjected lookupKey indexKey t =>
    obtain ⟨entry, hentry⟩ := s.lookupProjected_snd lookupKey indexKey t
    rw [hentry]
    exact ⟨rfl, rfl, rfl, prefix_rfl, prefix_rfl, Or.inl ⟨rfl, rfl⟩⟩
  | secondaryIndex key => exact s.frame_secondaryIndex key
  | aggregate groupBy =>
    exact { s.frame_secondaryIndex groupBy with aggregates := prefix_append _ _ }
  | aggregateMkSet groupBy =>
    exact { s.frame_secondaryIndex groupBy with sets := Or.inr ⟨_, rfl, rfl, rfl⟩ }

lemma Ok.silent (h : s.Ok S) {s' : CommonTable} (hsilent : Silent s s') : s'.Ok S := by
  cases hsilent with
  | nothing => exact h
  | lookupProjected lookupKey indexKey t =>
    obtain ⟨entry, hentry⟩ := s.lookupProjected_snd lookupKey indexKey t
    rw [hentry]
    exact h.congr rfl rfl rfl
  | secondaryIndex key => exact h.secondaryIndex key
  | aggregate groupBy => exact (h.secondaryIndex groupBy).congr rfl rfl rfl
  | aggregateMkSet groupBy => exact (h.secondaryIndex groupBy).congr rfl rfl rfl

/-! ## What queries return -/

lemma mem_indices_of_findSecondaryIndex {key : Key} {index : Index}
    (hindex : s.findSecondaryIndex key = some index) : (key, index) ∈ s.indices := by
  obtain ⟨before, after, heq, -⟩ := lookup_eq_some_iff.mp hindex
  rw [heq]
  exact mem_append_right _ mem_cons_self

lemma Ok.mem_of_findSecondaryIndex (h : s.Ok S) {key : Key} {index : Index}
    (hindex : s.findSecondaryIndex key = some index) (hr : r ∈ index.toList) :
    r ∈ s.primaryIndex.toList :=
  (h.indexed _ (mem_indices_of_findSecondaryIndex hindex)).2.mem_iff.mp hr

lemma Ok.mem_of_lookup (h : s.Ok S) {indexKey : Key} {u : Tuple}
    (hu : u ∈ (s.lookup indexKey t).getD []) : ∃ r ∈ s.primaryIndex.toList, r.tuple = u := by
  unfold lookup at hu
  split_ifs at hu
  · unfold lookupPrimary at hu
    split at hu
    · obtain ⟨r, hr, rfl⟩ := mem_map.mp hu
      exact ⟨r, mem_of_mem_range hr, rfl⟩
    · cases hu
  · rcases hindex : s.findSecondaryIndex indexKey with _ | index
    · rw [hindex] at hu
      cases hu
    · rw [hindex] at hu
      obtain ⟨r, hr, rfl⟩ := mem_map.mp hu
      exact ⟨r, h.mem_of_findSecondaryIndex hindex (mem_of_mem_range hr), rfl⟩

lemma Ok.mem_of_lookupProjected (h : s.Ok S) {lookupKey indexKey : Key} {u : Tuple}
    (hu : u ∈ (s.lookupProjected lookupKey indexKey t).1.getD []) :
    ∃ r ∈ s.primaryIndex.toList, r.tuple = u := by
  unfold lookupProjected at hu
  split_ifs at hu
  · cases hu
  · cases hu
  · split at hu
    · cases hu
    next entry _ =>
      have hentry : Ok S { s with lookupSearchEntry := entry } := h.congr rfl rfl rfl
      exact hentry.mem_of_lookup hu

lemma Ok.mem_of_scanKey (h : s.Ok S) {key : Key} {u : Tuple}
    (hu : u ∈ (s.scanKey key).getD []) : ∃ r ∈ s.primaryIndex.toList, r.tuple = u := by
  unfold scanKey at hu
  split_ifs at hu
  · exact mem_map.mp hu
  · rcases hindex : s.findSecondaryIndex key with _ | index
    · rw [hindex] at hu
      cases hu
    · rw [hindex] at hu
      obtain ⟨r, hr, rfl⟩ := mem_map.mp hu
      exact ⟨r, h.mem_of_findSecondaryIndex hindex hr, rfl⟩

end CommonTable

end P2.Table
