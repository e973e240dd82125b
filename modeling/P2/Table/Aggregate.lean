import P2.Table.AggFunc
import P2.Table.Lookup
import Mathlib.Data.List.Chain

/-!
# Aggregates track the table

An aggregate recomputes the result of a group whenever a tuple of the group comes or goes, and tells
its listeners if the result has changed: `aggregates_track`.
-/

namespace P2.Table

open P2.Value P2.Lib List SearchTree
open Option (some)

/-! ## Groups and notifications -/

def groupOf (key : Key) (t : Tuple) (live : List Tuple) : List Tuple :=
  live.filter (sameKey key · t)

def valuesOf (aggField : ℕ) (l : List Tuple) : List Value := l.filterMap (·.fields[aggField]?)

lemma equalRange_values {S : Schema} {key : Key} {index : Index} {c : Tuple} {aggField : ℕ}
    (hsorted : Sorted (ltRef key) index.toList) (hstored : ∀ r ∈ index.toList, r.tuple ∈ S.tuples)
    (hc : c ∈ S.tuples) :
    (index.equalRange key c).filterMap (fun r => r.tuple.fields[aggField]?) =
      valuesOf aggField (groupOf key c (index.toList.map (·.tuple))) := by
  rw [Index.equalRange_eq hsorted (fun r hr => S.typed _ (hstored r hr)) ((S.typed c hc).on key)]
  unfold valuesOf groupOf
  rw [filter_map, filterMap_map]
  rfl

/-! ## Results by group

Aggregates keep a result for a tuple that stands for its group. What the result is does not matter
here. -/

section Groups

variable {β : Type} {S : Schema} {key : Key}

lemma strictWeak_group (S : Schema) (key : Key) :
    StrictWeak (fun e f : Tuple × β => keyedLt key e.1 f.1) {e | TypedOn S.cols key e.1} :=
  (strictWeak_keyedLt S.lawful key).comap Prod.fst

variable {t : SearchTree (Tuple × β)} {c : Tuple}
  (hsorted : Sorted (fun e f : Tuple × β => keyedLt key e.1 f.1) t.toList)
  (hstored : ∀ e ∈ t.toList, e.1 ∈ S.tuples) (hc : c ∈ S.tuples)

include hsorted hstored hc

lemma find_group (result : β) :
    t.find (fun e => keyedLt key e.1 (c, result).1) (fun e => keyedLt key (c, result).1 e.1) =
      (t.toList.filter (sameKey key ·.1 c)).head? :=
  SearchTree.find_eq_head?_filter (strictWeak_group S key) hsorted
    (fun e he => (S.typed _ (hstored e he)).on key) ((S.typed c hc).on key)

lemma toList_eraseKey_group (result : β) :
    (t.eraseKey (fun e => keyedLt key e.1 (c, result).1)
      (fun e => keyedLt key (c, result).1 e.1)).toList =
        t.toList.filter fun e => !sameKey key e.1 c := by
  have herase := toList_eraseKey (k := (c, result)) (strictWeak_group S key) hsorted
    (fun e he => (S.typed _ (hstored e he)).on key) ((S.typed c hc).on key)
  refine Eq.trans herase (filter_congr fun e _ => ?_)
  unfold sameKey
  rw [Bool.not_and, Bool.not_not, Bool.not_not]

lemma insertUnique_group (result : β) (hne : ∀ e ∈ t.toList, sameKey key e.1 c = false) :
    Sorted (fun e f : Tuple × β => keyedLt key e.1 f.1)
        (t.insertUnique (fun e f => keyedLt key e.1 f.1) (c, result)).toList ∧
      (t.insertUnique (fun e f => keyedLt key e.1 f.1) (c, result)).toList.Perm
        ((c, result) :: t.toList) := by
  have hS := strictWeak_group (β := β) S key
  have hmem : ∀ e ∈ t.toList, TypedOn S.cols key e.1 := fun e he => (S.typed _ (hstored e he)).on key
  have hk : TypedOn S.cols key c := (S.typed c hc).on key
  have hapart : ∀ e ∈ t.toList, keyedLt key e.1 c ∨ keyedLt key c e.1 := by
    intro e he
    have hnot := hne e he
    unfold sameKey at hnot
    rw [Bool.and_eq_false_iff, Bool.not_eq_false', Bool.not_eq_false'] at hnot
    exact hnot
  rw [insertUnique_of_forall hS hsorted hmem hk hapart]
  exact ⟨sorted_insertEqual hS hsorted hmem hk, perm_insertEqual _ _ _⟩

end Groups

namespace AggregateObj

def belongs (key : Key) (t : Tuple) (notification : List Value) : Bool :=
  compareElements notification.dropLast (groupFields key t) == .eq

def Differ (first second : List Value) : Prop :=
  compareTo (first.getLastD .null) (second.getLastD .null) ≠ .eq

/-- What the listeners were told of a group: the last notification carries its key fields and the
result of the function over its tuples, and no two in a row carry the same value. -/
structure Reports (live : List Tuple) (t : Tuple) (a : AggregateObj) : Prop where
  last : ∃ fields v w, (a.sent.filter (belongs a.key t)).getLast? = some (fields ++ [v]) ∧
    compareElements fields (groupFields a.key t) = .eq ∧
    a.aggregateFn.IsResult (valuesOf a.aggField (groupOf a.key t live)) w ∧ compareTo v w = .eq
  changes : (a.sent.filter (belongs a.key t)).IsChain Differ

lemma compareElements_groupFields_iff {key : Key} {t u : Tuple} (ht : HasFields key t)
    (hu : HasFields key u) : compareElements (groupFields key t) (groupFields key u) = .eq ↔
      ∀ i ∈ key, ∀ a b, t.fields[i]? = some a → u.fields[i]? = some b → compareTo a b = .eq := by
  induction key with
  | nil => exact iff_of_true rfl fun i hi => absurd hi not_mem_nil
  | cons i key ih =>
    have hta := List.getElem?_eq_getElem (ht i mem_cons_self)
    have hub := List.getElem?_eq_getElem (hu i mem_cons_self)
    have ih := ih (fun j hj => ht j (mem_cons_of_mem i hj))
      (fun j hj => hu j (mem_cons_of_mem i hj))
    have hfields : ∀ {v : Tuple} {c : Value}, v.fields[i]? = some c →
        groupFields (i :: key) v = c :: groupFields key v := by
      intro v c hc
      unfold groupFields
      rw [filterMap_cons_some hc]
    rw [hfields hta, hfields hub, compareElements, Ordering.then_eq_eq, ih, forall_mem_cons]
    refine and_congr_left fun _ => ⟨fun heq a b ha hb => ?_, fun h => h _ _ hta hub⟩
    rw [hta, some.injEq] at ha
    rw [hub, some.injEq] at hb
    rwa [← ha, ← hb]

section Belongs

variable {S : Schema} {key : Key} (hkey : key ≠ []) (hfields : ∀ u ∈ S.tuples, HasFields key u)
  {t u : Tuple} (ht : t ∈ S.tuples) (hu : u ∈ S.tuples)

include hkey hfields ht hu

lemma compareElements_groupFields :
    compareElements (groupFields key t) (groupFields key u) = .eq ↔ sameKey key t u := by
  rw [compareElements_groupFields_iff (hfields t ht) (hfields u hu),
    sameKey_iff S.lawful hkey ((S.typed t ht).on key) ((S.typed u hu).on key) (hfields t ht)
      (hfields u hu)]

lemma belongs_iff (v : Value) : belongs key u (groupFields key t ++ [v]) ↔ sameKey key t u := by
  unfold belongs
  rw [dropLast_concat, beq_iff_eq]
  exact compareElements_groupFields hkey hfields ht hu

end Belongs

/-! ## The invariant -/

def Remembers (a : AggregateObj) (u : Tuple) : Prop :=
  ∃ e ∈ a.currentAggregates.toList, sameKey a.key e.1 u

structure Tracks (S : Schema) (live : List Tuple) (a : AggregateObj) : Prop where
  sorted : Sorted (ltGroup a.key) a.currentAggregates.toList
  stored : ∀ e ∈ a.currentAggregates.toList, e.1 ∈ S.tuples
  distinct : a.currentAggregates.toList.Pairwise fun e f => sameKey a.key e.1 f.1 = false
  remembered : ∀ u ∈ live, a.Remembers u
  holds : ∀ e ∈ a.currentAggregates.toList, ∃ w,
    a.aggregateFn.IsResult (valuesOf a.aggField (groupOf a.key e.1 live)) w ∧ compareTo e.2 w = .eq
  sentFor : ∀ n ∈ a.sent, ∃ c ∈ S.tuples, ∃ v, n = groupFields a.key c ++ [v] ∧ a.Remembers c
  last : ∀ e ∈ a.currentAggregates.toList,
    (a.sent.filter (belongs a.key e.1)).getLast? = some (groupFields a.key e.1 ++ [e.2])
  changes : ∀ t ∈ S.tuples, (a.sent.filter (belongs a.key t)).IsChain Differ

/-- From one list of live tuples to the next only the group of `c` changes, and only `c` is new. -/
structure Changed (S : Schema) (key : Key) (c : Tuple) (live live' : List Tuple) : Prop where
  others : ∀ u ∈ S.tuples, sameKey key u c = false →
    (groupOf key u live').Perm (groupOf key u live)
  new : ∀ u ∈ live', u ∈ live ∨ u = c
  stored : ∀ u ∈ live', u ∈ S.tuples

/-! ## An update -/

/-- The state of an aggregate after a new result for the group of `c`, if the remembered results are
now these. -/
def announce (c : Tuple) (result : Value) (current : SearchTree (Tuple × Value))
    (a : AggregateObj) : AggregateObj :=
  { a with currentAggregates := current, sent := a.sent ++ [groupFields a.key c ++ [result]] }

section Update

variable {S : Schema} {a : AggregateObj} {live live' : List Tuple} {c : Tuple} {result : Value}

lemma mem_iff_of_perm {current : SearchTree (Tuple × Value)}
    (hperm : current.toList.Perm
      ((c, result) :: a.currentAggregates.toList.filter fun e => !sameKey a.key e.1 c))
    (e : Tuple × Value) : e ∈ current.toList ↔
      e = (c, result) ∨ e ∈ a.currentAggregates.toList ∧ sameKey a.key e.1 c = false := by
  rw [hperm.mem_iff, mem_cons, mem_filter, Bool.not_eq_true']

lemma Remembers.announce (hstored : ∀ e ∈ a.currentAggregates.toList, e.1 ∈ S.tuples)
    (hc : c ∈ S.tuples) {current : SearchTree (Tuple × Value)}
    (hperm : current.toList.Perm
      ((c, result) :: a.currentAggregates.toList.filter fun e => !sameKey a.key e.1 c))
    {u : Tuple} (hu : Typed S.cols u) (h : a.Remembers u) :
    (a.announce c result current).Remembers u := by
  obtain ⟨e, he, heu⟩ := h
  by_cases hec : sameKey a.key e.1 c
  · exact ⟨(c, result), hperm.mem_iff.mpr mem_cons_self, sameKey_trans S.lawful (S.typed c hc)
      (S.typed _ (hstored e he)) hu (sameKey_symm hec) heu⟩
  · exact ⟨e, (mem_iff_of_perm hperm e).mpr (Or.inr ⟨he, Bool.eq_false_iff.mpr hec⟩), heu⟩

section Current

variable (hsorted : Sorted (ltGroup a.key) a.currentAggregates.toList)
  (hstored : ∀ e ∈ a.currentAggregates.toList, e.1 ∈ S.tuples) (hc : c ∈ S.tuples)

include hsorted hstored hc

lemma insertUnique_others (result : Value) {others : SearchTree (Tuple × Value)}
    (hothers : others.toList = a.currentAggregates.toList.filter fun e => !sameKey a.key e.1 c) :
    Sorted (ltGroup a.key) (others.insertUnique (ltGroup a.key) (c, result)).toList ∧
      (others.insertUnique (ltGroup a.key) (c, result)).toList.Perm
        ((c, result) :: a.currentAggregates.toList.filter fun e => !sameKey a.key e.1 c) := by
  rw [← hothers]
  refine insertUnique_group (S := S) ?_ ?_ hc result ?_
  · rw [hothers]
    exact hsorted.filter _
  · rw [hothers]
    exact fun e he => hstored e (mem_of_mem_filter he)
  · rw [hothers]
    exact fun e he => by simpa using (mem_filter.mp he).2

/-- **What an update does.** The remembered result of the group compares equal to the new one and
nothing happens, or the new one takes its place and is sent. -/
lemma update_cases (index : Index) :
    (∃ e ∈ a.currentAggregates.toList, sameKey a.key e.1 c ∧
      compareTo e.2 (a.resultFor index c) = .eq ∧ a.update index c = a) ∨
    ∃ current, a.update index c = a.announce c (a.resultFor index c) current ∧
      Sorted (ltGroup a.key) current.toList ∧
      current.toList.Perm ((c, a.resultFor index c) ::
        a.currentAggregates.toList.filter fun e => !sameKey a.key e.1 c) ∧
      ∀ e, (a.currentAggregates.toList.filter (sameKey a.key ·.1 c)).head? = some e →
        compareTo e.2 (a.resultFor index c) ≠ .eq := by
  have hfind : a.currentAggregates.find (ltGroup a.key · (c, Value.null))
      (ltGroup a.key (c, Value.null)) = _ := find_group hsorted hstored hc Value.null
  unfold AggregateObj.update
  simp only
  rw [hfind]
  split
  next hnone =>
    have hothers : a.currentAggregates.toList =
        a.currentAggregates.toList.filter fun e => !sameKey a.key e.1 c := by
      rw [head?_eq_none_iff, filter_eq_nil_iff] at hnone
      exact (filter_eq_self.mpr fun e he => by simpa using hnone e he).symm
    obtain ⟨hsorted', hperm⟩ := insertUnique_others hsorted hstored hc (a.resultFor index c) hothers
    refine Or.inr ⟨_, rfl, hsorted', hperm, fun e he => ?_⟩
    rw [hnone] at he
    cases he
  next e₀ hsome =>
    obtain ⟨he₀, hsame⟩ := mem_filter.mp (mem_of_head? hsome)
    split_ifs with heq
    · exact Or.inl ⟨e₀, he₀, hsame, heq, rfl⟩
    · have hothers : (a.forget c).currentAggregates.toList =
          a.currentAggregates.toList.filter fun e => !sameKey a.key e.1 c :=
        toList_eraseKey_group hsorted hstored hc Value.null
      obtain ⟨hsorted', hperm⟩ :=
        insertUnique_others hsorted hstored hc (a.resultFor index c) hothers
      refine Or.inr ⟨_, rfl, hsorted', hperm, fun e he => ?_⟩
      rw [← some.inj (hsome.symm.trans he)]
      exact heq

end Current

lemma groupOf_congr {key : Key} {t u : Tuple} (ht : Typed S.cols t) (hu : Typed S.cols u)
    (htu : sameKey key t u) {l : List Tuple} (hl : ∀ v ∈ l, v ∈ S.tuples) :
    groupOf key t l = groupOf key u l := by
  exact filter_congr fun v hv => sameKey_congr S.lawful ht hu (S.typed v (hl v hv)) htu

lemma isResult_resultFor {index : Index} (hsorted : Sorted (ltRef a.key) index.toList)
    (hindex : (index.toList.map (·.tuple)).Perm live') (hc : c ∈ S.tuples)
    (hlive : ∀ u ∈ live', u ∈ S.tuples) :
    a.aggregateFn.IsResult (valuesOf a.aggField (groupOf a.key c live')) (a.resultFor index c) ∧
      compareTo (a.resultFor index c) (a.resultFor index c) = .eq := by
  have hstored : ∀ r ∈ index.toList, r.tuple ∈ S.tuples := fun r hr =>
    hlive _ (hindex.mem_iff.mp (mem_map_of_mem hr))
  have hvalues : ∀ v ∈ valuesOf a.aggField (groupOf a.key c (index.toList.map (·.tuple))),
      v ∈ S.cols a.aggField := by
    intro v hv
    obtain ⟨u, hu, huv⟩ := mem_filterMap.mp hv
    obtain ⟨r, hr, rfl⟩ := mem_map.mp (mem_of_mem_filter hu)
    exact S.typed _ (hstored r hr) a.aggField v huv
  unfold resultFor
  rw [equalRange_values hsorted hstored hc]
  have hresult := AggFunc.isResult_compute (S.lawful a.aggField) a.aggregateFn hvalues
  exact ⟨hresult.perm ((hindex.filter _).filterMap _),
    hresult.compareTo_self (S.lawful a.aggField) hvalues⟩

lemma Tracks.eq_of_sameKey (h : Tracks S live a) (hc : c ∈ S.tuples) {e f : Tuple × Value}
    (he : e ∈ a.currentAggregates.toList) (hf : f ∈ a.currentAggregates.toList)
    (hec : sameKey a.key e.1 c) (hfc : sameKey a.key f.1 c) : e = f := by
  by_contra hne
  have hsymm : Std.Symm fun e f : Tuple × Value => sameKey a.key e.1 f.1 = false :=
    ⟨fun e f hef => by rwa [sameKey_comm]⟩
  exact Bool.eq_false_iff.mp (h.distinct.forall he hf hne) (sameKey_trans S.lawful
    (S.typed _ (h.stored e he)) (S.typed c hc) (S.typed _ (h.stored f hf)) hec (sameKey_symm hfc))

lemma Tracks.of_eq (h : Tracks S live a) (hc : c ∈ S.tuples)
    (hchanged : Changed S a.key c live live')
    (hresult : a.aggregateFn.IsResult (valuesOf a.aggField (groupOf a.key c live')) result)
    {e₀ : Tuple × Value} (he₀ : e₀ ∈ a.currentAggregates.toList) (hsame : sameKey a.key e₀.1 c)
    (heq : compareTo e₀.2 result = .eq) : Tracks S live' a := by
  refine ⟨h.sorted, h.stored, h.distinct, fun u hu => ?_, fun e he => ?_, h.sentFor, h.last,
    h.changes⟩
  · rcases hchanged.new u hu with hlive | rfl
    · exact h.remembered u hlive
    · exact ⟨e₀, he₀, hsame⟩
  · have het := S.typed _ (h.stored e he)
    by_cases hec : sameKey a.key e.1 c
    · rw [h.eq_of_sameKey hc he he₀ hec hsame] at het ⊢
      rw [groupOf_congr het (S.typed c hc) hsame hchanged.stored]
      exact ⟨result, hresult, heq⟩
    · obtain ⟨w, hw, hew⟩ := h.holds e he
      have hgroup := hchanged.others _ (h.stored e he) (Bool.eq_false_iff.mpr hec)
      exact ⟨w, hw.perm (hgroup.symm.filterMap _), hew⟩

variable (hkey : a.key ≠ []) (hfields : ∀ u ∈ S.tuples, HasFields a.key u)

include hkey hfields

lemma Tracks.filter_belongs (h : Tracks S live a) {t u : Tuple} (ht : t ∈ S.tuples)
    (hu : u ∈ S.tuples) (htu : sameKey a.key t u) :
    a.sent.filter (belongs a.key t) = a.sent.filter (belongs a.key u) := by
  refine filter_congr fun n hn => ?_
  obtain ⟨c, hc, v, rfl, -⟩ := h.sentFor n hn
  rw [Bool.eq_iff_iff, belongs_iff hkey hfields hc ht, belongs_iff hkey hfields hc hu,
    sameKey_congr S.lawful (S.typed t ht) (S.typed u hu) (S.typed c hc) htu]

lemma Tracks.announce (h : Tracks S live a) (hc : c ∈ S.tuples)
    (hchanged : Changed S a.key c live live')
    (hresult : a.aggregateFn.IsResult (valuesOf a.aggField (groupOf a.key c live')) result)
    (hself : compareTo result result = .eq)
    (hdiffer : ∀ e ∈ a.currentAggregates.toList, sameKey a.key e.1 c → compareTo e.2 result ≠ .eq)
    {current : SearchTree (Tuple × Value)} (hsorted : Sorted (ltGroup a.key) current.toList)
    (hperm : current.toList.Perm
      ((c, result) :: a.currentAggregates.toList.filter fun e => !sameKey a.key e.1 c)) :
    Tracks S live' (a.announce c result current) := by
  have hct := S.typed c hc
  have hmem := mem_iff_of_perm hperm
  have hcself : sameKey a.key c c := sameKey_refl S.lawful hct a.key
  have hnew : (c, result) ∈ current.toList := (hmem _).mpr (Or.inl rfl)
  have hkeep : ∀ {u}, Typed S.cols u → a.Remembers u → (a.announce c result current).Remembers u :=
    fun hu hrem => hrem.announce h.stored hc hperm hu
  refine ⟨hsorted, fun e he => ?_, ?_, fun u hu => ?_, fun e he => ?_, fun n hn => ?_,
    fun e he => ?_, fun t ht => ?_⟩
  · rcases (hmem e).mp he with rfl | ⟨he, -⟩
    · exact hc
    · exact h.stored e he
  · have hsymm : ∀ {e f : Tuple × Value}, sameKey a.key e.1 f.1 = false →
        sameKey a.key f.1 e.1 = false := fun hef => by rwa [sameKey_comm]
    apply (hperm.pairwise_iff hsymm).mpr
    refine pairwise_cons.mpr ⟨fun e he => ?_, h.distinct.filter _⟩
    exact hsymm (by simpa using (mem_filter.mp he).2)
  · rcases hchanged.new u hu with hlive | rfl
    · exact hkeep (S.typed u (hchanged.stored u hu)) (h.remembered u hlive)
    · exact ⟨_, hnew, hcself⟩
  · rcases (hmem e).mp he with rfl | ⟨he, hec⟩
    · exact ⟨result, hresult, hself⟩
    · obtain ⟨w, hw, hew⟩ := h.holds e he
      exact ⟨w, hw.perm ((hchanged.others _ (h.stored e he) hec).symm.filterMap _), hew⟩
  · rcases mem_append.mp hn with hn | hn
    · obtain ⟨c', hc', v, rfl, hrem⟩ := h.sentFor n hn
      exact ⟨c', hc', v, rfl, hkeep (S.typed c' hc') hrem⟩
    · rw [mem_singleton.mp hn]
      exact ⟨c, hc, result, rfl, _, hnew, hcself⟩
  · show ((a.sent ++ [_]).filter (belongs a.key e.1)).getLast? = some (groupFields a.key e.1 ++ [e.2])
    rw [filter_append]
    rcases (hmem e).mp he with rfl | ⟨he, hec⟩
    · have hbelongs := (belongs_iff hkey hfields hc hc result).mpr hcself
      rw [filter_cons_of_pos hbelongs, filter_nil, getLast?_concat]
    · have hnot : ¬ belongs a.key e.1 (groupFields a.key c ++ [result]) := by
        rw [belongs_iff hkey hfields hc (h.stored e he), sameKey_comm, hec]
        exact Bool.false_ne_true
      rw [filter_cons_of_neg hnot, filter_nil, append_nil]
      exact h.last e he
  · show ((a.sent ++ [_]).filter (belongs a.key t)).IsChain Differ
    rw [filter_append]
    by_cases hbelongs : belongs a.key t (groupFields a.key c ++ [result])
    · rw [filter_cons_of_pos hbelongs]
      refine isChain_append.mpr ⟨h.changes t ht, isChain_singleton _, ?_⟩
      rintro m hm n hn
      rw [← some.inj hn]
      -- the last notification of the group is the one of the remembered result
      have hct' := (belongs_iff hkey hfields hc ht result).mp hbelongs
      have hmfilter := mem_filter.mp (mem_of_getLast? hm)
      obtain ⟨c', hc', v, rfl, e, he, hec'⟩ := h.sentFor m hmfilter.1
      have hc't := (belongs_iff hkey hfields hc' ht v).mp hmfilter.2
      have hes := h.stored e he
      have het := sameKey_trans S.lawful (S.typed _ hes) (S.typed c' hc') (S.typed t ht) hec' hc't
      rw [← h.filter_belongs hkey hfields hes ht het, h.last e he] at hm
      rw [← some.inj hm, Differ, getLastD_concat, getLastD_concat]
      exact hdiffer e he (sameKey_trans S.lawful (S.typed _ hes) (S.typed t ht) hct het
        (sameKey_symm hct'))
    · rw [filter_cons_of_neg hbelongs, filter_nil, append_nil]
      exact h.changes t ht

lemma Tracks.update (h : Tracks S live a) (hc : c ∈ S.tuples)
    (hchanged : Changed S a.key c live live') {index : Index}
    (hsorted : Sorted (ltRef a.key) index.toList)
    (hindex : (index.toList.map (·.tuple)).Perm live') :
    Tracks S live' (a.update index c) ∧
      ∀ u, Typed S.cols u → a.Remembers u → (a.update index c).Remembers u := by
  obtain ⟨hresult, hself⟩ := isResult_resultFor hsorted hindex hc hchanged.stored
  rcases update_cases h.sorted h.stored hc index with ⟨e₀, he₀, hsame, heq, hupdate⟩ |
    ⟨current, hupdate, hsorted', hperm, hdiffer⟩
  · rw [hupdate]
    exact ⟨h.of_eq hc hchanged hresult he₀ hsame heq, fun u _ hrem => hrem⟩
  · rw [hupdate]
    refine ⟨h.announce hkey hfields hc hchanged hresult hself (fun e he hec => ?_) hsorted' hperm,
      fun u hu hrem => hrem.announce h.stored hc hperm hu⟩
    -- there is only one remembered result of the group
    have hne : a.currentAggregates.toList.filter (sameKey a.key ·.1 c) ≠ [] :=
      ne_nil_of_mem (mem_filter.mpr ⟨he, hec⟩)
    have hhead := head?_eq_some_head hne
    obtain ⟨hmem, hsame⟩ := mem_filter.mp (head_mem hne)
    rw [h.eq_of_sameKey hc he hmem hec hsame]
    exact hdiffer _ hhead

end Update

/-! ## Reports -/

section Reports

variable {S : Schema} {a : AggregateObj} {live : List Tuple} {t u : Tuple} (hkey : a.key ≠ [])
  (hfields : ∀ u ∈ S.tuples, HasFields a.key u)

include hkey hfields

lemma Tracks.reports (h : Tracks S live a) (hlive : ∀ u ∈ live, u ∈ S.tuples) (ht : t ∈ S.tuples)
    (hrem : a.Remembers t) : a.Reports live t := by
  obtain ⟨e, he, het⟩ := hrem
  have hes := h.stored e he
  obtain ⟨w, hw, hew⟩ := h.holds e he
  refine ⟨⟨groupFields a.key e.1, e.2, w, ?_, ?_, ?_, hew⟩, h.changes t ht⟩
  · rw [← h.filter_belongs hkey hfields hes ht het]
    exact h.last e he
  · exact (compareElements_groupFields hkey hfields hes ht).mpr het
  · rwa [← groupOf_congr (S.typed _ hes) (S.typed t ht) het hlive]

end Reports

end AggregateObj

/-! ## Moves -/

namespace CommonTable

open AggregateObj

variable {S : Schema} {s s' : CommonTable} {n : ℕ} {a a' : AggregateObj}

structure Follows (S : Schema) (n : ℕ) (s : CommonTable) (a : AggregateObj) : Prop where
  place : s.aggregates[n]? = some a
  index : s.HasIndex a.key
  tracks : a.Tracks S s.scan

structure Later (S : Schema) (a a' : AggregateObj) : Prop where
  key : a'.key = a.key
  aggField : a'.aggField = a.aggField
  aggregateFn : a'.aggregateFn = a.aggregateFn
  remembers : ∀ u, Typed S.cols u → a.Remembers u → a'.Remembers u

lemma Later.refl (S : Schema) (a : AggregateObj) : Later S a a := ⟨rfl, rfl, rfl, fun _ _ h => h⟩

lemma Later.trans {a'' : AggregateObj} (h : Later S a a') (h' : Later S a' a'') :
    Later S a a'' :=
  ⟨h'.key.trans h.key, h'.aggField.trans h.aggField, h'.aggregateFn.trans h.aggregateFn,
    fun u hu hrem => h'.remembers u hu (h.remembers u hu hrem)⟩

lemma changed_of_perm {key : Key} {c : Tuple} {live live' : List Tuple}
    (hperm : live'.Perm (c :: live) ∨ live.Perm (c :: live')) (hlive : ∀ u ∈ live', u ∈ S.tuples) :
    Changed S key c live live' := by
  have hskip : ∀ {l : List Tuple} {u : Tuple}, sameKey key u c = false →
      groupOf key u (c :: l) = groupOf key u l := by
    intro l u huc
    exact filter_cons_of_neg (by rw [sameKey_comm, huc]; exact Bool.false_ne_true)
  refine ⟨fun u _ huc => ?_, fun u hu => ?_, hlive⟩
  · rcases hperm with hperm | hperm
    · have hgroup := hperm.filter (sameKey key · u)
      rwa [show (c :: live).filter (sameKey key · u) = groupOf key u live from hskip huc] at hgroup
    · have hgroup := hperm.filter (sameKey key · u)
      rw [show (c :: live').filter (sameKey key · u) = groupOf key u live' from hskip huc] at hgroup
      exact hgroup.symm
  · rcases hperm with hperm | hperm
    · exact (mem_cons.mp (hperm.mem_iff.mp hu)).symm
    · exact Or.inl (hperm.mem_iff.mpr (mem_cons_of_mem c hu))

lemma constants_update (index : Index) (c : Tuple) (a : AggregateObj) :
    (a.update index c).key = a.key ∧ (a.update index c).aggField = a.aggField ∧
      (a.update index c).aggregateFn = a.aggregateFn := by
  unfold AggregateObj.update
  simp only
  split
  · exact ⟨rfl, rfl, rfl⟩
  · split_ifs
    · exact ⟨rfl, rfl, rfl⟩
    · exact ⟨rfl, rfl, rfl⟩

lemma later_update (index : Index) (c : Tuple)
    (hrem : ∀ u, Typed S.cols u → a.Remembers u → (a.update index c).Remembers u) :
    Later S a (a.update index c) := by
  obtain ⟨hkey, haggField, hfunction⟩ := constants_update index c a
  exact ⟨hkey, haggField, hfunction, hrem⟩

lemma Follows.update (hkey : a.key ≠ []) (hfields : ∀ u ∈ S.tuples, HasFields a.key u)
    (h : Follows S n s a) (hok : s'.Ok S) (hindex : s'.HasIndex a.key) {c : Tuple}
    (hc : c ∈ S.tuples) (hchanged : Changed S a.key c s.scan s'.scan)
    (haggregates : s'.aggregates =
      s.aggregates.map fun a => a.update ((s'.findSecondaryIndex a.key).getD .nil) c) :
    ∃ a', Follows S n s' a' ∧ Later S a a' := by
  obtain ⟨index, hfind⟩ := hindex.exists_index
  obtain ⟨hsorted, hperm⟩ := hok.indexed _ (mem_indices_of_findSecondaryIndex hfind)
  obtain ⟨htracks, hrem⟩ := h.tracks.update hkey hfields hc hchanged hsorted (hperm.map _)
  have hlater := later_update index c hrem
  refine ⟨a.update index c, ⟨?_, ?_, htracks⟩, hlater⟩
  · rw [haggregates, List.getElem?_map, h.place, Option.map_some, hfind]
    rfl
  · rw [hlater.key]
    exact hindex

lemma Follows.move (hkey : a.key ≠ []) (hfields : ∀ u ∈ S.tuples, HasFields a.key u) (hok : s.Ok S)
    (h : Follows S n s a) (hmove : Move S s s') : ∃ a', Follows S n s' a' ∧ Later S a a' := by
  have hok' := hok.move hmove
  have hindex := h.index.move hmove
  rcases hmove with ⟨ht, hnew⟩ | ⟨hr, hperm, _⟩ | hsilent
  · have hscan := (hok.insert ht hnew).2.map Ref.tuple
    exact h.update hkey hfields hok' hindex ht (changed_of_perm (Or.inl hscan) hok'.scan_mem) rfl
  · exact h.update hkey hfields hok' hindex (hok.stored _ hr)
      (changed_of_perm (Or.inr (hperm.map Ref.tuple)) hok'.scan_mem) rfl
  · have hframe := hsilent.frame
    refine ⟨a, ⟨?_, hindex, hframe.scan ▸ h.tracks⟩, Later.refl S a⟩
    obtain ⟨new, hnew⟩ := hframe.aggregates
    rw [← hnew, List.getElem?_append_left (List.getElem?_eq_some_iff.mp h.place).1]
    exact h.place

lemma Follows.moves (hkey : a.key ≠ []) (hfields : ∀ u ∈ S.tuples, HasFields a.key u)
    (hok : s.Ok S) (h : Follows S n s a) (hmoves : Moves S s s') :
    ∃ a', Follows S n s' a' ∧ Later S a a' := by
  refine (hok.moves_induction (P := fun s' => ∃ a', Follows S n s' a' ∧ Later S a a') hmoves
    ?_ ⟨a, h, Later.refl S a⟩).2
  rintro s₁ s₂ hok₁ ⟨a₁, hfollows, hlater⟩ hmove
  obtain ⟨a₂, hfollows₂, hlater₂⟩ := hfollows.move (hlater.key ▸ hkey) (hlater.key ▸ hfields) hok₁
    hmove
  exact ⟨a₂, hfollows₂, hlater.trans hlater₂⟩

lemma follows_aggregate (S : Schema) (groupBy : Key) (aggField : ℕ) (function : AggFunc)
    (hempty : s.scan = []) :
    Follows S s.aggregates.length (s.aggregate groupBy aggField function)
      { key := groupBy, aggField := aggField, aggregateFn := function } := by
  refine ⟨List.getElem?_concat_length, ?_, ?_⟩
  · exact hasIndex_secondaryIndex s groupBy
  · rw [(Silent.aggregate groupBy aggField function).frame.scan, hempty]
    exact ⟨Pairwise.nil, forall_mem_nil _, Pairwise.nil, forall_mem_nil _, forall_mem_nil _,
      forall_mem_nil _, forall_mem_nil _,
      fun _ _ => isChain_nil⟩

lemma Follows.remembers (hkey : a.key ≠ []) (hok : s.Ok S) (h : Follows S n s a) {r : Ref}
    (hr : r ∈ s.primaryIndex.toList) {t : Tuple} (ht : t ∈ S.tuples) (heq : r.tuple.compareTo t = .eq) : a.Remembers t := by
  have hrs := hok.stored r hr
  obtain ⟨e, he, her⟩ := h.tracks.remembered _ (mem_map_of_mem hr)
  exact ⟨e, he, sameKey_trans S.lawful (S.typed _ (h.tracks.stored e he)) (S.typed _ hrs)
    (S.typed t ht) her (sameKey_of_compareTo_eq S.lawful hkey (S.typed _ hrs) (S.typed t ht) heq)⟩

lemma Follows.turn (hkey : a.key ≠ []) (hfields : ∀ u ∈ S.tuples, HasFields a.key u) (hok : s.Ok S)
    (h : Follows S n s a) {given new : Option Tuple} (hgiven : ∀ t ∈ given, t ∈ S.tuples)
    (hturn : Turn S given new s s') :
    ∃ a', Follows S n s' a' ∧ Later S a a' ∧ ∀ t ∈ given, a'.Remembers t := by
  obtain ⟨s₁, hbefore, hequal, hafter⟩ := hturn.moves
  obtain ⟨a₁, hfollows₁, hlater₁⟩ := h.moves hkey hfields hok hbefore
  obtain ⟨a', hfollows', hlater'⟩ :=
    hfollows₁.moves (hlater₁.key ▸ hkey) (hlater₁.key ▸ hfields) (hok.moves hbefore) hafter
  refine ⟨a', hfollows', hlater₁.trans hlater', fun t ht => ?_⟩
  obtain ⟨r, hr, heq⟩ := hequal t ht
  exact hlater'.remembers t (S.typed t (hgiven t ht))
    (hfollows₁.remembers (hlater₁.key ▸ hkey) (hok.moves hbefore) hr (hgiven t ht) heq)

/-- The aggregate created when the table had `n` of them has told its listeners of the group of the
tuple. -/
def Informs (n : ℕ) (groupBy : Key) (aggField : ℕ) (function : AggFunc) (t : Tuple)
    (s : CommonTable) : Prop :=
  ∃ a, s.aggregates[n]? = some a ∧ a.key = groupBy ∧ a.aggField = aggField ∧
    a.aggregateFn = function ∧ a.Reports s.scan t

lemma Follows.informs (hkey : a.key ≠ []) (hfields : ∀ u ∈ S.tuples, HasFields a.key u)
    (hok : s.Ok S) (h : Follows S n s a') (hlater : Later S a a') {t : Tuple} (ht : t ∈ S.tuples)
    (hrem : a'.Remembers t) : s.Informs n a.key a.aggField a.aggregateFn t :=
  ⟨a', h.place, hlater.key, hlater.aggField, hlater.aggregateFn,
    h.tracks.reports (hlater.key ▸ hkey) (hlater.key ▸ hfields) hok.scan_mem ht hrem⟩

end CommonTable

open CommonTable (Follows Later)

/-! ## Runs -/

namespace Variant

variable {S : Schema} (K : Variant S) {n : ℕ} {a : AggregateObj} {s : K.State} {ops : List K.Op}

lemma follows_run (hkey : a.key ≠ []) (hfields : ∀ u ∈ S.tuples, HasFields a.key u) (h : K.Ok s)
    (hfollows : Follows S n (K.common s) a) (hops : Throughout K.step K.Admits s ops) :
    ∃ a', Follows S n (K.common (ops.foldl K.step s)) a' ∧ Later S a a' ∧
      ∀ op ∈ ops, ∀ t ∈ K.given op, a'.Remembers t := by
  induction ops generalizing s a with
  | nil => exact ⟨a, hfollows, Later.refl S a, forall_mem_nil _⟩
  | cons op ops ih =>
    have hgiven := K.mem_tuples hops.1
    obtain ⟨a₁, hfollows₁, hlater₁, hnew₁⟩ :=
      hfollows.turn hkey hfields (K.ok_common h) hgiven (K.turn h hops.1)
    obtain ⟨a', hfollows', hlater', hnew'⟩ := ih (hlater₁.key ▸ hkey) (hlater₁.key ▸ hfields)
      (K.ok_step h hops.1) hfollows₁ hops.2
    refine ⟨a', hfollows', hlater₁.trans hlater', forall_mem_cons.mpr ⟨fun t ht => ?_, hnew'⟩⟩
    exact hlater'.remembers t (S.typed t (hgiven t ht)) (hnew₁ t ht)

/-- An aggregate that was created on an empty table, after more calls. -/
lemma informs_run {groupBy : Key} {aggField : ℕ} {function : AggFunc} (hgroup : groupBy ≠ [])
    (hfields : ∀ u ∈ S.tuples, HasFields groupBy u) (h : K.Ok s) {c : CommonTable}
    (hempty : c.scan = []) (hs : K.common s = c.aggregate groupBy aggField function)
    (hops : Throughout K.step K.Admits s ops) : ∀ op ∈ ops, ∀ t ∈ K.given op,
      (K.common (ops.foldl K.step s)).Informs c.aggregates.length groupBy aggField function t := by
  intro op hop t ht
  have hstart := CommonTable.follows_aggregate S groupBy aggField function hempty
  rw [← hs] at hstart
  obtain ⟨a, hfollows, hlater, hnew⟩ := K.follows_run hgroup hfields h hstart hops
  have hstored : ∀ op ∈ ops, ∀ t ∈ K.given op, t ∈ S.tuples :=
    hops.of_mem fun _ _ hop => K.mem_tuples hop
  exact hfollows.informs hgroup hfields (K.ok_common (K.run h hops).1) hlater (hstored op hop t ht)
    (hnew op hop t ht)

end Variant

/-- **Aggregates track the table.** In every run of a table of either kind no loop runs off the end of
an index, and an aggregate that was created on the empty table has told its listeners, for every group
of which a tuple was inserted, the result of its function over the current tuples of the group, and has
told them of changes only.
Hyps: `hgroup` says that the group-by key is not empty; `hfields` that stored tuples have its fields
and the aggregated one -/
theorem aggregates_track (S : Schema) (groupBy : Key) (aggField : ℕ) (function : AggFunc)
    (hgroup : groupBy ≠ [])
    (hfields : ∀ u ∈ S.tuples, HasFields groupBy u ∧ aggField < u.fields.length) :
    (∀ key maxSize lifetime before after,
      Table2.AdmissibleRun S (Table2.mk' key maxSize lifetime)
        (before ++ .aggregate groupBy aggField function :: after) →
      ∀ s, s = (Table2.mk' key maxSize lifetime).run before → s.common.scan = [] →
        ∀ s', s' = s.run (.aggregate groupBy aggField function :: after) →
          s'.common.faulted = false ∧ ∀ clock t, .insert clock t ∈ after →
            s'.common.Informs s.common.aggregates.length groupBy aggField function t) ∧
    (∀ key before after,
      (∀ op ∈ before ++ .aggregate groupBy aggField function :: after, RefTable.Op.Within S op) →
      ∀ s, s = (RefTable.mk' key).run before → s.common.scan = [] →
        ∀ s', s' = s.run (.aggregate groupBy aggField function :: after) →
          s'.common.faulted = false ∧ ∀ t, .insert t ∈ after →
            s'.common.Informs s.common.aggregates.length groupBy aggField function t) := by
  have hfields' : ∀ u ∈ S.tuples, HasFields groupBy u := fun u hu => (hfields u hu).1
  constructor
  · rintro key maxSize lifetime before after hops s rfl hempty s' rfl
    obtain ⟨hbefore, haggregate, hafter⟩ := throughout_append.mp hops
    have hstart := Table2.ok_mk' S key maxSize lifetime
    have hok := (hstart.run hbefore).step haggregate
    refine ⟨?_, fun clock t ht => ?_⟩
    · have hmoves := hstart.moves_run hops
      rw [Table2.run, foldl_append] at hmoves
      exact CommonTable.faulted_of_moves hmoves
    · exact (Table2.variant S).informs_run hgroup hfields' hok hempty rfl hafter _ ht t rfl
  · rintro key before after hops s rfl hempty s' rfl
    obtain ⟨hbefore, hrest⟩ := forall_mem_append.mp hops
    obtain ⟨haggregate, hafter⟩ := forall_mem_cons.mp hrest
    have hok := ((RefTable.ok_mk' S key).run hbefore).1.step haggregate
    refine ⟨?_, fun t ht => ?_⟩
    · have hmoves := ((RefTable.ok_mk' S key).run hops).2
      rw [RefTable.run, foldl_append] at hmoves
      exact CommonTable.faulted_of_moves hmoves
    · exact (RefTable.variant S).informs_run hgroup hfields' hok hempty rfl (throughout_of_mem hafter) _
        ht t rfl

theorem aggregates_track_sampleOps :
    ((Table2.mk' [0] 2 (.ticks 10)).run
      (.aggregate [1] 0 .MIN :: Table2.sampleOps)).common.Informs 0 [1] 0 .MIN (Table2.row 33) ∧
    ((RefTable.mk' [0]).run [.aggregate [1] 0 .MIN, .insert (Table2.row 21),
      .insert (Table2.row 11), .remove (Table2.row 11)]).common.Informs 0 [1] 0 .MIN
        (Table2.row 11) := by
  have hfields : ∀ u ∈ Table2.rows.tuples, HasFields [1] u ∧ 0 < u.fields.length := by
    rintro _ ⟨n, rfl⟩
    exact ⟨hasFields_row (by decide) n, Nat.zero_lt_two⟩
  obtain ⟨hTable2, hRefTable⟩ := aggregates_track Table2.rows [1] 0 .MIN (by decide) hfields
  constructor
  · refine (hTable2 [0] 2 (.ticks 10) [] Table2.sampleOps ?_ _ rfl rfl _ rfl).2 ⟨5, 5, 6⟩ _ ?_
    · apply Table2.admissibleRun_of_length
      · exact forall_mem_cons.mpr ⟨trivial, Table2.within_sampleOps⟩
      · decide
    · simp [Table2.sampleOps]
  · refine (hRefTable [0] [] _ ?_ _ rfl rfl _ rfl).2 _ (by simp)
    simp only [nil_append, forall_mem_cons, RefTable.Op.Within, Table2.row_mem_rows,
      true_and]
    exact ⟨Table2.rows.typed _ (Table2.row_mem_rows 11),
      forall_mem_nil _⟩

/-! ## With values that do not compare lawfully -/

/-- The upper bound of the list in the index is before its lower bound, which is the end: the loop of
`AggregateObj::update` reads behind the index, and nothing is told of the tuple of the list. -/
theorem aggregate_miscounts_list :
    (Table2.mk' [0] 0 .posInfin).common.scan = [] ∧
    .insert ⟨0, 0, 0⟩ (mixed 2 (.list [])) ∈ mixedOps ∧
    ((Table2.mk' [0] 0 .posInfin).run (.aggregate [1] 0 .COUNT :: mixedOps)).common.faulted :=
  ⟨rfl, by simp [mixedOps], by decide⟩

end P2.Table
