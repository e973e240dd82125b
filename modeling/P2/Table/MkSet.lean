import P2.Table.Aggregate

/-!
# Aggregates that collect sets

The function `MKSET` has one `Set` object for all groups. Every result refers to it, so that filling
it for one group changes the results that were sent before, and a remembered result is compared with
itself. `mkSet_reports` says what is sent.
-/

namespace P2.Table

open P2.Value P2.Lib List Option SearchTree
open AggregateObj (groupFields compareElements_groupFields)

/-! ## What listeners rely on -/

def SameSet (L M : List Value) : Prop :=
  (∀ x ∈ L, ∃ y ∈ M, compareTo x y = .eq) ∧ ∀ y ∈ M, ∃ x ∈ L, compareTo x y = .eq

def SetNotification.belongs (key : Key) (t : Tuple) (notification : SetNotification) : Bool :=
  compareElements notification.fields (groupFields key t) == .eq

namespace CommonTable

/-- The sets that the aggregate sent have the elements that they had when they were sent. -/
def SetsIntact (n : ℕ) (s : CommonTable) : Prop :=
  ∃ a, s.mkSets[n]? = some a ∧
    ∀ notification ∈ a.sent, SameSet (s.sets.elements notification.set) notification.read

/-- The last set that the aggregate sent for the group of a tuple had, when it was sent, the values
of the tuples that are in the group now. -/
def ReportsSet (n : ℕ) (groupBy : Key) (aggField : ℕ) (t : Tuple) (s : CommonTable) : Prop :=
  ∃ a notification, s.mkSets[n]? = some a ∧ a.key = groupBy ∧ a.aggField = aggField ∧
    (a.sent.filter (·.belongs groupBy t)).getLast? = some notification ∧
    SameSet notification.read (valuesOf aggField (groupOf groupBy t s.scan))

/-- From one state to the next a tuple of the group leaves, or the tuple that comes is of the group. -/
def Touched (groupBy : Key) (new : Option Tuple) (s s' : CommonTable) (t : Tuple) : Prop :=
  (∃ r ∈ s.primaryIndex.toList, r ∉ s'.primaryIndex.toList ∧ sameKey groupBy r.tuple t) ∨
    ∃ u ∈ new, sameKey groupBy u t

/-- Of every group that has a tuple one stays, and the group of the tuple that comes has one at the
end. -/
def Keeps (groupBy : Key) (new : Option Tuple) (s s' : CommonTable) : Prop :=
  (∀ u ∈ s.scan, ∃ v ∈ s'.scan, some v ≠ new ∧ sameKey groupBy v u) ∧
    ∀ u ∈ new, ∃ v ∈ s'.scan, sameKey groupBy v u

end CommonTable

/-! ## One object -/

def StoredValues (S : Schema) (aggField : ℕ) (L : List Value) : Prop :=
  L ≠ [] ∧ ∀ x ∈ L, ∃ u ∈ S.tuples, u.fields[aggField]? = some x

def EqualValues (S : Schema) (aggField : ℕ) : Prop :=
  ∀ u ∈ S.tuples, ∀ u' ∈ S.tuples, ∀ v v', u.fields[aggField]? = some v →
    u'.fields[aggField]? = some v' → compareTo v v' = .eq

section Values

variable {S : Schema} {aggField : ℕ} {L M : List Value}

lemma StoredValues.sameSet (hequal : EqualValues S aggField) (hL : StoredValues S aggField L)
    (hM : StoredValues S aggField M) : SameSet L M := by
  have heq {x y : Value} (hx : x ∈ L) (hy : y ∈ M) : compareTo x y = .eq := by
    obtain ⟨u, hu, hux⟩ := hL.2 x hx
    obtain ⟨v, hv, hvy⟩ := hM.2 y hy
    exact hequal u hu v hv x y hux hvy
  obtain ⟨x, hx⟩ := exists_mem_of_ne_nil L hL.1
  obtain ⟨y, hy⟩ := exists_mem_of_ne_nil M hM.1
  exact ⟨fun x' hx' => ⟨y, hy, heq hx' hy⟩, fun y' hy' => ⟨x, hx, heq hx hy'⟩⟩

lemma StoredValues.compareElements_self (hequal : EqualValues S aggField)
    (hL : StoredValues S aggField L) : compareElements L L = .eq := by
  refine Table.compareElements_self fun x hx => ?_
  obtain ⟨u, hu, hux⟩ := hL.2 x hx
  exact hequal u hu u hu x x hux hux

lemma storedValues_group (hfields : ∀ u ∈ S.tuples, aggField < u.fields.length) {key : Key}
    {live : List Tuple} (hlive : ∀ u ∈ live, u ∈ S.tuples) {t v : Tuple} (hv : v ∈ live)
    (hvt : sameKey key v t) : StoredValues S aggField (valuesOf aggField (groupOf key t live)) := by
  constructor
  · have hvalue := List.getElem?_eq_getElem (hfields v (hlive v hv))
    exact ne_nil_of_mem
      (mem_filterMap.mpr ⟨v, mem_filter.mpr ⟨hv, hvt⟩, hvalue⟩)
  · intro x hx
    obtain ⟨u, hu, hux⟩ := mem_filterMap.mp hx
    exact ⟨u, hlive u (mem_of_mem_filter hu), hux⟩

end Values

namespace SetStore

variable {sets : SetStore} {p q : SetPtr}

lemma insert_set (sets : SetStore) (p : SetPtr) (tree : SearchTree Value) (v : Value) :
    insert p (sets.set p tree) v = sets.set p (tree.insertUnique comparator v) := by
  apply ext_getElem?
  intro i
  unfold insert
  rw [List.getElem?_modify, List.getElem?_set, List.getElem?_set]
  split_ifs <;> simp

lemma foldl_insert (sets : SetStore) (p : SetPtr) (tree : SearchTree Value) (vs : List Value) :
    vs.foldl (insert p) (sets.set p tree) =
      sets.set p (vs.foldl (fun t v => t.insertUnique comparator v) tree) := by
  induction vs generalizing tree with
  | nil => rfl
  | cons v vs ih => rw [foldl_cons, insert_set, ih, foldl_cons]

lemma elements_of_getElem? {tree : SearchTree Value} (h : sets[p]? = some tree) :
    sets.elements p = tree.toList := by
  unfold elements
  rw [getD_eq_getElem?_getD, h]
  rfl

end SetStore

namespace MkSetObj

def contents (index : Index) (c : Tuple) (a : MkSetObj) : SearchTree Value :=
  ((index.equalRange a.key c).filterMap fun r => r.tuple.fields[a.aggField]?).foldl
    (fun t v => t.insertUnique comparator v) .nil

section Update

variable {S : Schema} {a : MkSetObj} {sets : SetStore} {c : Tuple}

lemma collect_eq (index : Index) (c : Tuple) (sets : SetStore) (a : MkSetObj) :
    a.collect index c sets = sets.set a.set (a.contents index c) :=
  SetStore.foldl_insert sets a.set .nil _

lemma update_fst (index : Index) (c : Tuple) (sets : SetStore) (a : MkSetObj) :
    (a.update index c sets).1 = sets.set a.set (a.contents index c) := by
  rw [← collect_eq]
  unfold MkSetObj.update
  simp only
  split
  · rfl
  · split_ifs <;> rfl

lemma set_update (index : Index) (c : Tuple) (sets : SetStore) (a : MkSetObj) :
    (a.update index c sets).2.set = a.set := by
  unfold MkSetObj.update
  simp only
  split
  · rfl
  · split_ifs <;> rfl

lemma storedValues_contents (hfields : ∀ u ∈ S.tuples, a.aggField < u.fields.length)
    {index : Index} (hsorted : Sorted (ltRef a.key) index.toList)
    {live : List Tuple} (hindex : (index.toList.map (·.tuple)).Perm live)
    (hlive : ∀ u ∈ live, u ∈ S.tuples) (hc : c ∈ S.tuples) {v : Tuple} (hv : v ∈ live)
    (hvc : sameKey a.key v c) : StoredValues S a.aggField (a.contents index c).toList := by
  have hstored : ∀ u ∈ index.toList.map (·.tuple), u ∈ S.tuples :=
    fun u hu => hlive u (hindex.mem_iff.mp hu)
  have hvalues := storedValues_group hfields hstored (hindex.mem_iff.mpr hv) hvc
  have hcolumn : ∀ x ∈ valuesOf a.aggField (groupOf a.key c (index.toList.map (·.tuple))),
      x ∈ S.cols a.aggField := by
    intro x hx
    obtain ⟨u, hu, hux⟩ := hvalues.2 x hx
    exact S.typed u hu a.aggField x hux
  have hnil : Representatives comparator nil ([] : List Value) :=
    ⟨Pairwise.nil, fun _ ha => ha, Pairwise.nil, forall_mem_nil _⟩
  have hreps := representatives_foldl (S.lawful a.aggField).strictWeak hnil
    (forall_mem_nil _) hcolumn
  unfold contents
  rw [equalRange_values hsorted (fun r hr => hstored _ (mem_map_of_mem hr)) hc]
  obtain ⟨x, hx⟩ := exists_mem_of_ne_nil _ hvalues.1
  obtain ⟨y, hy, -⟩ := hreps.covers x hx
  exact ⟨ne_nil_of_mem hy, fun z hz => hvalues.2 z (hreps.subset z hz)⟩

def Told (S : Schema) (a : MkSetObj) (t : Tuple) : Prop :=
  ∃ notification ∈ a.sent, ∃ u ∈ S.tuples, notification.fields = groupFields a.key u ∧
    sameKey a.key u t

lemma Told.trans {t u : Tuple} (h : a.Told S u) (hu : u ∈ S.tuples) (ht : t ∈ S.tuples)
    (hut : sameKey a.key u t) : a.Told S t := by
  obtain ⟨notification, hsent, v, hv, hfields, hvu⟩ := h
  exact ⟨notification, hsent, v, hv, hfields,
    sameKey_trans S.lawful (S.typed v hv) (S.typed u hu) (S.typed t ht) hvu hut⟩

/-- All results are the object of the function, and whenever one was sent the object held values of
stored tuples. -/
structure OneObject (S : Schema) (a : MkSetObj) : Prop where
  sorted : Sorted (ltGroup a.key) a.currentAggregates.toList
  stored : ∀ e ∈ a.currentAggregates.toList, e.1 ∈ S.tuples
  object : ∀ e ∈ a.currentAggregates.toList, e.2 = a.set
  told : ∀ e ∈ a.currentAggregates.toList, a.Told S e.1
  sent : ∀ notification ∈ a.sent, notification.set = a.set ∧
    StoredValues S a.aggField notification.read

structure Later (S : Schema) (a a' : MkSetObj) : Prop where
  key : a'.key = a.key
  aggField : a'.aggField = a.aggField
  set : a'.set = a.set
  told : ∀ t, a.Told S t → a'.Told S t

lemma Later.refl (S : Schema) (a : MkSetObj) : Later S a a := ⟨rfl, rfl, rfl, fun _ h => h⟩

lemma Later.trans {a' a'' : MkSetObj} (h : Later S a a') (h' : Later S a' a'') : Later S a a'' :=
  ⟨h'.key.trans h.key, h'.aggField.trans h.aggField, h'.set.trans h.set,
    fun t ht => h'.told t (h.told t ht)⟩

lemma OneObject.update (hequal : EqualValues S a.aggField) (h : a.OneObject S) (hc : c ∈ S.tuples)
    (hset : a.set < sets.length) {index : Index}
    (hcontents : StoredValues S a.aggField (a.contents index c).toList) :
    (a.update index c sets).2.OneObject S ∧ Later S a (a.update index c sets).2 ∧
      (a.update index c sets).2.Told S c := by
  have hcself : sameKey a.key c c := sameKey_refl S.lawful (S.typed c hc) a.key
  have helements : (a.collect index c sets).elements a.set = (a.contents index c).toList := by
    apply SetStore.elements_of_getElem?
    rw [collect_eq, List.getElem?_set_self hset]
  have hfind : a.currentAggregates.find (ltGroup a.key · (c, a.set)) (ltGroup a.key (c, a.set)) = _ :=
    find_group h.sorted h.stored hc a.set
  unfold MkSetObj.update
  simp only
  rw [hfind]
  split
  next hnone =>
    rw [head?_eq_none_iff, filter_eq_nil_iff] at hnone
    obtain ⟨hsorted, hperm⟩ := insertUnique_group h.sorted h.stored hc a.set
      fun e he => Bool.eq_false_iff.mpr (hnone e he)
    have hmem : ∀ e ∈ (a.currentAggregates.insertUnique (ltGroup a.key) (c, a.set)).toList,
        e = (c, a.set) ∨ e ∈ a.currentAggregates.toList :=
      fun e he => mem_cons.mp (hperm.mem_iff.mp he)
    have hold : ∀ t, a.Told S t →
        (a.remember c a.set (a.collect index c sets)).Told S t := by
      rintro t ⟨notification, hsent, hrest⟩
      exact ⟨notification, mem_append_left _ hsent, hrest⟩
    have hnew : (a.remember c a.set (a.collect index c sets)).Told S c :=
      ⟨_, mem_append_right _ (mem_singleton_self _), c, hc, rfl, hcself⟩
    refine ⟨⟨hsorted, fun e he => ?_, fun e he => ?_, fun e he => ?_, fun m hm => ?_⟩,
      ⟨rfl, rfl, rfl, hold⟩, hnew⟩
    · rcases hmem e he with rfl | he
      · exact hc
      · exact h.stored e he
    · rcases hmem e he with rfl | he
      · rfl
      · exact h.object e he
    · rcases hmem e he with rfl | he
      · exact hnew
      · exact hold _ (h.told e he)
    · rcases mem_append.mp hm with hm | hm
      · exact h.sent m hm
      · rw [mem_singleton.mp hm]
        refine ⟨rfl, ?_⟩
        rw [helements]
        exact hcontents
  next e hsome =>
    obtain ⟨he, hec⟩ := mem_filter.mp (mem_of_head? hsome)
    rw [h.object e he, helements, if_pos (hcontents.compareElements_self hequal)]
    exact ⟨h, Later.refl S a, (h.told e he).trans (h.stored e he) hc hec⟩

/-- **One after the other.** If each aggregate has its own object, an update of all of them updates
each and fills its object. -/
lemma updateAll_spec (index : Key → Index) (c : Tuple) {as : List MkSetObj} {sets : SetStore} {k : ℕ}
    (hlength : sets.length = k + as.length)
    (hown : ∀ i a, as[i]? = some a → a.set = k + i) :
    (updateAll index c sets as).1.length = sets.length ∧
      (updateAll index c sets as).2.length = as.length ∧
      (∀ j < k, (updateAll index c sets as).1[j]? = sets[j]?) ∧
      ∀ i a, as[i]? = some a → ∃ sets' : SetStore, sets'.length = sets.length ∧
        (updateAll index c sets as).2[i]? = some (a.update (index a.key) c sets').2 ∧
        (updateAll index c sets as).1[k + i]? = some (a.contents (index a.key) c) := by
  induction as generalizing sets k with
  | nil => exact ⟨rfl, rfl, fun _ _ => rfl, fun i a ha => absurd ha (by simp)⟩
  | cons b as ih =>
    have hb : b.set = k := hown 0 b rfl
    have hfirst : (b.update (index b.key) c sets).1 = sets.set k (b.contents (index b.key) c) := by
      rw [update_fst, hb]
    have hk : k < sets.length := by
      rw [hlength, length_cons]
      omega
    have hlength' : (b.update (index b.key) c sets).1.length = k + 1 + as.length := by
      rw [hfirst, length_set, hlength, length_cons]
      omega
    have hown' : ∀ i a, as[i]? = some a → a.set = k + 1 + i := by
      intro i a ha
      rw [hown (i + 1) a ha]
      omega
    obtain ⟨hsets, has, hbefore, hall⟩ := ih hlength' hown'
    have hsame : (b.update (index b.key) c sets).1.length = sets.length := by
      rw [hfirst, length_set]
    refine ⟨hsets.trans hsame, congrArg (· + 1) has, fun j hj => ?_, fun i a ha => ?_⟩
    · refine (hbefore j (by omega)).trans ?_
      rw [hfirst, List.getElem?_set_ne (by omega)]
    · rcases i with _ | i
      · obtain rfl : b = a := some.inj ha
        refine ⟨sets, rfl, rfl, (hbefore k (Nat.lt_succ_self k)).trans ?_⟩
        rw [hfirst, List.getElem?_set_self hk]
      · obtain ⟨sets', hsets', hplace, hobject⟩ := hall i a ha
        refine ⟨sets', hsets'.trans hsame, hplace, ?_⟩
        rw [show k + (i + 1) = k + 1 + i by omega]
        exact hobject

end Update

end MkSetObj

/-! ## Moves -/

namespace CommonTable

def OwnSets (s : CommonTable) : Prop :=
  s.sets.length = s.mkSets.length ∧ ∀ i (a : MkSetObj), s.mkSets[i]? = some a → a.set = i

/-- The aggregate at a place of the table is oneObject, and its object holds values of stored tuples
once something was sent. -/
structure Collects (S : Schema) (n : ℕ) (s : CommonTable) (a : MkSetObj) : Prop where
  own : s.OwnSets
  place : s.mkSets[n]? = some a
  index : s.HasIndex a.key
  oneObject : a.OneObject S
  holds : a.sent ≠ [] → StoredValues S a.aggField (s.sets.elements n)

variable {S : Schema} {s s' : CommonTable} {n : ℕ} {a : MkSetObj}

lemma OwnSets.frame (h : s.OwnSets) (hframe : Frame s s') : s'.OwnSets := by
  unfold OwnSets
  rcases hframe.sets with ⟨hmkSets, hsets⟩ | ⟨new, hset, hmkSets, hsets⟩
  · rw [hmkSets, hsets]
    exact h
  · rw [hmkSets, hsets, length_append, length_append, h.1]
    refine ⟨rfl, fun i a ha => ?_⟩
    rcases Nat.lt_or_ge i s.mkSets.length with hi | hi
    · rw [List.getElem?_append_left hi] at ha
      exact h.2 i a ha
    · rw [List.getElem?_append_right hi, List.getElem?_singleton] at ha
      split_ifs at ha with hzero
      rw [← some.inj ha, hset, h.1]
      exact Nat.le_antisymm hi (Nat.sub_eq_zero_iff_le.mp hzero)

lemma OwnSets.update (h : s.OwnSets) (index : Key → Index) (c : Tuple)
    (hsets : s'.sets = (MkSetObj.updateAll index c s.sets s.mkSets).1)
    (hmkSets : s'.mkSets = (MkSetObj.updateAll index c s.sets s.mkSets).2) : s'.OwnSets := by
  obtain ⟨hsets', hmkSets', -, hall⟩ := MkSetObj.updateAll_spec (k := 0) index c
    (by rw [h.1, Nat.zero_add]) (by simpa using h.2)
  refine ⟨by rw [hsets, hmkSets, hsets', hmkSets', h.1], fun i a' ha' => ?_⟩
  rw [hmkSets] at ha'
  have hi : i < s.mkSets.length := hmkSets' ▸ (List.getElem?_eq_some_iff.mp ha').1
  obtain ⟨sets', -, hplace, -⟩ := hall i _ (List.getElem?_eq_getElem hi)
  rw [← some.inj (hplace.symm.trans ha'), MkSetObj.set_update]
  exact h.2 i _ (List.getElem?_eq_getElem hi)

lemma Collects.frame (h : Collects S n s a) (hframe : Frame s s') : Collects S n s' a := by
  have hn : n < s.mkSets.length := (List.getElem?_eq_some_iff.mp h.place).1
  obtain ⟨hmkSets, hsets⟩ : s'.mkSets[n]? = s.mkSets[n]? ∧ s'.sets[n]? = s.sets[n]? := by
    rcases hframe.sets with ⟨hmkSets, hsets⟩ | ⟨new, -, hmkSets, hsets⟩
    · rw [hmkSets, hsets]
      exact ⟨rfl, rfl⟩
    · rw [hmkSets, hsets]
      exact ⟨List.getElem?_append_left hn, List.getElem?_append_left (h.own.1 ▸ hn)⟩
  refine ⟨h.own.frame hframe, hmkSets.trans h.place, h.index.frame hframe, h.oneObject,
    fun hsent => ?_⟩
  have hholds := h.holds hsent
  unfold SetStore.elements at hholds ⊢
  rwa [getD_eq_getElem?_getD, hsets]

section OneObject

variable (hequal : EqualValues S a.aggField) (hfields : ∀ u ∈ S.tuples, a.aggField < u.fields.length)

include hequal hfields

lemma Collects.update (h : Collects S n s a) (hok : s'.Ok S) (hindex : s'.HasIndex a.key) {c : Tuple}
    (hc : c ∈ S.tuples) {v : Tuple} (hv : v ∈ s'.scan) (hvc : sameKey a.key v c)
    (hsets : s'.sets = (MkSetObj.updateAll (fun key => (s'.findSecondaryIndex key).getD .nil) c
      s.sets s.mkSets).1)
    (hmkSets : s'.mkSets = (MkSetObj.updateAll (fun key => (s'.findSecondaryIndex key).getD .nil) c
      s.sets s.mkSets).2) :
    ∃ a', Collects S n s' a' ∧ MkSetObj.Later S a a' ∧ a'.Told S c := by
  obtain ⟨index, hfind⟩ := hindex.exists_index
  obtain ⟨hsorted, hperm⟩ := hok.indexed _ (mem_indices_of_findSecondaryIndex hfind)
  have hcontents := MkSetObj.storedValues_contents hfields hsorted (hperm.map _) hok.scan_mem hc hv hvc
  obtain ⟨-, -, -, hall⟩ := MkSetObj.updateAll_spec (k := 0)
    (fun key => (s'.findSecondaryIndex key).getD .nil) c (by rw [h.own.1, Nat.zero_add])
    (by simpa using h.own.2)
  obtain ⟨sets', hsets', hplace, hobject⟩ := hall n a h.place
  simp only [hfind, getD_some, Nat.zero_add] at hplace hobject
  have hset : a.set < sets'.length := by
    rw [hsets', h.own.1, h.own.2 n a h.place]
    exact (List.getElem?_eq_some_iff.mp h.place).1
  obtain ⟨honeObject, hlater, htold⟩ := h.oneObject.update hequal hc hset hcontents
  refine ⟨_, ⟨h.own.update _ c hsets hmkSets, ?_, ?_, honeObject, fun _ => ?_⟩, hlater, htold⟩
  · rw [hmkSets]
    exact hplace
  · rw [hlater.key]
    exact hindex
  · rw [hlater.aggField, hsets, SetStore.elements_of_getElem? hobject]
    exact hcontents

/-- **A move that leaves no group without tuples keeps the aggregate oneObject**, and the groups of the
tuples that leave are told. -/
lemma Collects.move (hok : s.Ok S) (h : Collects S n s a) (hmove : Move S s s')
    (hkeeps : ∀ u ∈ s.scan, ∃ v ∈ s'.scan, sameKey a.key v u) :
    ∃ a', Collects S n s' a' ∧ MkSetObj.Later S a a' ∧
      ∀ r ∈ s.primaryIndex.toList, r ∉ s'.primaryIndex.toList → a'.Told S r.tuple := by
  have hok' := hok.move hmove
  have hindex := h.index.move hmove
  rcases hmove with ⟨ht, hnew⟩ | ⟨hr, hperm, hsub⟩ | hsilent
  · rename_i r
    have hprimary := (hok.insert ht hnew).2
    have hlive : r.tuple ∈ (s.commonInsertTuple r).scan :=
      mem_map_of_mem (hprimary.mem_iff.mpr mem_cons_self)
    obtain ⟨a', hcollects, hlater, -⟩ := h.update hequal hfields hok' hindex ht hlive
      (sameKey_refl S.lawful (S.typed _ ht) _) rfl rfl
    refine ⟨a', hcollects, hlater, fun r' hr' hnot => absurd ?_ hnot⟩
    exact hprimary.mem_iff.mpr (mem_cons_of_mem r hr')
  · rename_i r primary
    obtain ⟨v, hv, hvr⟩ := hkeeps _ (mem_map_of_mem hr)
    obtain ⟨a', hcollects, hlater, htold⟩ :=
      h.update hequal hfields hok' hindex (hok.stored r hr) hv hvr rfl rfl
    refine ⟨a', hcollects, hlater, fun r' hr' hnot => ?_⟩
    rcases mem_cons.mp (hperm.mem_iff.mp hr') with rfl | hr'
    · exact htold
    · exact absurd hr' hnot
  · have hframe := hsilent.frame
    refine ⟨a, h.frame hframe, MkSetObj.Later.refl S a, fun r hr hnot => absurd hr ?_⟩
    rwa [hframe.primaryIndex] at hnot

lemma Collects.shrinks (hok : s.Ok S) (h : Collects S n s a) (hshrinks : Shrinks S s s')
    {live : Set Tuple} (hlive : ∀ v ∈ live, v ∈ s'.scan)
    (hkeeps : ∀ u ∈ s.scan, ∃ v ∈ live, sameKey a.key v u) :
    s'.Ok S ∧ ∃ a', Collects S n s' a' ∧ MkSetObj.Later S a a' ∧
      ∀ r ∈ s.primaryIndex.toList, r ∉ s'.primaryIndex.toList → a'.Told S r.tuple := by
  induction hshrinks with
  | refl => exact ⟨hok, a, h, MkSetObj.Later.refl S a, fun r hr hnot => absurd hr hnot⟩
  | @tail s₁ s₂ hbefore hstep ih =>
    obtain ⟨hok₁, a₁, hcollects₁, hlater₁, htold₁⟩ := ih fun v hv => hstep.2.subset (hlive v hv)
    have hkeeps₁ : ∀ u ∈ s₁.scan, ∃ v ∈ s₂.scan, sameKey a₁.key v u := by
      intro u hu
      obtain ⟨v, hv, hvu⟩ := hkeeps u ((Shrinks.scan_sublist hbefore).subset hu)
      rw [hlater₁.key]
      exact ⟨v, hlive v hv, hvu⟩
    obtain ⟨a₂, hcollects₂, hlater₂, htold₂⟩ := hcollects₁.move (hlater₁.aggField ▸ hequal)
      (hlater₁.aggField ▸ hfields) hok₁ hstep.1 hkeeps₁
    refine ⟨hok₁.move hstep.1, a₂, hcollects₂, hlater₁.trans hlater₂, fun r hr hnot => ?_⟩
    by_cases hr₁ : r ∈ s₁.primaryIndex.toList
    · exact htold₂ r hr₁ hnot
    · exact hlater₂.told _ (htold₁ r hr hr₁)

lemma Collects.turn (hok : s.Ok S) (h : Collects S n s a) {given new : Option Tuple}
    (hturn : Turn S given new s s')
    (hkeeps : Keeps a.key new s s') :
    ∃ a', Collects S n s' a' ∧ MkSetObj.Later S a a' ∧
      (∀ r ∈ s.primaryIndex.toList, r ∉ s'.primaryIndex.toList → a'.Told S r.tuple) ∧
      ∀ u ∈ new, a'.Told S u := by
  obtain ⟨s₀, s₁, hbefore, hcomes, -, hafter⟩ := hturn
  have hsub := (Shrinks.scan_sublist hafter).subset
  rcases hcomes with ⟨rfl, rfl⟩ | ⟨t, -, rfl, hcomes⟩
  · -- nothing comes
    have hkeep : ∀ u ∈ s.scan, ∃ v ∈ s'.scan, sameKey a.key v u := by
      intro u hu
      obtain ⟨v, hv, -, hvu⟩ := hkeeps.1 u hu
      exact ⟨v, hv, hvu⟩
    obtain ⟨-, a', hcollects, hlater, htold⟩ :=
      h.shrinks hequal hfields hok (hbefore.trans hafter) (fun v hv => hv) hkeep
    exact ⟨a', hcollects, hlater, htold, fun u hu => absurd hu (not_mem_none u)⟩
  · -- a tuple that stays through the call is there before the new one comes
    have hold : ∀ v ∈ s'.scan, v ≠ t → v ∈ s₀.scan := fun v hv hne =>
      (mem_cons.mp (hcomes.perm.mem_iff.mp (hsub hv))).resolve_left hne
    have hkeep : ∀ u ∈ s.scan, ∃ v ∈ {v | v ∈ s'.scan ∧ v ≠ t}, sameKey a.key v u := by
      intro u hu
      obtain ⟨v, hv, hne, hvu⟩ := hkeeps.1 u hu
      exact ⟨v, ⟨hv, fun heq => hne (congrArg some heq)⟩, hvu⟩
    obtain ⟨hok₀, a₀, hcollects₀, hlater₀, htold₀⟩ :=
      h.shrinks hequal hfields hok hbefore (fun v hv => hold v hv.1 hv.2) hkeep
    -- the new tuple comes
    obtain ⟨addr, hs₁, hperm⟩ := hcomes.entry
    have hlive : t ∈ s₁.scan := hcomes.perm.mem_iff.mpr mem_cons_self
    have hok₁ := hok₀.move hcomes.move
    have ht : t ∈ S.tuples := hok₁.scan_mem t hlive
    obtain ⟨a₁, hcollects₁, hlater₁, htold₁⟩ := hcollects₀.update (hlater₀.aggField ▸ hequal)
      (hlater₀.aggField ▸ hfields) hok₁ (hcollects₀.index.move hcomes.move) ht hlive
      (sameKey_refl S.lawful (S.typed t ht) _) (by rw [hs₁]; rfl) (by rw [hs₁]; rfl)
    have hlater := hlater₀.trans hlater₁
    -- and others leave
    have hkeep₁ : ∀ u ∈ s₁.scan, ∃ v ∈ {v | v ∈ s'.scan}, sameKey a₁.key v u := by
      intro u hu
      rw [hlater.key]
      rcases mem_cons.mp (hcomes.perm.mem_iff.mp hu) with rfl | hu
      · exact hkeeps.2 u rfl
      · obtain ⟨v, hv, -, hvu⟩ := hkeeps.1 u ((Shrinks.scan_sublist hbefore).subset hu)
        exact ⟨v, hv, hvu⟩
    obtain ⟨-, a', hcollects', hlater', htold'⟩ := hcollects₁.shrinks (hlater.aggField ▸ hequal)
      (hlater.aggField ▸ hfields) hok₁ hafter (fun v hv => hv) hkeep₁
    refine ⟨a', hcollects', hlater.trans hlater', fun r hr hnot => ?_, fun u hu => ?_⟩
    · by_cases hr₀ : r ∈ s₀.primaryIndex.toList
      · exact htold' r (hperm.mem_iff.mpr (mem_cons_of_mem _ hr₀)) hnot
      · exact hlater'.told _ (hlater₁.told _ (htold₀ r hr hr₀))
    · rw [← some.inj hu]
      exact hlater'.told _ htold₁

end OneObject

lemma collects_aggregateMkSet (S : Schema) (hown : s.OwnSets) (groupBy : Key) (aggField : ℕ) :
    Collects S s.mkSets.length (s.aggregateMkSet groupBy aggField)
      { key := groupBy, aggField := aggField, set := s.sets.length } :=
  ⟨hown.frame (Silent.aggregateMkSet groupBy aggField).frame, List.getElem?_concat_length,
    hasIndex_secondaryIndex s groupBy,
    ⟨Pairwise.nil, forall_mem_nil _, forall_mem_nil _, forall_mem_nil _, forall_mem_nil _⟩,
    fun h => absurd rfl h⟩

lemma OwnSets.move (h : s.OwnSets) (hmove : Move S s s') : s'.OwnSets := by
  rcases hmove with ⟨ht, hnew⟩ | ⟨hr, hperm, hsub⟩ | hsilent
  · exact h.update _ _ rfl rfl
  · exact h.update _ _ rfl rfl
  · exact h.frame hsilent.frame

lemma ownSets_of_moves {key : Key} (hmoves : Moves S (mk' key) s) : s.OwnSets := by
  have hstart : (mk' key).OwnSets := ⟨rfl, fun i a ha => absurd ha (by simp [mk'])⟩
  exact ((ok_mk' S key).moves_induction (P := OwnSets) hmoves (fun _ h hmove => h.move hmove) hstart).2

lemma Collects.setsIntact (hequal : EqualValues S a.aggField) (h : Collects S n s a) :
    s.SetsIntact n := by
  refine ⟨a, h.place, fun m hm => ?_⟩
  obtain ⟨hset, hread⟩ := h.oneObject.sent m hm
  rw [hset, h.own.2 n a h.place]
  exact (h.holds (ne_nil_of_mem hm)).sameSet hequal hread

lemma Collects.reportsSet (hequal : EqualValues S a.aggField) (hkey : a.key ≠ [])
    (hfields : ∀ u ∈ S.tuples, HasFields a.key u ∧ a.aggField < u.fields.length) (hok : s.Ok S)
    (h : Collects S n s a) {t : Tuple} (ht : t ∈ S.tuples) (htold : a.Told S t) {v : Tuple}
    (hv : v ∈ s.scan) (hvt : sameKey a.key v t) : s.ReportsSet n a.key a.aggField t := by
  obtain ⟨m, hm, u, hu, hmu, hut⟩ := htold
  have hbelongs : m.belongs a.key t := by
    unfold SetNotification.belongs
    rw [hmu, beq_iff_eq]
    exact (compareElements_groupFields hkey (fun u hu => (hfields u hu).1) hu ht).mpr hut
  have hne : a.sent.filter (·.belongs a.key t) ≠ [] := ne_nil_of_mem (mem_filter.mpr ⟨hm, hbelongs⟩)
  refine ⟨a, (a.sent.filter (·.belongs a.key t)).getLast hne, h.place, rfl, rfl,
    getLast?_eq_some_getLast hne, ?_⟩
  have hlast := h.oneObject.sent _ (mem_of_mem_filter (getLast_mem hne))
  exact hlast.2.sameSet hequal
    (storedValues_group (fun u hu => (hfields u hu).2) hok.scan_mem hv hvt)

lemma Collects.turn_reports (hequal : EqualValues S a.aggField) (hkey : a.key ≠ [])
    (hfields : ∀ u ∈ S.tuples, HasFields a.key u ∧ a.aggField < u.fields.length) (hok : s.Ok S)
    (hok' : s'.Ok S) (h : Collects S n s a) {given new : Option Tuple}
    (hturn : Turn S given new s s')
    (hkeeps : Keeps a.key new s s') : ∃ a', Collects S n s' a' ∧ MkSetObj.Later S a a' ∧
      ∀ t ∈ S.tuples, Touched a.key new s s' t → s'.ReportsSet n a.key a.aggField t := by
  obtain ⟨a', hcollects, hlater, hleft, hnew⟩ :=
    h.turn hequal (fun u hu => (hfields u hu).2) hok hturn hkeeps
  refine ⟨a', hcollects, hlater, fun t ht htouched => ?_⟩
  -- a tuple of the group is told, and another one is still there
  obtain ⟨u, hu, hut, htold, v, hv, hvu⟩ : ∃ u ∈ S.tuples, sameKey a.key u t ∧ a'.Told S u ∧
      ∃ v ∈ s'.scan, sameKey a.key v u := by
    rcases htouched with ⟨r, hr, hnot, hrt⟩ | ⟨u, hu, hut⟩
    · obtain ⟨v, hv, -, hvr⟩ := hkeeps.1 r.tuple (mem_map_of_mem hr)
      exact ⟨r.tuple, hok.stored r hr, hrt, hleft r hr hnot, v, hv, hvr⟩
    · obtain ⟨v, hv, hvu⟩ := hkeeps.2 u hu
      exact ⟨u, hturn.mem hok hu, hut, hnew u hu, v, hv, hvu⟩
  have hvt := sameKey_trans S.lawful (S.typed v (hok'.scan_mem v hv)) (S.typed u hu) (S.typed t ht)
    hvu hut
  rw [← hlater.key] at hut hvt hkey ⊢
  rw [← hlater.aggField] at hequal ⊢
  refine hcollects.reportsSet hequal hkey ?_ hok' ht (htold.trans hu ht hut) hv hvt
  rw [hlater.key, hlater.aggField]
  exact hfields

end CommonTable

open CommonTable (Collects Keeps Touched)

/-! ## Runs -/

def Table2.KeepsGroups (groupBy : Key) (s : Table2) (op : Table2.Op) : Prop :=
  s.common.Keeps groupBy (s.entering op) (s.step op).common

def RefTable.KeepsGroups (groupBy : Key) (s : RefTable) (op : RefTable.Op) : Prop :=
  s.common.Keeps groupBy (s.entering op) (s.step op).common

namespace Variant

variable {S : Schema} (K : Variant S) {s : K.State}

def KeepsGroups (groupBy : Key) (s : K.State) (op : K.Op) : Prop :=
  (K.common s).Keeps groupBy (K.entering s op) (K.common (K.step s op))

lemma collects_run {n : ℕ} {a : MkSetObj} {ops : List K.Op} (hequal : EqualValues S a.aggField)
    (hfields : ∀ u ∈ S.tuples, a.aggField < u.fields.length) (h : K.Ok s)
    (hcollects : Collects S n (K.common s) a) (hops : Throughout K.step K.Admits s ops)
    (hkeeps : Throughout K.step (K.KeepsGroups a.key) s ops) :
    ∃ a', Collects S n (K.common (ops.foldl K.step s)) a' ∧ MkSetObj.Later S a a' := by
  induction ops generalizing s a with
  | nil => exact ⟨a, hcollects, MkSetObj.Later.refl S a⟩
  | cons op ops ih =>
    obtain ⟨a₁, hcollects₁, hlater₁, -⟩ :=
      hcollects.turn hequal hfields (K.ok_common h) (K.turn h hops.1) hkeeps.1
    obtain ⟨a', hcollects', hlater'⟩ := ih (hlater₁.aggField ▸ hequal) (hlater₁.aggField ▸ hfields)
      (K.ok_step h hops.1) hcollects₁ hops.2 (hlater₁.key ▸ hkeeps.2)
    exact ⟨a', hcollects', hlater₁.trans hlater'⟩

/-- An aggregate that was created just now, after more calls and a last one. -/
lemma reportsSet_run {groupBy : Key} {aggField : ℕ} (hgroup : groupBy ≠ [])
    (hfields : ∀ u ∈ S.tuples, HasFields groupBy u ∧ aggField < u.fields.length)
    (hequal : EqualValues S aggField) (h : K.Ok s) {c : CommonTable} (hown : c.OwnSets)
    (hs : K.common s = c.aggregateMkSet groupBy aggField) {ops : List K.Op} {op : K.Op}
    (hops : Throughout K.step K.Admits s (ops ++ [op]))
    (hkeeps : Throughout K.step (K.KeepsGroups groupBy) s (ops ++ [op])) {s' : K.State}
    (hs' : s' = ops.foldl K.step s) :
    (K.common (K.step s' op)).SetsIntact c.mkSets.length ∧
      ∀ t ∈ S.tuples,
        (K.common s').Touched groupBy (K.entering s' op) (K.common (K.step s' op)) t →
          (K.common (K.step s' op)).ReportsSet c.mkSets.length groupBy aggField t := by
  subst hs'
  obtain ⟨hops, hop, -⟩ := throughout_append.mp hops
  obtain ⟨hkeeps, hkeepsOp, -⟩ := throughout_append.mp hkeeps
  have hstart := CommonTable.collects_aggregateMkSet S hown groupBy aggField
  rw [← hs] at hstart
  obtain ⟨a, hcollects, hlater⟩ :=
    K.collects_run hequal (fun u hu => (hfields u hu).2) h hstart hops hkeeps
  obtain rfl : a.key = groupBy := hlater.key
  obtain rfl : a.aggField = aggField := hlater.aggField
  have hok := (K.run h hops).1
  obtain ⟨a', hcollects', hlater', hreports⟩ := hcollects.turn_reports hequal hgroup hfields
    (K.ok_common hok) (K.ok_common (K.ok_step hok hop)) (K.turn hok hop) hkeepsOp
  exact ⟨hcollects'.setsIntact (hlater'.aggField ▸ hequal), hreports⟩

end Variant

/-- **When a `MKSET` aggregate reports every change.** If all aggregated values are equal, then in
every run of a table of either kind in which every call leaves a tuple in every group, the sets that
the aggregate has sent are as they were when they were sent, and the last one for a group that the
last call touched has the values of the group.
Hyps: `hgroup` says that the group-by key is not empty; `hfields` that stored tuples have its fields
and the aggregated one -/
theorem mkSet_reports (S : Schema) (groupBy : Key) (aggField : ℕ) (hgroup : groupBy ≠ [])
    (hfields : ∀ u ∈ S.tuples, HasFields groupBy u ∧ aggField < u.fields.length)
    (hequal : EqualValues S aggField) :
    (∀ key maxSize lifetime before after op,
      Table2.AdmissibleRun S (Table2.mk' key maxSize lifetime)
        (before ++ .aggregateMkSet groupBy aggField :: (after ++ [op])) →
      ∀ s, s = (Table2.mk' key maxSize lifetime).run before →
        Throughout Table2.step (Table2.KeepsGroups groupBy)
          (s.step (.aggregateMkSet groupBy aggField)) (after ++ [op]) →
        ∀ s', s' = s.run (.aggregateMkSet groupBy aggField :: after) →
          (s'.step op).common.SetsIntact s.common.mkSets.length ∧
          ∀ t ∈ S.tuples, s'.common.Touched groupBy (s'.entering op) (s'.step op).common t →
            (s'.step op).common.ReportsSet s.common.mkSets.length groupBy aggField t) ∧
    (∀ key before after op,
      (∀ o ∈ before ++ .aggregateMkSet groupBy aggField :: (after ++ [op]),
        RefTable.Op.Within S o) →
      ∀ s, s = (RefTable.mk' key).run before →
        Throughout RefTable.step (RefTable.KeepsGroups groupBy)
          (s.step (.aggregateMkSet groupBy aggField)) (after ++ [op]) →
        ∀ s', s' = s.run (.aggregateMkSet groupBy aggField :: after) →
          (s'.step op).common.SetsIntact s.common.mkSets.length ∧
          ∀ t ∈ S.tuples, s'.common.Touched groupBy (s'.entering op) (s'.step op).common t →
            (s'.step op).common.ReportsSet s.common.mkSets.length groupBy aggField t) := by
  constructor
  · rintro key maxSize lifetime before after op hops s rfl hkeeps s' rfl
    obtain ⟨hbefore, haggregate, hrest⟩ := throughout_append.mp hops
    have hstart := Table2.ok_mk' S key maxSize lifetime
    exact (Table2.variant S).reportsSet_run hgroup hfields hequal
      ((hstart.run hbefore).step haggregate)
      (CommonTable.ownSets_of_moves (hstart.moves_run hbefore)) rfl hrest hkeeps rfl
  · rintro key before after op hops s rfl hkeeps s' rfl
    obtain ⟨hbefore, hrest⟩ := forall_mem_append.mp hops
    obtain ⟨haggregate, hrest⟩ := forall_mem_cons.mp hrest
    obtain ⟨hstart, hmoves⟩ := (RefTable.ok_mk' S key).run hbefore
    exact (RefTable.variant S).reportsSet_run hgroup hfields hequal (hstart.step haggregate)
      (CommonTable.ownSets_of_moves hmoves) rfl (throughout_of_mem hrest) hkeeps rfl

def teens : Schema where
  cols := Table2.rows.cols
  lawful := Table2.rows.lawful
  tuples := {t | ∃ n, n / 10 = 1 ∧ t = Table2.row n}
  typed := by
    rintro _ ⟨n, -, rfl⟩
    exact Table2.rows.typed _ (Table2.row_mem_rows n)
  unique := by
    rintro _ ⟨m, -, rfl⟩ _ ⟨n, -, rfl⟩ h
    exact Table2.rows.unique _ (Table2.row_mem_rows m) _ (Table2.row_mem_rows n) h

theorem mkSet_reports_teens :
    ((RefTable.mk' [0, 1]).run [.aggregateMkSet [0] 0, .insert (Table2.row 15),
      .insert (Table2.row 17), .remove (Table2.row 15)]).common.SetsIntact 0 ∧
    ((RefTable.mk' [0, 1]).run [.aggregateMkSet [0] 0, .insert (Table2.row 15),
      .insert (Table2.row 17), .remove (Table2.row 15)]).common.ReportsSet 0 [0] 0
        (Table2.row 15) := by
  have hfields : ∀ u ∈ teens.tuples, HasFields [0] u ∧ 0 < u.fields.length := by
    rintro _ ⟨n, -, rfl⟩
    exact ⟨hasFields_row (by decide) n, Nat.zero_lt_two⟩
  have hequal : EqualValues teens 0 := by
    rintro _ ⟨m, hm, rfl⟩ _ ⟨n, hn, rfl⟩ v v' hv hv'
    obtain rfl : .int64 (Int64.ofNat (m / 10)) = v := some.inj hv
    obtain rfl : .int64 (Int64.ofNat (n / 10)) = v' := some.inj hv'
    rw [hm, hn]
    rfl
  have hmem (n : ℕ) (hn : n / 10 = 1) : Table2.row n ∈ teens.tuples := ⟨n, hn, rfl⟩
  have hne : Table2.row 15 ≠ Table2.row 17 := fun heq => absurd (congrArg Tuple.ID heq) (by decide)
  have hwithin : ∀ op ∈ [.aggregateMkSet [0] 0, .insert (Table2.row 15), .insert (Table2.row 17),
      .remove (Table2.row 15)], RefTable.Op.Within teens op := by
    simp only [forall_mem_cons, RefTable.Op.Within, true_and]
    exact ⟨hmem 15 rfl, hmem 17 rfl, teens.typed _ (hmem 15 rfl),
      forall_mem_nil _⟩
  -- all rows are of one group
  have hkeeps : Throughout RefTable.step (RefTable.KeepsGroups [0])
      ((RefTable.mk' [0, 1]).step (.aggregateMkSet [0] 0)) [.insert (Table2.row 15),
        .insert (Table2.row 17), .remove (Table2.row 15)] := by
    refine ⟨⟨forall_mem_nil _, ?_⟩, ⟨?_, ?_⟩, ⟨?_, ?_⟩, trivial⟩
    · rintro u hu
      obtain rfl : Table2.row 15 = u := some.inj hu
      exact ⟨_, mem_cons_self, rfl⟩
    · exact forall_mem_singleton.mpr ⟨Table2.row 15, mem_cons_self,
        fun heq => hne (some.inj heq), rfl⟩
    · rintro u hu
      obtain rfl : Table2.row 17 = u := some.inj hu
      exact ⟨_, mem_cons_self, rfl⟩
    · have hone (n : ℕ) (hn : sameKey [0] (Table2.row 17) (Table2.row n)) :
          ∃ v ∈ [Table2.row 17], some v ≠ none ∧ sameKey [0] v (Table2.row n) :=
        ⟨_, mem_cons_self, some_ne_none _, hn⟩
      exact forall_mem_cons.mpr ⟨hone 15 rfl, forall_mem_singleton.mpr (hone 17 rfl)⟩
    · exact fun u hu => absurd hu (not_mem_none u)
  obtain ⟨-, hRefTable⟩ := mkSet_reports teens [0] 0 (by decide) hfields hequal
  obtain ⟨hintact, hreports⟩ := hRefTable [0, 1] [] [.insert (Table2.row 15), .insert (Table2.row 17)]
    (.remove (Table2.row 15)) hwithin _ rfl hkeeps _ rfl
  refine ⟨hintact, hreports _ (hmem 15 rfl) (Or.inl ⟨⟨0, Table2.row 15⟩, ?_, ?_, rfl⟩)⟩
  · exact mem_cons_self
  · intro hleft
    obtain heq : (⟨0, Table2.row 15⟩ : Ref) = ⟨1, Table2.row 17⟩ := mem_singleton.mp hleft
    exact hne (congrArg Ref.tuple heq)

def oneValue : RefTable :=
  (RefTable.mk' [0]).run [.aggregateMkSet [1] 0, .insert (Table2.row 15)]

/-- A second value comes into the group: nothing is sent, and the set that was sent has it now. -/
theorem mkSet_overwritten :
    oneValue.common.Touched [1] (oneValue.entering (.insert (Table2.row 25)))
      (oneValue.step (.insert (Table2.row 25))).common (Table2.row 25) ∧
    ¬ (oneValue.step (.insert (Table2.row 25))).common.SetsIntact 0 ∧
    ¬ (oneValue.step (.insert (Table2.row 25))).common.ReportsSet 0 [1] 0 (Table2.row 25) := by
  have hother : ¬ ∃ y ∈ [Value.int64 1], compareTo (.int64 2) y = .eq := by
    rintro ⟨y, hy, heq⟩
    rw [mem_singleton.mp hy] at heq
    exact absurd heq (by decide)
  have hnow : Value.int64 2 ∈ [Value.int64 1, Value.int64 2] :=
    mem_cons_of_mem _ mem_cons_self
  refine ⟨Or.inr ⟨_, rfl, rfl⟩, ?_, ?_⟩
  · rintro ⟨a, ha, hintact⟩
    obtain rfl := some.inj ha
    exact hother ((hintact _ mem_cons_self).1 (.int64 2) hnow)
  · rintro ⟨a, m, ha, -, -, hlast, hsame⟩
    obtain rfl := some.inj ha
    obtain rfl := some.inj hlast
    obtain ⟨x, hx, heq⟩ := hsame.2 (.int64 2) hnow
    obtain rfl : x = .int64 1 := mem_singleton.mp hx
    exact absurd heq (by decide)

end P2.Table
