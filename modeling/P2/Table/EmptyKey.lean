import P2.Table.Aggregate

/-!
# Aggregates without group-by fields

The comparators take the empty key for the identifier of a tuple. An aggregate with an empty
group-by key therefore has one group for each tuple and not one for the whole table:
`emptyKey_reports`.
-/

namespace P2.Table

open P2.Value P2.Lib List

/-! ## The function on at most one value -/

lemma eq_null_of_compareTo {v : Value} (h : compareTo v .null = .eq ∨ compareTo .null v = .eq) :
    v = .null := by
  cases v with
  | null => rfl
  | _ =>
    rcases h with h | h
    · exact absurd h (by simp [compareTo, testBelow, testAbove, typeCode, TypeCode.code])
    · exact absurd h (by simp [compareTo, typeCode])

lemma AggFunc.compute_eq_of_compareTo {function : AggFunc} {v : Value}
    (h : compareTo (function.compute [v]) (function.compute []) = .eq ∨
      compareTo (function.compute []) (function.compute [v]) = .eq) :
    function.compute [v] = function.compute [] := by
  cases function with
  | MIN => exact eq_null_of_compareTo h
  | MAX => exact eq_null_of_compareTo h
  | COUNT | COUNTDISTINCT =>
    change compareTo (.int64 1) (.int64 0) = .eq ∨ compareTo (.int64 0) (.int64 1) = .eq at h
    exact absurd h (by decide)

/-! ## What such an aggregate remembers -/

namespace AggregateObj

/-- The state of an aggregate with the empty key, in a table that has had at most one tuple at a
time: for each tuple it remembers the result over the tuple, if that is there, or over none, and the
last value sent is the result over the table. -/
structure Recalls (S : Schema) (live : List Tuple) (a : AggregateObj) : Prop where
  key : a.key = []
  sorted : Sorted (ltGroup a.key) a.currentAggregates.toList
  stored : ∀ e ∈ a.currentAggregates.toList, e.1 ∈ S.tuples
  /-- What is remembered is the result over the tuples with the identifier. -/
  holds : ∀ e ∈ a.currentAggregates.toList,
    e.2 = a.aggregateFn.compute (valuesOf a.aggField (groupOf [] e.1 live))
  told : a.currentAggregates.toList ≠ [] → a.sent ≠ []
  noticed : live ≠ [] → a.sent ≠ []
  last : a.sent ≠ [] →
    a.sent.getLast? = some [a.aggregateFn.compute (valuesOf a.aggField live)]

/-- A tuple comes into an empty table, or the only tuple of a table leaves it. -/
def Alone (c : Tuple) (live live' : List Tuple) : Prop :=
  (live = [] ∧ live' = [c]) ∨ (live = [c] ∧ live' = [])

section Update

variable {S : Schema} {a : AggregateObj} {live live' : List Tuple} {c : Tuple}

lemma groupOf_nil_self (halone : Alone c live live') {t : Tuple} (ht : sameKey [] t c) :
    groupOf [] t live = live ∧ groupOf [] t live' = live' := by
  have hct : sameKey [] c t := sameKey_symm ht
  rcases halone with ⟨rfl, rfl⟩ | ⟨rfl, rfl⟩
  · exact ⟨rfl, filter_eq_self.mpr (forall_mem_singleton.mpr hct)⟩
  · exact ⟨filter_eq_self.mpr (forall_mem_singleton.mpr hct), rfl⟩

lemma groupOf_nil_other (halone : Alone c live live') {t : Tuple} (ht : sameKey [] t c = false) :
    groupOf [] t live = [] ∧ groupOf [] t live' = [] := by
  have hct : ¬ sameKey [] c t := by
    rw [sameKey_comm, ht]
    exact Bool.false_ne_true
  rcases halone with ⟨rfl, rfl⟩ | ⟨rfl, rfl⟩
  · exact ⟨rfl, filter_eq_nil_iff.mpr (forall_mem_singleton.mpr hct)⟩
  · exact ⟨filter_eq_nil_iff.mpr (forall_mem_singleton.mpr hct), rfl⟩

lemma compute_eq_of_alone (hc : a.aggField < c.fields.length) (halone : Alone c live live')
    (heq : compareTo (a.aggregateFn.compute (valuesOf a.aggField live))
      (a.aggregateFn.compute (valuesOf a.aggField live')) = .eq) :
    a.aggregateFn.compute (valuesOf a.aggField live) =
      a.aggregateFn.compute (valuesOf a.aggField live') := by
  have hvalues : valuesOf a.aggField [c] = [c.fields[a.aggField]] :=
    filterMap_cons_some (List.getElem?_eq_getElem hc)
  rcases halone with ⟨rfl, rfl⟩ | ⟨rfl, rfl⟩
  · rw [hvalues] at heq ⊢
    exact (AggFunc.compute_eq_of_compareTo (Or.inr heq)).symm
  · rw [hvalues] at heq ⊢
    exact AggFunc.compute_eq_of_compareTo (Or.inl heq)

lemma resultFor_eq (hkey : a.key = []) (halone : Alone c live live') {index : Index}
    (hsorted : Sorted (ltRef a.key) index.toList) (hindex : (index.toList.map (·.tuple)).Perm live')
    (hc : c ∈ S.tuples) :
    a.resultFor index c = a.aggregateFn.compute (valuesOf a.aggField live') := by
  have hlist : index.toList.map (·.tuple) = live' := by
    rcases halone with ⟨-, rfl⟩ | ⟨-, rfl⟩
    · exact perm_singleton.mp hindex
    · exact perm_nil.mp hindex
  have htyped : ∀ r ∈ index.toList, Typed S.cols r.tuple := by
    intro r hr
    have hmem : r.tuple ∈ live' := hlist ▸ mem_map_of_mem hr
    rcases halone with ⟨-, rfl⟩ | ⟨-, rfl⟩
    · rw [mem_singleton.mp hmem]
      exact S.typed c hc
    · cases hmem
  have hself := (groupOf_nil_self halone (sameKey_refl S.lawful (S.typed c hc) [])).2
  unfold resultFor
  rw [Index.equalRange_eq hsorted htyped ((S.typed c hc).on a.key), hkey]
  conv_rhs => rw [← hself, ← hlist]
  unfold valuesOf groupOf
  rw [filter_map, filterMap_map]
  rfl

lemma Recalls.update (h : Recalls S live a) (hc : c ∈ S.tuples) (hfield : a.aggField < c.fields.length)
    (halone : Alone c live live') {index : Index} (hsorted : Sorted (ltRef a.key) index.toList)
    (hindex : (index.toList.map (·.tuple)).Perm live') :
    Recalls S live' (a.update index c) ∧ (a.update index c).sent ≠ [] := by
  have hresult := resultFor_eq h.key halone hsorted hindex hc
  rcases update_cases h.sorted h.stored hc index with ⟨e₀, he₀, hsame, heq, hupdate⟩ |
    ⟨current, hupdate, hsorted', hperm, -⟩
  · -- the remembered result is that over the table before the change
    rw [h.key] at hsame
    have hsent := h.told (ne_nil_of_mem he₀)
    have hequal : a.aggregateFn.compute (valuesOf a.aggField live) =
        a.aggregateFn.compute (valuesOf a.aggField live') := by
      refine compute_eq_of_alone hfield halone ?_
      rw [h.holds e₀ he₀, (groupOf_nil_self halone hsame).1, hresult] at heq
      exact heq
    rw [hupdate]
    refine ⟨⟨h.key, h.sorted, h.stored, fun e he => ?_, h.told, fun _ => hsent, fun _ => ?_⟩, hsent⟩
    · rw [h.holds e he]
      cases hec : sameKey [] e.1 c with
      | true =>
        rw [(groupOf_nil_self halone hec).1, (groupOf_nil_self halone hec).2]
        exact hequal
      | false => rw [(groupOf_nil_other halone hec).1, (groupOf_nil_other halone hec).2]
    · rw [← hequal]
      exact h.last hsent
  · have hmem := mem_iff_of_perm hperm
    have hself := groupOf_nil_self halone (sameKey_refl S.lawful (S.typed c hc) [])
    have hsent : a.sent ++ [groupFields a.key c ++ [a.resultFor index c]] ≠ [] := by
      simp
    rw [hupdate]
    refine ⟨⟨h.key, hsorted', fun e he => ?_, fun e he => ?_, fun _ => hsent, fun _ => hsent,
      fun _ => ?_⟩, hsent⟩
    · rcases (hmem e).mp he with rfl | ⟨he, -⟩
      · exact hc
      · exact h.stored e he
    · rcases (hmem e).mp he with rfl | ⟨he, hec⟩
      · rw [hself.2]
        exact hresult
      · rw [h.key] at hec
        show e.2 = a.aggregateFn.compute (valuesOf a.aggField (groupOf [] e.1 live'))
        rw [h.holds e he, (groupOf_nil_other halone hec).1, (groupOf_nil_other halone hec).2]
    · show (a.sent ++ [groupFields a.key c ++ [a.resultFor index c]]).getLast? = _
      rw [List.getLast?_concat, h.key, hresult]
      rfl

end Update

end AggregateObj

/-! ## Moves -/

namespace CommonTable

open AggregateObj

variable {S : Schema} {s s' : CommonTable} {n aggField : ℕ} {function : AggFunc}

/-- The aggregate at a place of the table, with its field and function, is up to date. -/
def Watches (S : Schema) (n aggField : ℕ) (function : AggFunc) (s : CommonTable) : Prop :=
  s.HasIndex [] ∧ ∃ a, s.aggregates[n]? = some a ∧ a.aggField = aggField ∧
    a.aggregateFn = function ∧ a.Recalls S s.scan

def Told (n : ℕ) (s : CommonTable) : Prop := ∃ a, s.aggregates[n]? = some a ∧ a.sent ≠ []

/-- The last value that the aggregate at a place of the table has sent is the result of the function
over the live tuples. -/
def LastSent (n aggField : ℕ) (function : AggFunc) (s : CommonTable) : Prop :=
  ∃ a, s.aggregates[n]? = some a ∧
    a.sent.getLast? = some [function.compute (valuesOf aggField s.scan)]

lemma Watches.lastSent (h : Watches S n aggField function s) (htold : Told n s) :
    LastSent n aggField function s := by
  obtain ⟨-, a, hplace, rfl, rfl, hrecalls⟩ := h
  obtain ⟨a', hplace', hsent⟩ := htold
  obtain rfl := Option.some.inj (hplace.symm.trans hplace')
  exact ⟨a, hplace, hrecalls.last hsent⟩

lemma Watches.told (h : Watches S n aggField function s) (hlive : s.scan ≠ []) : Told n s := by
  obtain ⟨-, a, hplace, -, -, hrecalls⟩ := h
  exact ⟨a, hplace, hrecalls.noticed hlive⟩

lemma Watches.frame (h : Watches S n aggField function s) (hframe : Frame s s') :
    Watches S n aggField function s' ∧ (Told n s → Told n s') := by
  have hkeep (a : AggregateObj) (hplace : s.aggregates[n]? = some a) :
      s'.aggregates[n]? = some a := by
    obtain ⟨new, hnew⟩ := hframe.aggregates
    rw [← hnew, List.getElem?_append_left (List.getElem?_eq_some_iff.mp hplace).1]
    exact hplace
  obtain ⟨hindex, a, hplace, haggField, hfunction, hrecalls⟩ := h
  refine ⟨⟨hindex.frame hframe, a, hkeep a hplace, haggField, hfunction, ?_⟩, ?_⟩
  · rw [hframe.scan]
    exact hrecalls
  · rintro ⟨a', hplace', hsent⟩
    exact ⟨a', hkeep a' hplace', hsent⟩

variable (hfields : ∀ u ∈ S.tuples, aggField < u.fields.length)

include hfields

lemma Watches.update (h : Watches S n aggField function s) (hok : s'.Ok S) (hindex : s'.HasIndex [])
    {c : Tuple} (hc : c ∈ S.tuples) (halone : Alone c s.scan s'.scan)
    (haggregates : s'.aggregates =
      s.aggregates.map fun a => a.update ((s'.findSecondaryIndex a.key).getD .nil) c) :
    Watches S n aggField function s' ∧ Told n s' := by
  obtain ⟨-, a, hplace, rfl, rfl, hrecalls⟩ := h
  obtain ⟨index, hfind⟩ := hindex.exists_index
  obtain ⟨hsorted, hperm⟩ := hok.indexed _ (mem_indices_of_findSecondaryIndex hfind)
  have hsorted' : Sorted (ltRef a.key) index.toList := hrecalls.key ▸ hsorted
  obtain ⟨hrecalls', hsent⟩ := hrecalls.update hc (hfields c hc) halone hsorted' (hperm.map _)
  obtain ⟨-, haggField, hfunction⟩ := constants_update index c a
  have hplace' : s'.aggregates[n]? = some (a.update index c) := by
    rw [haggregates, List.getElem?_map, hplace, Option.map_some, hrecalls.key, hfind]
    rfl
  exact ⟨⟨hindex, _, hplace', haggField, hfunction, hrecalls'⟩, _, hplace', hsent⟩

lemma Watches.move (hok : s.Ok S) (h : Watches S n aggField function s) (hmove : Move S s s')
    (hone : s.scan.length ≤ 1) (hone' : s'.scan.length ≤ 1) :
    Watches S n aggField function s' ∧ (Told n s → Told n s') := by
  have hok' := hok.move hmove
  have hindex := h.1.move hmove
  rcases hmove with ⟨ht, hnew⟩ | ⟨hr, hperm, hsub⟩ | hsilent
  · rename_i r
    -- there was no other tuple
    have hscan : (s.commonInsertTuple r).scan.Perm (r.tuple :: s.scan) :=
      (hok.insert ht hnew).2.map Ref.tuple
    have hempty : s.scan = [] := by
      rw [hscan.length_eq, length_cons] at hone'
      exact length_eq_zero_iff.mp (by omega)
    rw [hempty] at hscan
    obtain ⟨hwatches, htold⟩ := h.update hfields hok' hindex ht
      (Or.inl ⟨hempty, perm_singleton.mp hscan⟩) rfl
    exact ⟨hwatches, fun _ => htold⟩
  · rename_i r primary
    -- there is no other tuple
    have hscan : s.scan.Perm (r.tuple :: primary.toList.map Ref.tuple) := hperm.map Ref.tuple
    have hempty : primary.toList.map Ref.tuple = [] := by
      rw [hscan.length_eq, length_cons] at hone
      exact length_eq_zero_iff.mp (by omega)
    rw [hempty] at hscan
    obtain ⟨hwatches, htold⟩ := h.update hfields hok' hindex (hok.stored _ hr)
      (Or.inr ⟨perm_singleton.mp hscan, hempty⟩) rfl
    exact ⟨hwatches, fun _ => htold⟩
  · exact h.frame hsilent.frame

lemma Watches.shrinks (hok : s.Ok S) (h : Watches S n aggField function s)
    (hone : s.scan.length ≤ 1) (hshrinks : Shrinks S s s') :
    s'.Ok S ∧ Watches S n aggField function s' ∧ (Told n s → Told n s') ∧ s'.scan.length ≤ 1 := by
  induction hshrinks with
  | refl => exact ⟨hok, h, fun htold => htold, hone⟩
  | tail _ hstep ih =>
    obtain ⟨hok', hwatches, htold, hone'⟩ := ih
    have hone'' := hstep.2.length_le.trans hone'
    obtain ⟨hwatches', htold'⟩ := hwatches.move hfields hok' hstep.1 hone' hone''
    exact ⟨hok'.move hstep.1, hwatches', fun h => htold' (htold h), hone''⟩

lemma Watches.turn (hok : s.Ok S) (h : Watches S n aggField function s) (hone : s.scan.length ≤ 1)
    {given new : Option Tuple} (hlone : ∀ t ∈ given, ∀ u ∈ s.scan, sameKey s.key u t)
    (hturn : Turn S given new s s') : Watches S n aggField function s' ∧ s'.scan.length ≤ 1 ∧
      (Told n s ∨ (∃ t, t ∈ given) → Told n s') := by
  obtain ⟨s₀, s₁, hbefore, hnew, hequal, hafter⟩ := hturn
  obtain ⟨hok₀, hwatches₀, htold₀, hone₀⟩ := h.shrinks hfields hok hone hbefore
  have hcome : s₁.Ok S ∧ Watches S n aggField function s₁ ∧ (Told n s → Told n s₁) ∧
      s₁.scan.length ≤ 1 := by
    rcases hnew with ⟨rfl, -⟩ | ⟨t, ht, -, hcomes⟩
    · exact ⟨hok₀, hwatches₀, htold₀, hone₀⟩
    · have hempty : s₀.scan = [] := by
        refine eq_nil_iff_forall_not_mem.mpr fun u hu => ?_
        have hsame := hcomes.new u hu
        rw [hbefore.key_eq, hlone t ht u (hbefore.scan_sublist.subset hu)] at hsame
        cases hsame
      have hone₁ : s₁.scan.length ≤ 1 := by
        rw [hcomes.perm.length_eq, hempty]
        exact le_rfl
      obtain ⟨hwatches₁, htold₁⟩ := hwatches₀.move hfields hok₀ hcomes.move hone₀ hone₁
      exact ⟨hok₀.move hcomes.move, hwatches₁, fun htold => htold₁ (htold₀ htold), hone₁⟩
  obtain ⟨hok₁, hwatches₁, htold₁, hone₁⟩ := hcome
  obtain ⟨-, hwatches', htold', hone'⟩ := hwatches₁.shrinks hfields hok₁ hone₁ hafter
  refine ⟨hwatches', hone', ?_⟩
  rintro (htold | ⟨t, ht⟩)
  · exact htold' (htold₁ htold)
  · obtain ⟨r, hr, -⟩ := hequal t ht
    exact htold' (hwatches₁.told (ne_nil_of_mem (mem_map_of_mem hr)))

omit hfields

lemma watches_aggregate (S : Schema) (aggField : ℕ) (function : AggFunc) (hempty : s.scan = []) :
    Watches S s.aggregates.length aggField function (s.aggregate [] aggField function) := by
  refine ⟨hasIndex_secondaryIndex s [], _, List.getElem?_concat_length, rfl, rfl, ?_⟩
  rw [(Silent.aggregate [] aggField function).frame.scan, hempty]
  exact ⟨rfl, List.Pairwise.nil, forall_mem_nil _,
    forall_mem_nil _, fun h => absurd rfl h, fun h => absurd rfl h,
    fun h => absurd rfl h⟩

end CommonTable

open CommonTable (Watches Told LastSent)

/-! ## Runs -/

/-- A tuple is inserted only where no tuple with another primary key is live. -/
def Table2.Lone (s : Table2) : Table2.Op → Prop
  | .insert clock t =>
    ∀ u ∈ (s.flush clock.first).common.scan, sameKey (s.flush clock.first).common.key u t
  | _ => True

/-- A tuple is inserted only where no tuple with another primary key is live. -/
def RefTable.Lone (s : RefTable) : RefTable.Op → Prop
  | .insert t => ∀ u ∈ s.common.scan, sameKey s.common.key u t
  | _ => True

namespace Variant

variable {S : Schema} (K : Variant S) {n aggField : ℕ} {function : AggFunc} {s : K.State}
  {ops : List K.Op}

/-- A tuple is given only where no tuple with another primary key is live. -/
def Lone (s : K.State) (op : K.Op) : Prop :=
  ∀ t ∈ K.given op, ∀ u ∈ (K.ready s op).scan, sameKey (K.ready s op).key u t

lemma watches_run (hfields : ∀ u ∈ S.tuples, aggField < u.fields.length) (h : K.Ok s)
    (hops : Throughout K.step K.Admits s ops) (hlone : Throughout K.step K.Lone s ops)
    (hwatches : Watches S n aggField function (K.common s))
    (hone : (K.common s).scan.length ≤ 1) :
    Watches S n aggField function (K.common (ops.foldl K.step s)) ∧
      (Told n (K.common s) ∨ (∃ op ∈ ops, ∃ t, t ∈ K.given op) →
        Told n (K.common (ops.foldl K.step s))) := by
  induction ops generalizing s with
  | nil =>
    refine ⟨hwatches, fun htold => htold.resolve_right ?_⟩
    rintro ⟨op, hop, -⟩
    cases hop
  | cons op ops ih =>
    obtain ⟨hok, hready, htold, hone⟩ :=
      hwatches.shrinks hfields (K.ok_common h) hone (K.shrinks_ready op h)
    obtain ⟨hwatches₁, hone₁, htold₁⟩ :=
      hready.turn hfields hok hone hlone.1 (K.turn_ready h hops.1)
    obtain ⟨hwatches', htold'⟩ := ih (K.ok_step h hops.1) hops.2 hlone.2 hwatches₁ hone₁
    refine ⟨hwatches', ?_⟩
    rintro (hthen | ⟨op', hop', hgiven⟩)
    · exact htold' (Or.inl (htold₁ (Or.inl (htold hthen))))
    · rcases mem_cons.mp hop' with rfl | hop'
      · exact htold' (Or.inl (htold₁ (Or.inr hgiven)))
      · exact htold' (Or.inr ⟨op', hop', hgiven⟩)

/-- An aggregate that was created on an empty table, after more calls. -/
lemma lastSent_run (hfields : ∀ u ∈ S.tuples, aggField < u.fields.length) (h : K.Ok s)
    {c : CommonTable} (hempty : c.scan = []) (hs : K.common s = c.aggregate [] aggField function)
    (hops : Throughout K.step K.Admits s ops) (hlone : Throughout K.step K.Lone s ops) {op : K.Op}
    (hop : op ∈ ops) {t : Tuple} (ht : t ∈ K.given op) :
    LastSent c.aggregates.length aggField function (K.common (ops.foldl K.step s)) := by
  have hwatches := CommonTable.watches_aggregate S aggField function hempty
  have hone : (c.aggregate [] aggField function).scan.length ≤ 1 := by
    rw [(CommonTable.Silent.aggregate [] aggField function).frame.scan, hempty]
    exact Nat.zero_le 1
  rw [← hs] at hwatches hone
  obtain ⟨hwatches', htold⟩ := K.watches_run hfields h hops hlone hwatches hone
  exact hwatches'.lastSent (htold (Or.inr ⟨op, hop, t, ht⟩))

end Variant

/-- **When an aggregate without group-by fields covers the table.** In every run of a table of
either kind in which a tuple is inserted only where no tuple with another primary key is live, an
aggregate with the empty key that was created on the empty table has last sent the result of its
function over the live tuples, once a tuple was inserted.
Hyps: `hfields` says that stored tuples have the aggregated field -/
theorem emptyKey_reports (S : Schema) (aggField : ℕ) (function : AggFunc)
    (hfields : ∀ u ∈ S.tuples, aggField < u.fields.length) :
    (∀ key maxSize lifetime before after,
      Table2.AdmissibleRun S (Table2.mk' key maxSize lifetime)
        (before ++ .aggregate [] aggField function :: after) →
      ∀ s, s = (Table2.mk' key maxSize lifetime).run before → s.common.scan = [] →
        Throughout Table2.step Table2.Lone (s.step (.aggregate [] aggField function)) after →
        (∃ clock t, .insert clock t ∈ after) →
          LastSent s.common.aggregates.length aggField function
            (s.run (.aggregate [] aggField function :: after)).common) ∧
    (∀ key before after,
      (∀ op ∈ before ++ .aggregate [] aggField function :: after, RefTable.Op.Within S op) →
      ∀ s, s = (RefTable.mk' key).run before → s.common.scan = [] →
        Throughout RefTable.step RefTable.Lone (s.step (.aggregate [] aggField function)) after →
        (∃ t, .insert t ∈ after) →
          LastSent s.common.aggregates.length aggField function
            (s.run (.aggregate [] aggField function :: after)).common) := by
  constructor
  · rintro key maxSize lifetime before after hops s rfl hempty hlone ⟨clock, t, ht⟩
    obtain ⟨hbefore, haggregate, hafter⟩ := throughout_append.mp hops
    have hok := ((Table2.ok_mk' S key maxSize lifetime).run hbefore).step haggregate
    refine (Table2.variant S).lastSent_run hfields hok hempty rfl hafter (hlone.imp ?_) ht rfl
    intro s op hlone u hu
    cases op with
    | insert clock v =>
      obtain rfl : v = u := Option.some.inj hu
      exact hlone
    | _ => cases hu
  · rintro key before after hops s rfl hempty hlone ⟨t, ht⟩
    obtain ⟨hbefore, hrest⟩ := forall_mem_append.mp hops
    obtain ⟨haggregate, hafter⟩ := forall_mem_cons.mp hrest
    have hok := ((RefTable.ok_mk' S key).run hbefore).1.step haggregate
    refine (RefTable.variant S).lastSent_run hfields hok hempty rfl (throughout_of_mem hafter)
      (hlone.imp ?_) ht rfl
    intro s op hlone u hu
    cases op with
    | insert v =>
      obtain rfl : v = u := Option.some.inj hu
      exact hlone
    | _ => cases hu

theorem emptyKey_reports_rows :
    LastSent 0 1 .MIN ((RefTable.mk' [0]).run [.aggregate [] 1 .MIN, .insert (Table2.row 15),
      .insert (Table2.row 13), .remove (Table2.row 13), .insert (Table2.row 24)]).common := by
  have hfields : ∀ u ∈ Table2.rows.tuples, 1 < u.fields.length := by
    rintro _ ⟨n, rfl⟩
    exact Nat.one_lt_two
  refine (emptyKey_reports Table2.rows 1 .MIN hfields).2 [0] [] [.insert (Table2.row 15),
    .insert (Table2.row 13), .remove (Table2.row 13), .insert (Table2.row 24)] ?_ _ rfl rfl ?_
    ⟨Table2.row 15, mem_cons_self⟩
  · simp only [nil_append, forall_mem_cons, RefTable.Op.Within, Table2.row_mem_rows,
      true_and]
    exact ⟨Table2.rows.typed _ (Table2.row_mem_rows 13), forall_mem_nil _⟩
  · refine ⟨forall_mem_nil _, ?_, trivial, ?_, trivial⟩
    · exact forall_mem_singleton.mpr rfl
    · exact forall_mem_nil _

/-- Two rows, of which the second one is counted alone. -/
theorem emptyKey_miscounts :
    ¬ LastSent 0 0 .COUNT ((RefTable.mk' [0]).run [.aggregate [] 0 .COUNT, .insert (Table2.row 15),
      .insert (Table2.row 24)]).common := by
  rintro ⟨a, ha, hlast⟩
  obtain rfl := Option.some.inj ha
  have hcount : some [Value.int64 1] = some [Value.int64 2] := hlast
  have hvalue := (List.cons.inj (Option.some.inj hcount)).1
  exact absurd (Value.int64.inj hvalue) (by decide)

end P2.Table
