import P2.Table.Moves

/-!
# Indexed lookups

A lookup with projection writes the fields of the given tuple over a search tuple that all such
lookups of a table share, and searches the index with it: `lookup_exact`.
-/

namespace P2.Table

open P2.Value P2.Lib List

/-! ## The specification -/

/-- The fields of the index key of `u` equal those of the lookup key of `t`. -/
def agrees (lookupKey indexKey : Key) (t u : Tuple) : Bool :=
  (lookupKey.zip indexKey).all fun p =>
    match u.fields[p.2]?, t.fields[p.1]? with
    | some a, some b => compareTo a b == .eq
    | _, _ => false

/-- A lookup with projection returns the live tuples that agree with the given one, each once, and
what a lookup without returns if the keys are the same. -/
structure ExactLookup (s : CommonTable) (lookupKey indexKey : Key) (t : Tuple)
    (projected plain : Option (List Tuple)) : Prop where
  exact : ∃ found, projected = some found ∧ found.Perm (s.scan.filter (agrees lookupKey indexKey t))
  plain : lookupKey = indexKey → projected = plain

/-! ## Keys read their fields only -/

section Congr

variable {key : Key} {t t' : Tuple}

lemma fieldsLt_congr (h : ∀ i ∈ key, t.fields[i]? = t'.fields[i]?) (u : Tuple) :
    fieldsLt key u t = fieldsLt key u t' ∧ fieldsLt key t u = fieldsLt key t' u := by
  induction key with
  | nil => exact ⟨rfl, rfl⟩
  | cons i key ih =>
    obtain ⟨hright, hleft⟩ := ih fun j hj => h j (mem_cons_of_mem i hj)
    unfold fieldsLt
    rw [h i mem_cons_self, hright, hleft]
    exact ⟨rfl, rfl⟩

variable (hkey : key ≠ []) (h : ∀ i ∈ key, t.fields[i]? = t'.fields[i]?)

include hkey h

lemma keyedLt_congr (u : Tuple) :
    keyedLt key u t = keyedLt key u t' ∧ keyedLt key t u = keyedLt key t' u := by
  unfold keyedLt
  rw [if_neg hkey, if_neg hkey, if_neg hkey, if_neg hkey]
  exact fieldsLt_congr h u

lemma Index.search_congr (index : Index) :
    index.findKey key t = index.findKey key t' ∧
      index.equalRange key t = index.equalRange key t' := by
  have hbelow : (ltRef key · (searchEntry t)) = (ltRef key · (searchEntry t')) :=
    funext fun r => (keyedLt_congr hkey h r.tuple).1
  have habove : ltRef key (searchEntry t) = ltRef key (searchEntry t') :=
    funext fun r => (keyedLt_congr hkey h r.tuple).2
  unfold Index.findKey Index.equalRange Index.lower Index.upper
  rw [hbelow, habove]
  exact ⟨rfl, rfl⟩

end Congr

/-! ## The search tuple -/

namespace CommonTable

lemma length_le_enlarge (key : Key) (entry : List Value) :
    entry.length ≤ (enlarge key entry).length := by
  induction key generalizing entry with
  | nil => exact le_rfl
  | cons i key ih =>
    refine le_trans ?_ (ih (entry ++ replicate (i + 1 - entry.length) .null))
    rw [length_append]
    exact Nat.le_add_right _ _

lemma lt_length_enlarge {key : Key} (entry : List Value) {i : ℕ} (hi : i ∈ key) :
    i < (enlarge key entry).length := by
  induction key generalizing entry with
  | nil => cases hi
  | cons j key ih =>
    rcases mem_cons.mp hi with rfl | hi
    · refine lt_of_lt_of_le ?_
        (length_le_enlarge key (entry ++ replicate (i + 1 - entry.length) .null))
      rw [length_append, length_replicate]
      omega
    · exact ih _ hi

structure Roomy (s : CommonTable) : Prop where
  primary : ∀ i ∈ s.key, i < s.lookupSearchEntry.length
  secondary : ∀ ix ∈ s.indices, ∀ i ∈ ix.1, i < s.lookupSearchEntry.length

section Project

variable {t : Tuple}

lemma project_frame {sourceKey destinationKey : Key} {destination entry : List Value}
    (h : project t sourceKey destinationKey destination = some entry) :
    entry.length = destination.length ∧ ∀ j ∉ destinationKey, entry[j]? = destination[j]? := by
  induction sourceKey generalizing destinationKey destination with
  | nil =>
    unfold project at h
    rw [← Option.some.inj h]
    exact ⟨rfl, fun _ _ => rfl⟩
  | cons i sourceKey ih =>
    rcases destinationKey with _ | ⟨d, destinationKey⟩
    · rw [← Option.some.inj h]
      exact ⟨rfl, fun _ _ => rfl⟩
    · unfold project at h
      obtain ⟨v, -, hv⟩ := Option.bind_eq_some_iff.mp h
      obtain ⟨hlength, hother⟩ := ih hv
      refine ⟨by rw [hlength, length_set], fun j hj => ?_⟩
      obtain ⟨hjd, hj⟩ := not_or.mp (mt mem_cons.mpr hj)
      rw [hother j hj, List.getElem?_set_ne (Ne.symm hjd)]

lemma project_spec {sourceKey destinationKey : Key} {destination : List Value}
    (hlength : sourceKey.length = destinationKey.length) (hnodup : destinationKey.Nodup)
    (ht : HasFields sourceKey t) (hroom : ∀ d ∈ destinationKey, d < destination.length) :
    ∃ entry, project t sourceKey destinationKey destination = some entry ∧
      ∀ p ∈ sourceKey.zip destinationKey, entry[p.2]? = t.fields[p.1]? := by
  induction sourceKey generalizing destinationKey destination with
  | nil =>
    exact ⟨destination, rfl, forall_mem_nil _⟩
  | cons i sourceKey ih =>
    rcases destinationKey with _ | ⟨d, destinationKey⟩
    · exact absurd hlength (Nat.succ_ne_zero _)
    · obtain ⟨v, hv⟩ : ∃ v, t.fields[i]? = some v :=
        ⟨_, List.getElem?_eq_getElem (ht i mem_cons_self)⟩
      obtain ⟨hd, hnodup⟩ := nodup_cons.mp hnodup
      have hroom' : ∀ j ∈ destinationKey, j < (destination.set d v).length := by
        intro j hj
        rw [length_set]
        exact hroom j (mem_cons_of_mem d hj)
      obtain ⟨entry, hentry, hfields⟩ := ih (Nat.succ.inj hlength) hnodup
        (fun j hj => ht j (mem_cons_of_mem i hj)) hroom'
      refine ⟨entry, ?_, fun p hp => ?_⟩
      · unfold project
        rw [hv]
        exact hentry
      · rcases mem_cons.mp hp with rfl | hp
        · rw [(project_frame hentry).2 _ hd, hv]
          exact List.getElem?_set_self (hroom d mem_cons_self)
        · exact hfields p hp

end Project

/-! ## One lookup -/

variable {S : Schema} {s s' : CommonTable} {r : Ref}

lemma Ok.lookup_perm (h : s.Ok S) {indexKey : Key} {q : Tuple} (hq : TypedOn S.cols indexKey q)
    (hindex : indexKey = s.key ∨ s.HasIndex indexKey) :
    ∃ found, s.lookup indexKey q = some found ∧
      found.Perm (s.scan.filter fun u => sameKey indexKey u q) := by
  have hscan : s.scan.filter (fun u => sameKey indexKey u q) =
      (s.primaryIndex.toList.filter fun r => sameKey indexKey r.tuple q).map (·.tuple) := by
    unfold scan
    rw [filter_map]
    rfl
  rw [hscan]
  unfold lookup
  by_cases hkey : indexKey = s.key
  · subst hkey
    refine ⟨_, if_pos rfl, ?_⟩
    have hrange := Index.equalRange_eq h.sorted h.typed hq
    unfold lookupPrimary
    split
    · rw [hrange]
    next hnone =>
      have hnot := Index.findKey_eq_none h.sorted h.typed hq hnone
      rw [filter_eq_nil_iff.mpr fun r hr => by rw [hnot r hr]; exact Bool.false_ne_true]
      exact List.Perm.refl []
  · obtain ⟨index, hfind⟩ := (hindex.resolve_left hkey).exists_index
    rw [if_neg hkey, hfind]
    refine ⟨_, rfl, ?_⟩
    obtain ⟨hsorted, hperm⟩ := h.indexed _ (mem_indices_of_findSecondaryIndex hfind)
    unfold lookupSecondary
    rw [Index.equalRange_eq hsorted (fun r hr => h.typed r (hperm.mem_iff.mp hr)) hq]
    exact (hperm.filter _).map _

lemma lookup_congr {indexKey : Key} (hkey : indexKey ≠ []) {q t : Tuple}
    (hfields : ∀ i ∈ indexKey, q.fields[i]? = t.fields[i]?) :
    s.lookup indexKey q = s.lookup indexKey t := by
  unfold lookup lookupPrimary lookupSecondary
  by_cases hprimary : indexKey = s.key
  · subst hprimary
    obtain ⟨hfind, hrange⟩ := Index.search_congr hkey hfields s.primaryIndex
    rw [if_pos rfl, if_pos rfl, hfind, hrange]
  · rw [if_neg hprimary, if_neg hprimary]
    congr 1
    funext index
    rw [(Index.search_congr hkey hfields index).2]

lemma exists_mem_zip {lookupKey indexKey : Key} (hlength : lookupKey.length = indexKey.length)
    {j : ℕ} (hj : j ∈ indexKey) :
    ∃ i, (i, j) ∈ lookupKey.zip indexKey ∧ (lookupKey = indexKey → i = j) := by
  obtain ⟨n, hn, rfl⟩ := getElem_of_mem hj
  have hn' : n < (lookupKey.zip indexKey).length := by
    rw [length_zip]
    omega
  have hmem := getElem_mem hn'
  rw [getElem_zip] at hmem
  refine ⟨_, hmem, fun heq => ?_⟩
  subst heq
  rfl

lemma sameKey_iff_agrees {lookupKey indexKey : Key} {q t u : Tuple} (hkey : indexKey ≠ [])
    (hlength : lookupKey.length = indexKey.length) (ht : HasFields lookupKey t)
    (hfields : ∀ p ∈ lookupKey.zip indexKey, q.fields[p.2]? = t.fields[p.1]?)
    (hq : TypedOn S.cols indexKey q) (hqk : HasFields indexKey q)
    (hu : TypedOn S.cols indexKey u) (huk : HasFields indexKey u) :
    sameKey indexKey u q ↔ agrees lookupKey indexKey t u := by
  rw [sameKey_iff S.lawful hkey hu hq huk hqk, agrees, all_eq_true]
  constructor
  · rintro h ⟨i, j⟩ hij
    obtain ⟨hi, hj⟩ := of_mem_zip hij
    have hb := List.getElem?_eq_getElem (ht i hi)
    have ha := List.getElem?_eq_getElem (huk j hj)
    have heq := h j hj _ _ ha ((hfields (i, j) hij).trans hb)
    rw [ha, hb]
    exact beq_iff_eq.mpr heq
  · intro h j hj a b ha hb
    obtain ⟨i, hij, -⟩ := exists_mem_zip hlength hj
    have heq := h (i, j) hij
    rw [hfields (i, j) hij] at hb
    rw [ha, hb] at heq
    exact beq_iff_eq.mp heq

lemma Ok.exactLookup (h : s.Ok S) (hroom : s.Roomy) {lookupKey indexKey : Key} {t : Tuple}
    (hkey : indexKey ≠ []) (hnodup : indexKey.Nodup)
    (hlength : lookupKey.length = indexKey.length) (ht : HasFields lookupKey t)
    (hvalues : ∀ p ∈ lookupKey.zip indexKey, ∀ v, t.fields[p.1]? = some v → v ∈ S.cols p.2)
    (hstored : ∀ u ∈ S.tuples, HasFields indexKey u)
    (hindex : indexKey = s.key ∨ s.HasIndex indexKey) :
    ExactLookup s lookupKey indexKey t (s.lookupProjected lookupKey indexKey t).1
      (s.lookup indexKey t) := by
  have hroom' : ∀ d ∈ indexKey, d < s.lookupSearchEntry.length := by
    intro d hd
    rcases hindex with rfl | hindex
    · exact hroom.primary d hd
    · obtain ⟨ix, hix, rfl⟩ := mem_map.mp hindex
      exact hroom.secondary ix hix d hd
  obtain ⟨entry, hentry, hfields⟩ := project_spec hlength hnodup ht hroom'
  obtain ⟨q, hq⟩ : ∃ q : Tuple, q = ⟨0, entry, false⟩ := ⟨_, rfl⟩
  have hqfields : ∀ p ∈ lookupKey.zip indexKey, q.fields[p.2]? = t.fields[p.1]? := hq ▸ hfields
  have hqk : HasFields indexKey q := by
    intro j hj
    rw [hq]
    rw [(project_frame hentry).1]
    exact hroom' j hj
  have hqtyped : TypedOn S.cols indexKey q := by
    intro j hj v hv
    obtain ⟨i, hij, -⟩ := exists_mem_zip hlength hj
    rw [hqfields (i, j) hij] at hv
    exact hvalues (i, j) hij v hv
  have hresult : (s.lookupProjected lookupKey indexKey t).1 = s.lookup indexKey q := by
    have hfound : ¬ (indexKey ≠ s.key ∧ (s.findSecondaryIndex indexKey).isNone) := by
      rintro ⟨hne, hnone⟩
      obtain ⟨index, hindex⟩ := (hindex.resolve_left hne).exists_index
      rw [hindex] at hnone
      cases hnone
    unfold lookupProjected
    rw [if_neg (not_not.mpr hlength), if_neg hfound, hentry, hq]
    rfl
  refine ⟨?_, fun heq => ?_⟩
  · obtain ⟨found, hfound, hperm⟩ := h.lookup_perm hqtyped hindex
    refine ⟨found, hresult.trans hfound, ?_⟩
    rwa [filter_congr fun u hu => ?_] at hperm
    obtain ⟨r, hr, rfl⟩ := mem_map.mp hu
    rw [Bool.eq_iff_iff]
    exact sameKey_iff_agrees hkey hlength ht hqfields hqtyped hqk (h.typedOn indexKey r hr)
      (hstored _ (h.stored r hr))
  · rw [hresult]
    refine lookup_congr hkey fun i hi => ?_
    obtain ⟨j, hij, hji⟩ := exists_mem_zip hlength hi
    have := hqfields (j, i) hij
    rwa [hji heq] at this

/-! ## Runs -/

lemma length_lookupSearchEntry (s : CommonTable) (lookupKey indexKey : Key) (t : Tuple) :
    (s.lookupProjected lookupKey indexKey t).2.lookupSearchEntry.length =
      s.lookupSearchEntry.length := by
  unfold lookupProjected
  split_ifs
  · rfl
  · rfl
  · split
    · rfl
    next entry hentry => exact (project_frame hentry).1

lemma Roomy.secondaryIndex (h : s.Roomy) (key : Key) : (s.secondaryIndex key).Roomy := by
  unfold CommonTable.secondaryIndex
  split
  · have hgrow := length_le_enlarge key s.lookupSearchEntry
    refine ⟨fun i hi => (h.primary i hi).trans_le hgrow, fun ix hix i hi => ?_⟩
    rcases mem_append.mp hix with hix | hix
    · exact (h.secondary ix hix i hi).trans_le hgrow
    · rw [mem_singleton.mp hix] at hi
      exact lt_length_enlarge s.lookupSearchEntry hi
  · exact h

lemma Roomy.move (h : s.Roomy) (hmove : Move S s s') : s'.Roomy := by
  have hmap : ∀ f : Key × Index → Index, ∀ ix ∈ s.indices.map fun ix => (ix.1, f ix),
      ∀ i ∈ ix.1, i < s.lookupSearchEntry.length := by
    intro f ix hix i hi
    obtain ⟨old, hold, rfl⟩ := mem_map.mp hix
    exact h.secondary old hold i hi
  rcases hmove with ⟨_, _⟩ | ⟨_, _, _⟩ |
    (_ | ⟨lookupKey, indexKey, t⟩ | key | ⟨groupBy⟩ | ⟨groupBy⟩)
  · exact ⟨h.primary, hmap _⟩
  · exact ⟨h.primary, hmap _⟩
  · exact h
  · have hlength := s.length_lookupSearchEntry lookupKey indexKey t
    obtain ⟨entry, hentry⟩ := s.lookupProjected_snd lookupKey indexKey t
    rw [hentry] at hlength ⊢
    exact ⟨fun i hi => (h.primary i hi).trans_eq hlength.symm,
      fun ix hix i hi => (h.secondary ix hix i hi).trans_eq hlength.symm⟩
  · exact h.secondaryIndex key
  · have hindex := h.secondaryIndex groupBy
    exact ⟨hindex.primary, hindex.secondary⟩
  · have hindex := h.secondaryIndex groupBy
    exact ⟨hindex.primary, hindex.secondary⟩

lemma roomy_mk' (key : Key) : (mk' key).Roomy :=
  ⟨fun _ hi => lt_length_enlarge [] hi, forall_mem_nil _⟩

lemma roomy_of_moves {key : Key} (hmoves : Moves S (mk' key) s) : s.Roomy ∧ s.key = key :=
  ((ok_mk' S key).moves_induction (P := fun s => s.Roomy ∧ s.key = key) hmoves
    (fun _ hs hmove => ⟨hs.1.move hmove, hmove.key_eq.trans hs.2⟩) ⟨roomy_mk' key, rfl⟩).2

end CommonTable

/-- **Indexed lookups are exact.** In every run of a table of either kind, a lookup by the primary
key or by the key of a secondary index returns the live tuples that agree with the given one.
Hyps: `hkey`, `hnodup`, `hlength` and `ht` say that the keys fit each other and the tuple; `hvalues`
that the values looked up belong to the columns of the index key; `hstored` that stored tuples have
its fields -/
theorem lookup_exact (S : Schema) (key lookupKey indexKey : Key) (t : Tuple) (hkey : indexKey ≠ [])
    (hnodup : indexKey.Nodup) (hlength : lookupKey.length = indexKey.length)
    (ht : HasFields lookupKey t)
    (hvalues : ∀ p ∈ lookupKey.zip indexKey, ∀ v, t.fields[p.1]? = some v → v ∈ S.cols p.2)
    (hstored : ∀ u ∈ S.tuples, HasFields indexKey u) :
    (∀ maxSize lifetime ops now, Table2.AdmissibleRun S (Table2.mk' key maxSize lifetime) ops →
      ∀ s, s = (Table2.mk' key maxSize lifetime).run ops →
      (indexKey = key ∨ s.common.HasIndex indexKey) →
      ExactLookup (s.flush now).common lookupKey indexKey t
        (s.lookupProjected now lookupKey indexKey t).1 (s.lookup now indexKey t).1) ∧
    (∀ ops, (∀ op ∈ ops, RefTable.Op.Within S op) → ∀ s, s = (RefTable.mk' key).run ops →
      (indexKey = key ∨ s.common.HasIndex indexKey) →
      ExactLookup s.common lookupKey indexKey t
        (s.lookupProjected lookupKey indexKey t).1 (s.lookup indexKey t)) := by
  constructor
  · rintro maxSize lifetime ops now hops s rfl hindex
    have hstart := Table2.ok_mk' S key maxSize lifetime
    have hok := hstart.run hops
    have hflush := hok.moves_flush now
    obtain ⟨hroom, hsame⟩ := CommonTable.roomy_of_moves ((hstart.moves_run hops).trans hflush)
    exact (hok.flush now).common.exactLookup hroom hkey hnodup hlength ht hvalues hstored
      (hindex.imp (fun heq => heq.trans hsame.symm) fun hix => hix.moves hflush)
  · rintro ops hops s rfl hindex
    obtain ⟨hok, hmoves⟩ := (RefTable.ok_mk' S key).run hops
    obtain ⟨hroom, hsame⟩ := CommonTable.roomy_of_moves hmoves
    exact hok.common.exactLookup hroom hkey hnodup hlength ht hvalues hstored
      (hindex.imp_left fun heq => heq.trans hsame.symm)

lemma hasFields_row {key : Key} (hkey : ∀ i ∈ key, i < 2) (n : ℕ) :
    HasFields key (Table2.row n) := hkey

theorem lookup_exact_sampleOps :
    ExactLookup (((Table2.mk' [0] 2 .posInfin).run Table2.sampleOps).flush 15).common [0] [1]
      (Table2.row 25)
      (((Table2.mk' [0] 2 .posInfin).run Table2.sampleOps).lookupProjected 15 [0] [1]
        (Table2.row 25)).1
      (((Table2.mk' [0] 2 .posInfin).run Table2.sampleOps).lookup 15 [1] (Table2.row 25)).1 ∧
    (((Table2.mk' [0] 2 .posInfin).run Table2.sampleOps).lookupProjected 15 [0] [1]
      (Table2.row 25)).1 = some [Table2.row 12] := by
  have hvalues : ∀ p ∈ ([0] : Key).zip [1], ∀ v,
      (Table2.row 25).fields[p.1]? = some v → v ∈ Table2.rows.cols p.2 := by
    intro p _ v hv
    exact Table2.rows.typed _ (Table2.row_mem_rows 25) p.1 v hv
  have hstored : ∀ u ∈ Table2.rows.tuples, HasFields [1] u := by
    rintro _ ⟨n, rfl⟩
    exact hasFields_row (by decide) n
  have hops : Table2.AdmissibleRun Table2.rows (Table2.mk' [0] 2 .posInfin) Table2.sampleOps :=
    Table2.admissibleRun_of_length Table2.within_sampleOps (by decide)
  exact ⟨(lookup_exact Table2.rows [0] [0] [1] (Table2.row 25) (by decide) (by decide) rfl
    (hasFields_row (by decide) 25) hvalues hstored).1 2 .posInfin Table2.sampleOps 15 hops _ rfl
    (Or.inr (by decide)), rfl⟩

/-! ## With values that do not compare lawfully -/

def mixed (n : ℕ) (v : Value) : Tuple := { ID := n, fields := [.int64 (Int64.ofNat n), v] }

def mixedOps : List Table2.Op :=
  [.secondaryIndex [1], .insert ⟨0, 0, 0⟩ (mixed 1 (.str [97])),
    .insert ⟨0, 0, 0⟩ (mixed 2 (.list []))]

/-- The string and the list are each less than the other. The list is to the left of the string, and
the lookup of the list goes right. -/
theorem lookup_misses_list :
    ((Table2.mk' [0] 0 .posInfin).run mixedOps).common.HasIndex [1] ∧
    ¬ ExactLookup (((Table2.mk' [0] 0 .posInfin).run mixedOps).flush 0).common [1] [1]
      (mixed 2 (.list []))
      (((Table2.mk' [0] 0 .posInfin).run mixedOps).lookupProjected 0 [1] [1]
        (mixed 2 (.list []))).1
      (((Table2.mk' [0] 0 .posInfin).run mixedOps).lookup 0 [1] (mixed 2 (.list []))).1 := by
  refine ⟨by decide, fun h => ?_⟩
  obtain ⟨found, hfound, hperm⟩ := h.exact
  have hnone : found = [] := Option.some.inj (hfound.symm.trans rfl)
  rw [hnone] at hperm
  exact absurd hperm.length_eq (by decide)

end P2.Table
