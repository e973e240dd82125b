import P2.Table.Lookup

/-!
# Range lookups

`range1DLookupSecondary` walks a secondary index from the position of the left boundary to that of
the right one and compares the two iterators for inequality only: `rangeLookup_exact_iff`.
-/

namespace P2.Table

open P2.Value P2.Lib List CommonTable SearchTree

/-! ## The interval -/

/-- The tuple is not before the left end. An empty tuple stands for no end. -/
def aboveLeft (key : Key) (openL : Bool) (lb t : Tuple) : Bool :=
  lb.fields.isEmpty || if openL then keyedLt key lb t else !keyedLt key t lb

def belowRight (key : Key) (openR : Bool) (rb t : Tuple) : Bool :=
  rb.fields.isEmpty || if openR then keyedLt key t rb else !keyedLt key rb t

/-- A lookup returns the tuples of the index that lie within the interval, each once. -/
def ExactRange (key : Key) (openL : Bool) (lb : Tuple) (openR : Bool) (rb : Tuple) (index : Index)
    (result : Option (List Tuple)) : Prop :=
  ∃ found, result = some found ∧ found.Perm ((index.toList.map (·.tuple)).filter fun t =>
    aboveLeft key openL lb t && belowRight key openR rb t)

/-! ## The lookup -/

namespace CommonTable

section Lookups

variable (key : Key) (openL : Bool) (lb : Tuple) (openR : Bool) (rb : Tuple)

def rangeStart (index : Index) : ℕ :=
  if lb.fields.length ≠ 0 ∧ openL = false then index.lower key lb
  else if lb.fields.length ≠ 0 then index.upper key lb
  else 0

def rangeEnd (index : Index) : ℕ :=
  if rb.fields.length ≠ 0 ∧ openR = false then index.upper key rb
  else if rb.fields.length ≠ 0 then index.lower key rb
  else index.size

/-- The loop, from the iterator at position `itL` with the entries from there on; `none` where it
dereferences the end of the index. -/
def walk (itR : ℕ) (itL : ℕ) (rest : List Ref) : Option (List Tuple) :=
  if itL = itR then some []
  else
    match rest with
    | [] => none
    | r :: rest => (walk itR (itL + 1) rest).map (r.tuple :: ·)

def range1DLookupSecondary (index : Index) : Option (List Tuple) :=
  let itL := rangeStart key openL lb index
  let itR := rangeEnd key openR rb index
  walk itR itL (index.toList.drop itL)

end Lookups

/-- The boundary tuple gets a field for each one of the key; `Tuple::append` asserts that the
pointer it is given is not null, and here it is. -/
def initTupleEntry (key : Key) (entry : List Value) : Option (List Value) :=
  key.foldlM (fun entry fieldNo => if entry.length < fieldNo + 1 then none else some entry) entry

/-- `range1DLookup`: an end without a key is left open. `none` where an assertion fails. -/
def range1DLookup (lKey rKey indexKey : Key) (openL openR : Bool) (t : Tuple) (s : CommonTable) :
    Option (List Tuple) := do
  if indexKey.length ≠ rKey.length ∧ indexKey.length ≠ lKey.length then none
  let eL ← if lKey = [] then some [] else initTupleEntry indexKey [] >>= project t lKey indexKey
  let eU ← if rKey = [] then some [] else initTupleEntry indexKey [] >>= project t rKey indexKey
  let index ← s.findSecondaryIndex indexKey
  range1DLookupSecondary indexKey openL ⟨0, eL, false⟩ openR ⟨0, eU, false⟩ index

lemma range1DLookup_eq_none {lKey rKey indexKey : Key} (hkey : indexKey ≠ []) (openL openR : Bool)
    (t : Tuple) (s : CommonTable) :
    range1DLookup lKey rKey indexKey openL openR t s = none := by
  have hinit : initTupleEntry indexKey [] = none := by
    obtain ⟨i, key, rfl⟩ := exists_cons_of_ne_nil hkey
    rfl
  have hpos : 0 < indexKey.length := length_pos_iff.mpr hkey
  unfold range1DLookup
  rw [hinit]
  by_cases hl : lKey = []
  · by_cases hr : rKey = []
    · have hassert : indexKey.length ≠ rKey.length ∧ indexKey.length ≠ lKey.length := by
        rw [hl, hr]
        exact ⟨hpos.ne', hpos.ne'⟩
      simp [hassert]
    · simp [hr]
  · simp [hl]

end CommonTable

/-! ## Positions -/

section Cuts

variable {S : Schema} {key : Key} {index : Index} {lb rb : Tuple}
  (hsorted : Sorted (ltRef key) index.toList)
  (htyped : ∀ r ∈ index.toList, Typed S.cols r.tuple)

include hsorted htyped

lemma lower_cut {t : Tuple} (ht : TypedOn S.cols key t) :
    (index.toList.Pairwise fun a b =>
      keyedLt key b.tuple t = true → keyedLt key a.tuple t = true) ∧
    index.lower key t = (index.toList.filter fun r => keyedLt key r.tuple t).length := by
  have hbelow := pairwise_below (k := searchEntry t) (Index.strictWeak_ltRef S key)
    hsorted (fun r hr => (htyped r hr).on key) ht
  exact ⟨hbelow, lowerBound_eq_length hbelow⟩

lemma upper_cut {t : Tuple} (ht : TypedOn S.cols key t) :
    (index.toList.Pairwise fun a b =>
      (!keyedLt key t b.tuple) = true → (!keyedLt key t a.tuple) = true) ∧
    index.upper key t = (index.toList.filter fun r => !keyedLt key t r.tuple).length := by
  have habove := pairwise_above (k := searchEntry t) (Index.strictWeak_ltRef S key)
    hsorted (fun r hr => (htyped r hr).on key) ht
  exact ⟨pairwise_not habove, upperBound_eq_length habove⟩

lemma rangeStart_cut (openL : Bool) (hlb : TypedOn S.cols key lb) :
    (index.toList.Pairwise fun a b =>
      (!aboveLeft key openL lb b.tuple) = true → (!aboveLeft key openL lb a.tuple) = true) ∧
    rangeStart key openL lb index =
      (index.toList.filter fun r => !aboveLeft key openL lb r.tuple).length := by
  unfold rangeStart aboveLeft
  by_cases hempty : lb.fields = []
  · simp [hempty, pairwise_of_forall]
  · cases openL with
    | false => simpa [hempty, isEmpty_eq_false_iff.mpr hempty] using lower_cut hsorted htyped hlb
    | true => simpa [hempty, isEmpty_eq_false_iff.mpr hempty] using upper_cut hsorted htyped hlb

lemma rangeEnd_cut (openR : Bool) (hrb : TypedOn S.cols key rb) :
    (index.toList.Pairwise fun a b =>
      belowRight key openR rb b.tuple = true → belowRight key openR rb a.tuple = true) ∧
    rangeEnd key openR rb index =
      (index.toList.filter fun r => belowRight key openR rb r.tuple).length := by
  unfold rangeEnd belowRight
  by_cases hempty : rb.fields = []
  · simp [hempty, pairwise_of_forall, length_toList]
  · cases openR with
    | false => simpa [hempty, isEmpty_eq_false_iff.mpr hempty] using upper_cut hsorted htyped hrb
    | true => simpa [hempty, isEmpty_eq_false_iff.mpr hempty] using lower_cut hsorted htyped hrb

end Cuts

/-! ## The walk -/

section Walk

variable {itL itR : ℕ} {rest : List Ref}

lemma walk_of_le (hle : itL ≤ itR) (hend : itR ≤ itL + rest.length) :
    walk itR itL rest = some ((rest.take (itR - itL)).map (·.tuple)) := by
  induction rest generalizing itL with
  | nil =>
    have heq : itL = itR := by simpa using Nat.le_antisymm hle hend
    rw [walk, if_pos heq, take_nil]
    rfl
  | cons r rest ih =>
    rcases hle.eq_or_lt with heq | hlt
    · rw [walk, if_pos heq, heq, Nat.sub_self]
      rfl
    · rw [length_cons] at hend
      have hsucc : itR - itL = itR - (itL + 1) + 1 := by omega
      rw [walk, if_neg hlt.ne, ih hlt (by omega), hsucc]
      rfl

lemma walk_of_lt (hlt : itR < itL) : walk itR itL rest = none := by
  induction rest generalizing itL with
  | nil => rw [walk, if_neg hlt.ne']
  | cons r rest ih => rw [walk, if_neg hlt.ne', ih (Nat.lt_succ_of_lt hlt), Option.map_none]

end Walk

lemma exactRange_iff {S : Schema} {key : Key} {index : Index} {lb rb : Tuple}
    (hsorted : Sorted (ltRef key) index.toList)
    (htyped : ∀ r ∈ index.toList, Typed S.cols r.tuple) (openL openR : Bool)
    (hlb : TypedOn S.cols key lb) (hrb : TypedOn S.cols key rb) :
    ExactRange key openL lb openR rb index
        (range1DLookupSecondary key openL lb openR rb index) ↔
      ∀ r ∈ index.toList, aboveLeft key openL lb r.tuple ∨ belowRight key openR rb r.tuple := by
  obtain ⟨hbefore, hstart⟩ := rangeStart_cut hsorted htyped openL hlb
  obtain ⟨hwithin, hend⟩ := rangeEnd_cut hsorted htyped openR hrb
  have hcond : (∀ r ∈ index.toList,
      aboveLeft key openL lb r.tuple ∨ belowRight key openR rb r.tuple) ↔
      rangeStart key openL lb index ≤ rangeEnd key openR rb index := by
    rw [hstart, hend, length_filter_le_iff hbefore hwithin]
    refine forall₂_congr fun r _ => ?_
    rw [Bool.not_eq_true', ← Bool.not_eq_true, or_iff_not_imp_left]
  rw [hcond]
  unfold range1DLookupSecondary
  constructor
  · rintro ⟨found, hfound, -⟩
    by_contra hle
    rw [walk_of_lt (not_le.mp hle)] at hfound
    cases hfound
  · intro hle
    have hsize : rangeEnd key openR rb index ≤ index.toList.length := by
      rw [hend]
      exact length_filter_le _ _
    refine ⟨_, walk_of_le hle (by rw [length_drop]; omega), ?_⟩
    rw [← drop_take, hstart, hend, drop_take_filter hbefore hwithin
        ((length_filter_le_iff hbefore hwithin).mp (hstart ▸ hend ▸ hle)),
      filter_map]
    simp only [Bool.not_not]
    rfl

lemma CommonTable.Ok.index_spec {S : Schema} {s : CommonTable} (hok : s.Ok S) {key : Key}
    {index : Index} (hindex : s.findSecondaryIndex key = some index) :
    Sorted (ltRef key) index.toList ∧ ∀ r ∈ index.toList, Typed S.cols r.tuple := by
  obtain ⟨hsorted, hperm⟩ := hok.indexed _ (mem_indices_of_findSecondaryIndex hindex)
  exact ⟨hsorted, fun r hr => S.typed _ (hok.stored r (hperm.mem_iff.mp hr))⟩

/-- `Table2::range1DLookupSecondary`: first the old tuples leave. -/
def Table2.range1DLookupSecondary (now : ℤ) (indexKey : Key) (openL : Bool) (lb : Tuple)
    (openR : Bool) (rb : Tuple) (s : Table2) : Option (List Tuple) × Table2 :=
  let s := s.flush now
  ((s.common.findSecondaryIndex indexKey).bind
    (CommonTable.range1DLookupSecondary indexKey openL lb openR rb), s)

/-- **When range lookups are exact.** In every run of a table of either kind, a range lookup in a
secondary index returns the tuples within the interval exactly if no tuple of the index is both
before the left end and behind the right end; else the walk passes the end of the index.
Hyps: `hlb`, `hrb` say that the values of the boundaries belong to the columns of the index key -/
theorem rangeLookup_exact_iff (S : Schema) (key indexKey : Key) (openL openR : Bool) (lb rb : Tuple)
    (hlb : TypedOn S.cols indexKey lb) (hrb : TypedOn S.cols indexKey rb) :
    (∀ maxSize lifetime ops now, Table2.AdmissibleRun S (Table2.mk' key maxSize lifetime) ops →
      ∀ s, s = (Table2.mk' key maxSize lifetime).run ops →
      ∀ index, (s.flush now).common.findSecondaryIndex indexKey = some index →
      (ExactRange indexKey openL lb openR rb index
          (s.range1DLookupSecondary now indexKey openL lb openR rb).1 ↔
        ∀ r ∈ index.toList,
          aboveLeft indexKey openL lb r.tuple ∨ belowRight indexKey openR rb r.tuple)) ∧
    (∀ ops, (∀ op ∈ ops, RefTable.Op.Within S op) → ∀ s, s = (RefTable.mk' key).run ops →
      ∀ index, s.common.findSecondaryIndex indexKey = some index →
      (ExactRange indexKey openL lb openR rb index
          (CommonTable.range1DLookupSecondary indexKey openL lb openR rb index) ↔
        ∀ r ∈ index.toList,
          aboveLeft indexKey openL lb r.tuple ∨ belowRight indexKey openR rb r.tuple)) := by
  constructor
  · rintro maxSize lifetime ops now hops s rfl index hindex
    have hok := (((Table2.ok_mk' S key maxSize lifetime).run hops).flush now).common
    obtain ⟨hsorted, htyped⟩ := hok.index_spec hindex
    unfold Table2.range1DLookupSecondary
    simp only [hindex, Option.bind_some]
    exact exactRange_iff hsorted htyped openL openR hlb hrb
  · rintro ops hops s rfl index hindex
    have hok := ((RefTable.ok_mk' S key).run hops).1.common
    obtain ⟨hsorted, htyped⟩ := hok.index_spec hindex
    exact exactRange_iff hsorted htyped openL openR hlb hrb

def noEnd : Tuple := ⟨0, [], false⟩

theorem rangeLookup_exact_sampleOps :
    ∃ index, (((Table2.mk' [0] 2 .posInfin).run Table2.sampleOps).flush 15).common.findSecondaryIndex
        [1] = some index ∧
      ExactRange [1] false (Table2.row 2) false noEnd index
        (((Table2.mk' [0] 2 .posInfin).run Table2.sampleOps).range1DLookupSecondary 15 [1] false
          (Table2.row 2) false noEnd).1 := by
  have hlb : TypedOn Table2.rows.cols [1] (Table2.row 2) :=
    (Table2.rows.typed _ (Table2.row_mem_rows 2)).on [1]
  have hrb : TypedOn Table2.rows.cols [1] noEnd := by
    intro i _ v hv
    cases hv
  have hops : Table2.AdmissibleRun Table2.rows (Table2.mk' [0] 2 .posInfin) Table2.sampleOps :=
    Table2.admissibleRun_of_length Table2.within_sampleOps (by decide)
  have hindex : (((Table2.mk' [0] 2 .posInfin).run Table2.sampleOps).flush 15).common.HasIndex [1] := by
    decide
  obtain ⟨index, hindex⟩ := hindex.exists_index
  refine ⟨index, hindex, ?_⟩
  exact ((rangeLookup_exact_iff Table2.rows [0] [1] false false (Table2.row 2) noEnd hlb hrb).1 2
    .posInfin Table2.sampleOps 15 hops _ rfl index hindex).mpr fun _ _ => .inr rfl

/-- With a left boundary above the right one, or with equal boundaries at open ends, the walk passes
the end of the index. -/
theorem rangeLookup_passes_end :
    ∃ index, (((Table2.mk' [0] 2 .posInfin).run Table2.sampleOps).flush 15).common.findSecondaryIndex
        [1] = some index ∧
      ¬ ExactRange [1] false (Table2.row 9) false (Table2.row 1) index
        (((Table2.mk' [0] 2 .posInfin).run Table2.sampleOps).range1DLookupSecondary 15 [1] false
          (Table2.row 9) false (Table2.row 1)).1 ∧
      ¬ ExactRange [1] true (Table2.row 2) true (Table2.row 2) index
        (((Table2.mk' [0] 2 .posInfin).run Table2.sampleOps).range1DLookupSecondary 15 [1] true
          (Table2.row 2) true (Table2.row 2)).1 := by
  refine ⟨_, rfl, ?_, ?_⟩
  · rintro ⟨found, hfound, -⟩
    cases hfound
  · rintro ⟨found, hfound, -⟩
    cases hfound

end P2.Table
