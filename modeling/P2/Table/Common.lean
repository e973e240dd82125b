import P2.Table.Key

/-!
# What all tables share

`CommonTable`: a primary index, secondary indices made on demand, aggregates that follow every
change, and lookups along keys.
-/

namespace P2.Table

open P2.Value P2.Lib

/-- An element of an index: a pointer to an entry, with the tuple of the entry. An entry keeps its
tuple while it is in an index. -/
structure Ref where
  addr : ℕ
  tuple : Tuple

def ltRef (key : Key) (a b : Ref) : Bool := keyedLt key a.tuple b.tuple

/-- `searchEntry`: an entry that stands for a tuple to look for. -/
def searchEntry (t : Tuple) : Ref := ⟨0, t⟩

abbrev Index := SearchTree Ref

namespace Index

def lower (key : Key) (t : Tuple) (index : Index) : ℕ :=
  index.lowerBound (ltRef key · (searchEntry t))

def upper (key : Key) (t : Tuple) (index : Index) : ℕ :=
  index.upperBound (ltRef key (searchEntry t))

/-- The entries from `lower_bound(&searchEntry)` to `upper_bound(&searchEntry)`. -/
def equalRange (key : Key) (t : Tuple) (index : Index) : List Ref :=
  index.range (index.lower key t) (index.upper key t)

def findKey (key : Key) (t : Tuple) (index : Index) : Option Ref :=
  index.find (ltRef key · (searchEntry t)) (ltRef key (searchEntry t))

def eraseKeyed (key : Key) (t : Tuple) (index : Index) : Index :=
  index.eraseKey (ltRef key · (searchEntry t)) (ltRef key (searchEntry t))

/-- The loop of `removeDerivatives` over one index: the first entry of the equal range whose tuple
is the removed one, by identifier, is erased. -/
def eraseTuple (key : Key) (t : Tuple) (index : Index) : Index :=
  match (index.equalRange key t).findIdx? (fun r => r.tuple.ID == t.ID) with
  | some j => index.eraseIdx (index.lower key t + j)
  | none => index

/-- The loops of `removeDerivatives` and `AggregateObj::update` stop at the upper bound only. Where that
lies before the lower bound they run off the end of the index. -/
def runsOff (key : Key) (t : Tuple) (index : Index) : Bool := index.upper key t < index.lower key t

end Index

/-! ## Aggregates -/

inductive AggFunc where
  | MIN
  | MAX
  | COUNT
  | COUNTDISTINCT
  deriving DecidableEq

namespace AggFunc

/-- `AggMin::first` and `AggMin::process` over the values, or `AggMax`'s: the first value is kept
until a value compares the given way with it. -/
def extremum (better : Ordering) : List Value → Value
  | [] => .null
  | v :: vs => vs.foldl (fun current v => if compareTo v current = better then v else current) v

/-- `reset`, then `first` and `process` over the values, then `result`. -/
def compute : AggFunc → List Value → Value
  | MIN, vs => extremum .lt vs
  | MAX, vs => extremum .gt vs
  | COUNT, vs => .int64 (Int64.ofNat vs.length)
  | COUNTDISTINCT, vs => .int64 (Int64.ofNat
      (vs.foldl (fun t v => t.insertUnique comparator v) SearchTree.nil).size)

end AggFunc

/-- An aggregate: its group-by key, the field it is over, its function, the results it remembers and
what it has sent to its listeners so far. -/
structure AggregateObj where
  /-- `_key`: the group-by fields; `_index` is the secondary index on them. -/
  key : Key
  aggField : ℕ
  aggregateFn : AggFunc
  /-- `_currentAggregates`: the last result for a tuple that stands for its group. -/
  currentAggregates : SearchTree (Tuple × Value) := .nil
  sent : List (List Value) := []

namespace AggregateObj

def ltGroup (key : Key) (a b : Tuple × Value) : Bool := keyedLt key a.1 b.1

/-- The fields of a group-by key, as the loops that put together `updateTuple` read them. -/
def groupFields (key : Key) (t : Tuple) : List Value := key.filterMap fun i => t.fields[i]?

/-- The aggregate of the group of a tuple, if the loop over the index stops. -/
def resultFor (index : Index) (changedTuple : Tuple) (a : AggregateObj) : Value :=
  a.aggregateFn.compute
    ((index.equalRange a.key changedTuple).filterMap fun r => r.tuple.fields[a.aggField]?)

def remember (changedTuple : Tuple) (result : Value) (a : AggregateObj) : AggregateObj :=
  { a with
    currentAggregates :=
      a.currentAggregates.insertUnique (ltGroup a.key) (changedTuple, result)
    sent := a.sent ++ [groupFields a.key changedTuple ++ [result]] }

def forget (changedTuple : Tuple) (a : AggregateObj) : AggregateObj :=
  let group := (changedTuple, Value.null)
  { a with
    currentAggregates := a.currentAggregates.eraseKey (ltGroup a.key · group) (ltGroup a.key group) }

/-- `AggregateObj::update`: the result of the group is recomputed, and sent if none was remembered
or a different one. -/
def update (index : Index) (changedTuple : Tuple) (a : AggregateObj) : AggregateObj :=
  let result := a.resultFor index changedTuple
  let group := (changedTuple, Value.null)
  match a.currentAggregates.find (ltGroup a.key · group) (ltGroup a.key group) with
  | none => a.remember changedTuple result
  | some remembered =>
    if compareTo remembered.2 result = .eq then a
    else (a.forget changedTuple).remember changedTuple result

end AggregateObj

/-! ## Aggregates that collect sets

The function `MKSET` has one `Set` object, which it fills again for each group. Its results are
values that refer to this object. -/

abbrev SetPtr := ℕ

abbrev SetStore := List (SearchTree Value)

namespace SetStore

def elements (sets : SetStore) (p : SetPtr) : List Value := (sets.getD p .nil).toList

def clear (p : SetPtr) (sets : SetStore) : SetStore := sets.set p .nil

def insert (p : SetPtr) (sets : SetStore) (v : Value) : SetStore :=
  sets.modify p (·.insertUnique comparator v)

end SetStore

structure SetNotification where
  fields : List Value
  set : SetPtr
  read : List Value

structure MkSetObj where
  /-- `_key`: the group-by fields; `_index` is the secondary index on them. -/
  key : Key
  aggField : ℕ
  set : SetPtr
  /-- `_currentAggregates`: the last result for a tuple that stands for its group. -/
  currentAggregates : SearchTree (Tuple × SetPtr) := .nil
  sent : List SetNotification := []

namespace MkSetObj

def ltGroup (key : Key) (a b : Tuple × SetPtr) : Bool := keyedLt key a.1 b.1

/-- `AggMkSet::reset`, then `first` and `process` over the values of the group of a tuple. -/
def collect (index : Index) (changedTuple : Tuple) (sets : SetStore) (a : MkSetObj) : SetStore :=
  ((index.equalRange a.key changedTuple).filterMap fun r => r.tuple.fields[a.aggField]?).foldl
    (SetStore.insert a.set) (sets.clear a.set)

def remember (changedTuple : Tuple) (result : SetPtr) (sets : SetStore) (a : MkSetObj) : MkSetObj :=
  { a with
    currentAggregates :=
      a.currentAggregates.insertUnique (ltGroup a.key) (changedTuple, result)
    sent := a.sent ++
      [⟨AggregateObj.groupFields a.key changedTuple, result, sets.elements result⟩] }

def forget (changedTuple : Tuple) (a : MkSetObj) : MkSetObj :=
  let group := (changedTuple, a.set)
  { a with
    currentAggregates := a.currentAggregates.eraseKey (ltGroup a.key · group) (ltGroup a.key group) }

/-- `AggregateObj::update`: the object is filled with the values of the group. It is the result, and
it is sent if none was remembered or one whose object now has different elements. -/
def update (index : Index) (changedTuple : Tuple) (sets : SetStore) (a : MkSetObj) :
    SetStore × MkSetObj :=
  let sets := a.collect index changedTuple sets
  let result := a.set
  let group := (changedTuple, result)
  match a.currentAggregates.find (ltGroup a.key · group) (ltGroup a.key group) with
  | none => (sets, a.remember changedTuple result sets)
  | some remembered =>
    if compareElements (sets.elements remembered.2) (sets.elements result) = .eq then (sets, a)
    else (sets, (a.forget changedTuple).remember changedTuple result sets)

def updateAll (index : Key → Index) (changedTuple : Tuple) :
    SetStore → List MkSetObj → SetStore × List MkSetObj
  | sets, [] => (sets, [])
  | sets, a :: as =>
    let first := a.update (index a.key) changedTuple sets
    let rest := updateAll index changedTuple first.1 as
    (rest.1, first.2 :: rest.2)

end MkSetObj

/-! ## The table -/

/-- The state all tables share. Listeners other than those of aggregates are left out: they do not
reach back into the table. Once a loop has run off the end of an index (`faulted`), the other fields
mean nothing. -/
structure CommonTable where
  key : Key
  primaryIndex : Index := .nil
  indices : List (Key × Index) := []
  lookupSearchEntry : List Value := []
  aggregates : List AggregateObj := []
  mkSets : List MkSetObj := []
  sets : SetStore := []
  faulted : Bool := false

namespace CommonTable

/-- `CommonTable::lookupSearchEntry`: the search tuple grows until it has the fields of a key. -/
def enlarge (key : Key) (entry : List Value) : List Value :=
  key.foldl (fun entry i => entry ++ List.replicate (i + 1 - entry.length) .null) entry

def mk' (key : Key) : CommonTable := { key := key, lookupSearchEntry := enlarge key [] }

def findSecondaryIndex (key : Key) (s : CommonTable) : Option Index := s.indices.lookup key

/-- `createSecondaryIndex`: the new index receives all entries of the primary index, in order. -/
def createSecondaryIndex (key : Key) (s : CommonTable) : CommonTable :=
  { s with
    indices := s.indices ++
      [(key, s.primaryIndex.toList.foldl (fun index r => index.insertEqual (ltRef key) r) .nil)]
    lookupSearchEntry := enlarge key s.lookupSearchEntry }

def secondaryIndex (key : Key) (s : CommonTable) : CommonTable :=
  match s.findSecondaryIndex key with
  | none => s.createSecondaryIndex key
  | some _ => s

def aggregate (groupBy : Key) (aggFieldNo : ℕ) (function : AggFunc) (s : CommonTable) :
    CommonTable :=
  { s.secondaryIndex groupBy with
    aggregates := s.aggregates ++ [{ key := groupBy, aggField := aggFieldNo,
                                     aggregateFn := function }] }

/-- `aggregate` with the function `MKSET`, which comes with a new `Set` object. -/
def aggregateMkSet (groupBy : Key) (aggFieldNo : ℕ) (s : CommonTable) : CommonTable :=
  { s.secondaryIndex groupBy with
    mkSets := s.mkSets ++ [{ key := groupBy, aggField := aggFieldNo, set := s.sets.length }]
    sets := s.sets ++ [.nil] }

/-- All aggregates are updated for a changed tuple, each from the index on its key. -/
def updateAggregates (t : Tuple) (s : CommonTable) : CommonTable :=
  let index key := (s.findSecondaryIndex key).getD .nil
  let updated := MkSetObj.updateAll index t s.sets s.mkSets
  { s with
    aggregates := s.aggregates.map fun a => a.update (index a.key) t
    mkSets := updated.2
    sets := updated.1
    faulted := s.faulted || s.aggregates.any (fun a => (index a.key).runsOff a.key t) ||
      s.mkSets.any fun a => (index a.key).runsOff a.key t }

/-- `commonInsertTuple`: the new entry goes into the primary index and all secondary ones, then the
aggregates are updated. -/
def commonInsertTuple (newEntry : Ref) (s : CommonTable) : CommonTable :=
  updateAggregates newEntry.tuple
    { s with
      primaryIndex := s.primaryIndex.insertUnique (ltRef s.key) newEntry
      indices := s.indices.map fun ix => (ix.1, ix.2.insertEqual (ltRef ix.1) newEntry) }

/-- `removeDerivatives`: the tuple leaves the secondary indices, then the aggregates are updated. -/
def removeDerivatives (t : Tuple) (s : CommonTable) : CommonTable :=
  updateAggregates t
    { s with
      indices := s.indices.map fun ix => (ix.1, ix.2.eraseTuple ix.1 t)
      faulted := s.faulted || s.indices.any fun ix => ix.2.runsOff ix.1 t &&
        !(ix.2.equalRange ix.1 t).any fun r => r.tuple.ID == t.ID }

def erasePrimary (t : Tuple) (s : CommonTable) : CommonTable :=
  { s with primaryIndex := s.primaryIndex.eraseKeyed s.key t }

/-- `_primaryIndex.erase(position)` at the position of `find(&searchEntry)`. -/
def erasePosition (t : Tuple) (s : CommonTable) : CommonTable :=
  { s with primaryIndex := s.primaryIndex.eraseIdx (s.primaryIndex.lower s.key t) }

/-! ## Lookups and scans -/

/-- `project`: the lookup fields are written over the fields of the index key; `none` where the
source tuple lacks a field. -/
def project (source : Tuple) : Key → Key → List Value → Option (List Value)
  | s :: sourceKey, d :: destinationKey, destination => do
    let v ← source.fields[s]?
    project source sourceKey destinationKey (destination.set d v)
  | _, _, destination => some destination

def lookupPrimary (t : Tuple) (s : CommonTable) : List Tuple :=
  match s.primaryIndex.findKey s.key t with
  | some _ => (s.primaryIndex.equalRange s.key t).map (·.tuple)
  | none => []

def lookupSecondary (key : Key) (t : Tuple) (index : Index) : List Tuple :=
  (index.equalRange key t).map (·.tuple)

/-- The index of a key and the lookup in it: the primary index if it is the primary key, else the
secondary index, if there is one. -/
def lookup (indexKey : Key) (t : Tuple) (s : CommonTable) : Option (List Tuple) :=
  if indexKey = s.key then some (s.lookupPrimary t)
  else (s.findSecondaryIndex indexKey).map (lookupSecondary indexKey t)

/-- The lookup with projection, which uses the search tuple of the table and leaves it changed;
`none` where an assertion fails, a field is missing or there is no index. -/
def lookupProjected (lookupKey indexKey : Key) (t : Tuple) (s : CommonTable) :
    Option (List Tuple) × CommonTable :=
  if lookupKey.length ≠ indexKey.length then (none, s)
  else if indexKey ≠ s.key ∧ (s.findSecondaryIndex indexKey).isNone then (none, s)
  else
    match project t lookupKey indexKey s.lookupSearchEntry with
    | none => (none, s)
    | some entry =>
      let s := { s with lookupSearchEntry := entry }
      (s.lookup indexKey ⟨0, entry, false⟩, s)

def scan (s : CommonTable) : List Tuple := s.primaryIndex.toList.map (·.tuple)

def scanKey (key : Key) (s : CommonTable) : Option (List Tuple) :=
  if key = s.key then some s.scan
  else (s.findSecondaryIndex key).map fun index => index.toList.map (·.tuple)

end CommonTable

end P2.Table
