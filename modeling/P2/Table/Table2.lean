import P2.Table.Common

/-!
# Tables with a lifetime and a maximum size

`Table2` keeps its entries in a queue with one cell for each insertion and re-insertion, counts the
cells of an entry in the entry, and flushes from the back of the queue before and after each
operation.
-/

namespace P2.Table

open P2.Value P2.Lib

/-- `Entry`: the tuple, null once it was removed from the table, the time of the last insertion, and
the number of its cells in the queue, less one. -/
structure Entry where
  tuple : Option Tuple
  time : ℤ
  refCount : UInt32 := 0

/-! ## The comparators of the indices -/

/-- The comparator of tuples. -/
def keyedTupleComparator (key : Key) (first second : Tuple) : Bool := keyedLt key first second

/-- The comparator of entries, by which the indices order them; `none` where an entry has no tuple
any more. -/
def keyedEntryComparator (key : Key) (fEntry sEntry : Entry) : Option Bool := do
  let first ← fEntry.tuple
  let second ← sEntry.tuple
  return keyedLt key first second

/-- **The comparators are strict weak orders**, for every key. They agree on entries and their
tuples, and tuples that have the fields of a key that is not empty are equivalent where they agree
on them.
Hyps: `hcols` — on the values of a column `compareTo` is a total order -/
theorem comparators_strictWeakOrder (cols : ℕ → Set Value) (hcols : Lawful cols) (key : Key) :
    IsStrictWeakOrder {t // TypedOn cols key t} (fun t u => keyedTupleComparator key t u) ∧
    IsStrictWeakOrder {e : Entry // ∃ t, e.tuple = some t ∧ TypedOn cols key t}
      (fun e f => keyedEntryComparator key e f = some true) ∧
    (∀ (e f : Entry) (t u : Tuple), e.tuple = some t → f.tuple = some u →
      keyedEntryComparator key e f = some (keyedTupleComparator key t u)) ∧
    (key ≠ [] → ∀ t u : Tuple, TypedOn cols key t → TypedOn cols key u →
      HasFields key t → HasFields key u →
      (¬ keyedTupleComparator key t u ∧ ¬ keyedTupleComparator key u t ↔
        ∀ i ∈ key, ∀ a b, t.fields[i]? = some a → u.fields[i]? = some b → compareTo a b = .eq)) := by
  have hagree (e f : Entry) (t u : Tuple) (he : e.tuple = some t) (hf : f.tuple = some u) :
      keyedEntryComparator key e f = some (keyedTupleComparator key t u) := by
    simp [keyedEntryComparator, keyedTupleComparator, he, hf]
  have hweak := strictWeak_keyedLt hcols key
  refine ⟨hweak.isStrictWeakOrder Subtype.property, ?_, hagree, ?_⟩
  · -- an entry of the order is compared by its tuple
    have horder := hweak.isStrictWeakOrder (f := fun e : {e : Entry // ∃ t, e.tuple = some t ∧
      TypedOn cols key t} => e.2.choose) fun e => e.2.choose_spec.2
    convert horder using 3 with e f
    rw [hagree e f _ _ e.2.choose_spec.1 f.2.choose_spec.1, Option.some.injEq]
    rfl
  · intro hkey t u ht hu htk huk
    rw [← sameKey_iff hcols hkey ht hu htk huk]
    simp [sameKey, keyedTupleComparator]

theorem comparators_strictWeakOrder_int64 :
    IsStrictWeakOrder {t // TypedOn (fun _ => Set.range Value.int64) [1, 0, 1] t}
      (fun t u => keyedTupleComparator [1, 0, 1] t u) :=
  (comparators_strictWeakOrder (fun _ => Set.range Value.int64) (fun _ => lawfulOn_int64)
    [1, 0, 1]).1

/-- The table. Entries are named by addresses; `queue` has the back of `_queue` first. -/
structure Table2 where
  common : CommonTable
  maxSize : ℕ
  maxLifetime : TimeRep
  flushing : Bool
  heap : ℕ → Option Entry := fun _ => none
  nextAddr : ℕ := 0
  queue : List ℕ := []

namespace Table2

def mk' (key : Key) (maxSize : ℕ) (lifetime : TimeRep) : Table2 where
  common := CommonTable.mk' key
  maxSize := maxSize
  maxLifetime := lifetime
  flushing := decide (0 < maxSize) || decide (lifetime ≠ .posInfin)

def flushEntry (a : ℕ) (s : Table2) : Table2 :=
  match s.heap a with
  | none => { s with queue := s.queue.tail }
  | some e =>
    if 0 < e.refCount then
      { s with
        heap := Function.update s.heap a (some { e with refCount := e.refCount - 1 })
        queue := s.queue.tail }
    else
      { s with
        common := match e.tuple with
          | none => s.common
          | some t => (s.common.removeDerivatives t).erasePrimary t
        heap := Function.update s.heap a none
        queue := s.queue.tail }

def expiryTime (now : ℤ) : TimeRep → TimeRep
  | .ticks lifetime => .ticks (now - lifetime)
  | .negInfin => .posInfin
  | .posInfin => .negInfin
  | .notADateTime => .notADateTime

/-- The first loop of `flush`: entries leave from the back until one is not expired. -/
def flushExpired (expiry : TimeRep) : ℕ → Table2 → Table2
  | 0, s => s
  | n + 1, s =>
    match s.queue.head?, (s.queue.head?).bind s.heap with
    | some a, some e =>
      if TimeRep.lt (.ticks e.time) expiry then flushExpired expiry n (s.flushEntry a) else s
    | _, _ => s

/-- The second loop of `flush`: entries leave from the back until the table has its size. -/
def flushOversize : ℕ → Table2 → Table2
  | 0, s => s
  | n + 1, s =>
    match s.queue.head? with
    | some a =>
      if s.maxSize < s.common.primaryIndex.size then flushOversize n (s.flushEntry a) else s
    | none => s

def flush (now : ℤ) (s : Table2) : Table2 :=
  if s.flushing then
    let s := if s.maxLifetime = .posInfin then s
      else s.flushExpired (expiryTime now s.maxLifetime) s.queue.length
    if 0 < s.maxSize then s.flushOversize s.queue.length else s
  else s

/-- `insertTuple`: a new entry, in all indices and, if the table flushes, at the front of the queue. -/
def insertTuple (now : ℤ) (t : Tuple) (s : Table2) : Table2 :=
  let newEntry : Entry := { tuple := some t, time := now }
  { s with
    common := s.common.commonInsertTuple ⟨s.nextAddr, t⟩
    heap := Function.update s.heap s.nextAddr (some newEntry)
    nextAddr := s.nextAddr + 1
    queue := if s.flushing then s.queue ++ [s.nextAddr] else s.queue }

/-- `removeTuple`, at the position that `find` gave for the tuple `t`. -/
def removeTuple (t : Tuple) (toKill : Ref) (s : Table2) : Table2 :=
  let e : Option Entry :=
    if s.flushing then (s.heap toKill.addr).map fun e => { e with tuple := none } else none
  { s with
    common := (s.common.removeDerivatives toKill.tuple).erasePosition t
    heap := Function.update s.heap toKill.addr e }

def updateTime (now : ℤ) (a : ℕ) (s : Table2) : Table2 :=
  let e := (s.heap a).map fun e => { e with refCount := e.refCount + 1, time := now }
  { s with heap := Function.update s.heap a e, queue := s.queue ++ [a] }

/-- The clock readings of `insert`: by the first `flush`, for the entry, and by the last `flush`. -/
structure Clock where
  first : ℤ
  stamp : ℤ
  last : ℤ

def insertFlushed (clock : Clock) (t : Tuple) (s : Table2) : Bool × Table2 :=
  match s.common.primaryIndex.findKey s.common.key t with
  | none => (true, (s.insertTuple clock.stamp t).flush clock.last)
  | some found =>
    if found.tuple.compareTo t = .eq then
      (false, if s.flushing then s.updateTime clock.stamp found.addr else s)
    else (true, ((s.removeTuple t found).insertTuple clock.stamp t).flush clock.last)

def insert (clock : Clock) (t : Tuple) (s : Table2) : Bool × Table2 :=
  (s.flush clock.first).insertFlushed clock t

def remove (now : ℤ) (t : Tuple) (s : Table2) : Bool × Table2 :=
  let s := s.flush now
  match s.common.primaryIndex.findKey s.common.key t with
  | none => (false, s)
  | some found => (true, s.removeTuple t found)

def lookupProjected (now : ℤ) (lookupKey indexKey : Key) (t : Tuple) (s : Table2) :
    Option (List Tuple) × Table2 :=
  let s := s.flush now
  let found := s.common.lookupProjected lookupKey indexKey t
  (found.1, { s with common := found.2 })

def lookup (now : ℤ) (indexKey : Key) (t : Tuple) (s : Table2) : Option (List Tuple) × Table2 :=
  let s := s.flush now
  (s.common.lookup indexKey t, s)

def scan (now : ℤ) (s : Table2) : List Tuple × Table2 :=
  let s := s.flush now
  (s.common.scan, s)

def scanKey (now : ℤ) (key : Key) (s : Table2) : Option (List Tuple) × Table2 :=
  let s := s.flush now
  (s.common.scanKey key, s)

def secondaryIndex (key : Key) (s : Table2) : Table2 :=
  { s with common := s.common.secondaryIndex key }

def aggregate (groupBy : Key) (aggFieldNo : ℕ) (function : AggFunc) (s : Table2) : Table2 :=
  { s with common := s.common.aggregate groupBy aggFieldNo function }

def aggregateMkSet (groupBy : Key) (aggFieldNo : ℕ) (s : Table2) : Table2 :=
  { s with common := s.common.aggregateMkSet groupBy aggFieldNo }

/-! ## Runs -/

inductive Op where
  | insert (clock : Clock) (t : Tuple)
  | remove (now : ℤ) (t : Tuple)
  | lookupProjected (now : ℤ) (lookupKey indexKey : Key) (t : Tuple)
  | lookup (now : ℤ) (indexKey : Key) (t : Tuple)
  | scan (now : ℤ)
  | scanKey (now : ℤ) (key : Key)
  | flush (now : ℤ)
  | secondaryIndex (key : Key)
  | aggregate (groupBy : Key) (aggFieldNo : ℕ) (function : AggFunc)
  | aggregateMkSet (groupBy : Key) (aggFieldNo : ℕ)

def step (s : Table2) : Op → Table2
  | .insert clock t => (s.insert clock t).2
  | .remove now t => (s.remove now t).2
  | .lookupProjected now lookupKey indexKey t => (s.lookupProjected now lookupKey indexKey t).2
  | .lookup now indexKey t => (s.lookup now indexKey t).2
  | .scan now => (s.scan now).2
  | .scanKey now key => (s.scanKey now key).2
  | .flush now => s.flush now
  | .secondaryIndex key => s.secondaryIndex key
  | .aggregate groupBy aggFieldNo function => s.aggregate groupBy aggFieldNo function
  | .aggregateMkSet groupBy aggFieldNo => s.aggregateMkSet groupBy aggFieldNo

def run (s : Table2) (ops : List Op) : Table2 := ops.foldl step s

end Table2

end P2.Table
