import P2.Table.Common

/-!
# Tables that count insertions

`RefTable` has no queue and no flushing. It counts how often a tuple was inserted, and removes it
when it was removed as often.
-/

namespace P2.Table

open P2.Value P2.Lib

structure RefTable where
  common : CommonTable
  refCount : ℕ → UInt32 := fun _ => 0
  nextAddr : ℕ := 0

namespace RefTable

def mk' (key : Key) : RefTable := { common := CommonTable.mk' key }

def insertTuple (t : Tuple) (s : RefTable) : RefTable :=
  { s with
    common := s.common.commonInsertTuple ⟨s.nextAddr, t⟩
    refCount := Function.update s.refCount s.nextAddr 1
    nextAddr := s.nextAddr + 1 }

/-- `removeTuple`, at the position that `find` gave for the tuple `t`. -/
def removeTuple (t : Tuple) (toKill : Ref) (s : RefTable) : RefTable :=
  { s with common := (s.common.removeDerivatives toKill.tuple).erasePosition t }

def setCount (a : ℕ) (count : UInt32) (s : RefTable) : RefTable :=
  { s with refCount := Function.update s.refCount a count }

def insert (t : Tuple) (s : RefTable) : Bool × RefTable :=
  match s.common.primaryIndex.findKey s.common.key t with
  | none => (true, s.insertTuple t)
  | some found =>
    if found.tuple.compareTo t = .eq then
      (false, s.setCount found.addr (s.refCount found.addr + 1))
    else (true, (s.removeTuple t found).insertTuple t)

def remove (t : Tuple) (s : RefTable) : Bool × RefTable :=
  match s.common.primaryIndex.findKey s.common.key t with
  | none => (false, s)
  | some found =>
    let s := s.setCount found.addr (s.refCount found.addr - 1)
    if s.refCount found.addr = 0 then (true, s.removeTuple t found) else (false, s)

def lookupProjected (lookupKey indexKey : Key) (t : Tuple) (s : RefTable) :
    Option (List Tuple) × RefTable :=
  let found := s.common.lookupProjected lookupKey indexKey t
  (found.1, { s with common := found.2 })

def lookup (indexKey : Key) (t : Tuple) (s : RefTable) : Option (List Tuple) :=
  s.common.lookup indexKey t

/-! ## Runs -/

inductive Op where
  | insert (t : Tuple)
  | remove (t : Tuple)
  | lookupProjected (lookupKey indexKey : Key) (t : Tuple)
  | secondaryIndex (key : Key)
  | aggregate (groupBy : Key) (aggFieldNo : ℕ) (function : AggFunc)
  | aggregateMkSet (groupBy : Key) (aggFieldNo : ℕ)

def step (s : RefTable) : Op → RefTable
  | .insert t => (s.insert t).2
  | .remove t => (s.remove t).2
  | .lookupProjected lookupKey indexKey t => (s.lookupProjected lookupKey indexKey t).2
  | .secondaryIndex key => { s with common := s.common.secondaryIndex key }
  | .aggregate groupBy aggFieldNo function =>
    { s with common := s.common.aggregate groupBy aggFieldNo function }
  | .aggregateMkSet groupBy aggFieldNo =>
    { s with common := s.common.aggregateMkSet groupBy aggFieldNo }

def run (s : RefTable) (ops : List Op) : RefTable := ops.foldl step s

end RefTable

end P2.Table
