import P2.Planner.LocalizeSound
import P2.Table.Lookup

/-!
# Probes

The planner joins the event of a rule with one table after the other. For each table it writes a lookup,
with the fields to look for, and a projection that keeps the fields of the probe and those of the row
that are new; it merges the names of the predicate into the names of the probe.
-/

namespace P2.Planner

open P2.Value P2.Overlog P2.Table

/-! ## The plan -/

structure JoinKeys where
  lookupKey : Key := []
  indexKey : Key := []
  remainingBaseKey : Key := []

def joinKeysFrom (probeNames : List Name) : (myFieldNo : ℕ) → List Name → JoinKeys
  | _, [] => {}
  | myFieldNo, name :: names =>
    let keys := joinKeysFrom probeNames (myFieldNo + 1) names
    match fieldPosition probeNames name with
    | none => { keys with remainingBaseKey := myFieldNo :: keys.remainingBaseKey }
    | some probePosition =>
      { keys with
        lookupKey := (probePosition + 1) :: keys.lookupKey
        indexKey := myFieldNo :: keys.indexKey }

/-- `joinKeys`: fields are counted from one, behind the name of the table. -/
def joinKeys (names probeNames : List Name) : JoinKeys := joinKeysFrom probeNames 1 names

/-- What the projection behind a lookup takes out, in order. -/
inductive Take where
  | text (text : Name)
  | probe (k : ℕ)
  | base (k : ℕ)

def joinText : Name := [106, 111, 105, 110]

/-- The elements of a probe: the `Lookup2`, `NoNull` and `PelTransform`. -/
structure Probe where
  table : Name
  keys : JoinKeys
  pelProject : List Take

/-- The elements for a table predicate and the names behind it; `none` where the planner exits because
no field is compared. -/
def generateProbeElements (ruleID eventName : Name) (names : List Name) (inner : Functor) :
    Option (Probe × List Name) :=
  let keys := joinKeys (fieldNames inner) names
  if keys.lookupKey = [] ∨ keys.indexKey = [] then none
  else
    some ({ table := inner.name, keys := keys
            pelProject := .text (joinText ++ eventName ++ inner.name ++ ruleID) ::
              (List.range names.length).map (fun k => .probe (k + 1)) ++
              keys.remainingBaseKey.map .base },
      mergeWith names (fieldNames inner))

def generateMultipleProbeElements (ruleID eventName : Name) :
    List Name → List Functor → Option (List Probe)
  | _, [] => some []
  | names, f :: fs => do
    let (probe, names) ← generateProbeElements ruleID eventName names f
    let probes ← generateMultipleProbeElements ruleID eventName names fs
    return probe :: probes

/-! ## The run -/

/-- The lookup of the element: the tables are asked with a projection if the keys differ. -/
def lookup2 (table : CommonTable) (keys : JoinKeys) (t : Tuple) : Option (List Tuple) :=
  if keys.lookupKey ≠ keys.indexKey then (table.lookupProjected keys.lookupKey keys.indexKey t).1
  else table.lookup keys.indexKey t

def emptyTuple : Tuple := { ID := 0, fields := [] }

/-- The second parts of the pairs that are pulled, one after the other. If nothing is found, one
pair has the empty tuple; `NoNull` looks at the size of the pair only and lets it pass. -/
def pulled (found : List Tuple) : List Tuple := if found = [] then [emptyTuple] else found

/-- What one piece of the projection takes out of a pair; `none` where `Tuple::operator[]` throws. -/
def Take.run (probe base : Tuple) : Take → Option Value
  | .text s => some (.str s)
  | .probe k => probe.fields[k]?
  | .base k => base.fields[k]?

/-- The projection of a pair. -/
def transform (pelProject : List Take) (probe base : Tuple) : Option Tuple :=
  (pelProject.mapM (Take.run probe base)).map fun fields => { ID := 0, fields := fields }

/-- The tuples that a probe makes of one; `none` where an assertion fails or an exception leaves the
element. -/
def runProbe (table : Name → CommonTable) (p : Probe) (t : Tuple) : Option (List Tuple) := do
  let found ← lookup2 (table p.table) p.keys t
  (pulled found).mapM (transform p.pelProject t)

/-- The tuples that all probes make, each of what the one before it made. -/
def runProbes (table : Name → CommonTable) : List Probe → List Tuple → Option (List Tuple)
  | [], ts => some ts
  | p :: ps, ts => do
    let found ← ts.mapM (runProbe table p)
    runProbes table ps found.flatten

def namesBehind (event : Functor) (terms : List Functor) : List Name :=
  terms.foldl (fun names f => mergeWith names (fieldNames f)) (fieldNames event)

end P2.Planner
