import P2.Overlog.Syntax

/-!
# Localization

A rule whose body predicates are at several locations is split: the predicates up to the first
change of location are joined where they are, and the result is sent to the location that comes
next: `rewriteRule`.
-/

namespace P2.Planner

open P2.Value P2.Overlog

/-! ## Tables and names -/

structure TableInfo where
  tableName : Name
  timeout : TimeRep
  size : UInt32
  primaryKeys : List ℕ

/-- The table definitions. -/
abbrev Tables := List TableInfo

def getTableInfo (tables : Tables) (name : Name) : Option TableInfo :=
  tables.find? (·.tableName = name)

/-- `TableStore::addTableInfo`: a definition that is there stays. -/
def addTableInfo (info : TableInfo) (tables : Tables) : Tables :=
  match getTableInfo tables info.tableName with
  | some _ => tables
  | none => tables ++ [info]

def materialized (tables : Tables) (f : Functor) : Bool := (getTableInfo tables f.name).isSome

/-- The names of the variables of a predicate, in order and with repetitions. -/
def fieldNames (f : Functor) : List Name := f.args.filterMap Functor.varName

def fieldPosition (names : List Name) (var : Name) : Option ℕ :=
  names.findIdx? fun name => fieldNameEq name var

/-- The names that are not there yet are put behind the others. -/
def mergeWith (names : List Name) (more : List Name) : List Name :=
  more.foldl (fun names name =>
    if (fieldPosition names name).isNone then names ++ [name] else names) names

/-! ## One call -/

/-- The predicates in the order of the join: events in front, the last one first. -/
def probeTerms (tables : Tables) (rule : Rule) : List Functor :=
  rule.functors.foldl (fun probe f =>
    if materialized tables f then probe ++ [f] else f :: probe) []

def otherTerms (rule : Rule) : List Term := rule.terms.filter fun term => term.functor?.isNone

structure Scan where
  headName : Name
  names : Option (List Name) := none
  minLifetime : TimeRep := .posInfin
  before : List Functor := []

def Scan.join (tables : Tables) (f : Functor) (s : Scan) : Scan where
  headName := s.headName ++ f.name
  names := match s.names with
    | none => some (fieldNames f)
    | some names => some (mergeWith names (fieldNames f))
  minLifetime := match getTableInfo tables f.name with
    | some info => if info.timeout.lt s.minLifetime then info.timeout else s.minLifetime
    | none => .ticks 0
  before := s.before ++ [f]

inductive ScanEnd where
  | noBoundary
  /-- A change of location: what was collected, and the predicates from there on. -/
  | boundary (s : Scan) (f : Functor) (rest : List Functor)
  /-- An exception is thrown: there is no predicate, or `substr` meets an empty location. -/
  | throws

def scan (tables : Tables) (s : Scan) : List Functor → ScanEnd
  | [] => .throws
  | [_] => .noBoundary
  | f :: g :: rest =>
    if fieldNameEq f.getlocspec g.getlocspec then scan tables (s.join tables f) (g :: rest)
    else
      match g.getlocspec with
      | [] => .throws
      | _ :: loc =>
        let s := s.join tables f
        .boundary { s with headName := s.headName ++ loc } g rest

inductive Refusal where
  /-- `Unable to localize rule`: the next location is not known here. -/
  | unableToLocalize
  /-- `non-local streaming aggregate, which is not currently supported`. -/
  | streamingAggregate
  deriving DecidableEq

def local1 : Name := [76, 111, 99, 97, 108, 49]

def local2 : Name := [76, 111, 99, 97, 108, 50]

/-- `Localize_Context::addSendRule`: the rule that sends, and the tables with the one for what it
sends; `none` where the planner exits. -/
def addSendRule (tables : Tables) (nextRule : Rule) (newTerms : List Functor)
    (newFunctorName : Name) (functor : Option Functor) (loc : Name) (minLifetime : TimeRep)
    (names : List Name) : Option (Rule × Tables) :=
  if names.any (fieldNameEq loc) then
    let newHead : Functor :=
      { name := newFunctorName, args := names.map fun name => .var name (fieldNameEq loc name) }
    let newRule : Rule :=
      { ruleID := nextRule.ruleID ++ local1, head := newHead, deleteFlag := false
        terms := newTerms.map .functor }
    match functor.bind fun f => getTableInfo tables f.name with
    | some info =>
      if minLifetime ≠ .ticks 0 then
        some (newRule, addTableInfo
          { info with tableName := newFunctorName, timeout := minLifetime } tables)
      else some (newRule, tables)
    | none => some (newRule, tables)
  else none

inductive Step where
  | stays
  /-- The rule that sends, what is left of the rule, and the tables. -/
  | splits (send next : Rule) (tables : Tables)
  | exits (why : Refusal)
  | throws

/-- Whether the materialized predicates are at more than one location. -/
def manyLocales (tables : Tables) (rule : Rule) : Bool :=
  1 < ((rule.functors.filter (materialized tables)).map Functor.getlocspec).dedup.length

def step (tables : Tables) (nextRule : Rule) : Step :=
  match scan tables { headName := nextRule.ruleID } (probeTerms tables nextRule) with
  | .noBoundary => .stays
  | .throws => .throws
  | .boundary s f rest =>
    if nextRule.functors.any (fun f => !materialized tables f) ∧ manyLocales tables nextRule ∧
        nextRule.head.aggregate then .exits .streamingAggregate
    else
      match addSendRule tables nextRule s.before s.headName s.before.head? f.getlocspec
        s.minLifetime (s.names.getD []) with
      | none => .exits .unableToLocalize
      | some (newRule, tables) =>
        .splits newRule
          { ruleID := nextRule.ruleID ++ local2, head := nextRule.head, deleteFlag := false
            terms := .functor newRule.head :: (f :: rest).map .functor ++ otherTerms nextRule }
          tables

/-! ## The recursion -/

/-- `Localize_Context::add_rule`: a rule with a text that is there is dropped. -/
def add_rule (text : Expr → Name) (rules : List Rule) (rule : Rule) : List Rule :=
  if rules.any fun r => r.toString text = rule.toString text then rules else rules ++ [rule]

inductive Outcome where
  | done (rules : List Rule) (tables : Tables)
  | exit (why : Refusal)
  | thrown
  | outOfCalls

/-- `Localize_Context::rewriteRule`, with a number of calls to make. -/
def rewriteRule (text : Expr → Name) :
    (calls : ℕ) → Tables → (rules : List Rule) → Rule → Outcome
  | 0, _, _, _ => .outOfCalls
  | calls + 1, tables, rules, rule =>
    match step tables rule with
    | .stays => .done (add_rule text rules rule) tables
    | .exits why => .exit why
    | .throws => .thrown
    | .splits send next tables =>
      rewriteRule text calls tables (add_rule text rules send) next

end P2.Planner
