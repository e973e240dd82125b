import P2.Value.Basic

/-!
# Overlog

Rules as the parser builds them.

The text of expressions other than variables is left to a function `text`.
-/

namespace P2.Overlog

abbrev Name := List UInt8

def at' : UInt8 := 64

/-- Equality of names, where one of them may have an at sign more in front. The first character of an
empty string is the null character. -/
def fieldNameEq (n₁ n₂ : Name) : Bool :=
  if (n₁.head? = some at' ∧ n₂.head? = some at') ∨ (n₁.head? ≠ some at' ∧ n₂.head? ≠ some at') then
    n₁ = n₂
  else if n₁.head? = some at' ∧ n₂.head? ≠ some at' then n₁.tail = n₂
  else n₂.tail = n₁

inductive BoolOper where
  | AND | OR | EQ | NEQ | GT | LT | LTE | GTE
  deriving DecidableEq

inductive Interval where
  | RANGEOO | RANGEOC | RANGECO | RANGECC
  deriving DecidableEq

inductive MathOper where
  | LSHIFT | RSHIFT | PLUS | MINUS | TIMES | DIVIDE | MODULUS | BIT_XOR | BIT_AND | APPEND | BIT_OR
  deriving DecidableEq

inductive Expr where
  | var (name : Name) (locspec : Bool)
  | val (v : Value)
  | agg (oper var : Name) (locspec : Bool)
  | not (lhs : Expr)
  | bool (oper : BoolOper) (lhs rhs : Expr)
  | range (type : Interval) (target lhs rhs : Expr)
  | bitNot (lhs : Expr)
  | math (oper : MathOper) (lhs rhs : Expr)
  | function (name : Name) (args : List Expr)
  | vector (offsets : List Expr)
  | vecAtom (var : Name) (offset : Expr)
  | matrix (rows : List (List Expr))
  | matAtom (var : Name) (offset1 offset2 : Expr)

/-- A predicate. -/
structure Functor where
  name : Name
  args : List Expr

namespace Functor

def argLoc : Expr → Option Name
  | .var name true => some (at' :: name)
  | .agg _ name true => some (at' :: name)
  | _ => none

/-- The location specifier, empty where there is none or more than one. -/
def getlocspec (f : Functor) : Name :=
  match f.args.filterMap argLoc with
  | [loc] => loc
  | _ => []

def aggregate (f : Functor) : Bool :=
  f.args.any fun
    | .agg _ _ _ => true
    | _ => false

def varName : Expr → Option Name
  | .var name _ => some name
  | _ => none

def argText (text : Expr → Name) : Expr → Name
  | .var name true => at' :: name
  | .var name false => name
  | e => text e

def commas : List Name → Name
  | [] => []
  | [t] => t
  | t :: ts => t ++ [44, 32] ++ commas ts

/-- `Parse_Functor::toString`: no closing parenthesis where there are no arguments. -/
def toString (text : Expr → Name) (f : Functor) : Name :=
  f.name ++ [40] ++ commas (f.args.map (argText text)) ++ (if f.args = [] then [] else [41])

end Functor

/-- A term of a rule body. -/
inductive Term where
  | functor (f : Functor)
  | assign (var : Name) (assign : Expr)
  | select (select : Expr)

namespace Term

def functor? : Term → Option Functor
  | .functor f => some f
  | _ => none

def toString (text : Expr → Name) : Term → Name
  | .functor f => f.toString text
  | .assign var e => var ++ [32, 58, 61, 32] ++ text e
  | .select e => text e

end Term

/-- A rule. -/
structure Rule where
  ruleID : Name
  head : Functor
  deleteFlag : Bool
  terms : List Term

namespace Rule

def functors (rule : Rule) : List Functor := rule.terms.filterMap Term.functor?

def toString (text : Expr → Name) (rule : Rule) : Name :=
  rule.ruleID ++ [32] ++ rule.head.toString text ++ [32, 58, 45, 32] ++
    Functor.commas (rule.terms.map (Term.toString text)) ++ [46]

end Rule

end P2.Overlog
