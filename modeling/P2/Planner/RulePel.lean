import P2.Pel.LexText
import P2.Planner.Localize

/-!
# Generating programs from expressions

`rulePel.C` writes the expressions, selections and assignments of a rule as programs of the expression
machine.
-/

namespace P2.Planner

open P2.Value P2.Overlog P2.Pel

abbrev Code := List (List UInt8)

def Code.text (code : Code) : List UInt8 := code.flatMap fun piece => piece ++ [32]

def fieldPiece (k : ℕ) : List UInt8 := 36 :: numeral k

def mathMnemonic : MathOper → String
  | .LSHIFT => "<<"
  | .RSHIFT => ">>"
  | .PLUS => "+"
  | .MINUS => "-"
  | .TIMES => "*"
  | .DIVIDE => "/"
  | .MODULUS => "%"
  | .BIT_AND => "&"
  | .BIT_OR => "|"
  | .BIT_XOR => "^"
  | .APPEND => "|||"

def rangeMnemonic : Interval → String
  | .RANGEOO => "()"
  | .RANGEOC => "(]"
  | .RANGECO => "[)"
  | .RANGECC => "[]"

def boolMnemonics : BoolOper → List String
  | .AND => ["and"]
  | .OR => ["or"]
  | .EQ => ["=="]
  | .NEQ => ["==", "not"]
  | .GT => [">"]
  | .LT => ["<"]
  | .LTE => ["<="]
  | .GTE => [">="]

/-- The functions with a fixed number of arguments: the number, the arguments whose code is written,
in order, and the mnemonic. -/
def fixedFunctions : List (String × ℕ × List ℕ × String) := [
  ("f_sha1", 1, [0], "sha1"),
  ("f_match", 2, [1, 0], "match"),
  ("f_member", 2, [0, 1], "member"),
  ("f_concat", 2, [1, 0], "concat"),
  ("f_intersect", 2, [0, 1], "intersect"),
  ("f_msintersect", 2, [0, 1], "msintersect"),
  ("f_initList", 2, [0, 1], "initlist"),
  ("f_consList", 2, [0, 1], "conslist"),
  ("f_inList", 2, [0, 1], "inlist"),
  ("f_removeLast", 1, [0], "removeLast"),
  ("f_last", 1, [0], "last"),
  ("f_size", 1, [0], "size"),
  ("f_getVectorOffset", 2, [0, 1], "getvectoroffset"),
  ("f_setVectorOffset", 3, [0, 1, 2], "setvectoroffset"),
  ("f_vectorCompare", 2, [0, 1], "vectorcompare"),
  -- the third argument is read at an index that no list of three arguments has
  ("f_getMatrixOffset", 3, [0, 1, 21], "getmatrixoffset"),
  ("f_setMatrixOffset", 4, [0, 1, 2, 3], "setmatrixoffset"),
  ("f_matrixCompare", 2, [0, 1], "matrixcompare"),
  ("f_typeOf", 1, [0], "typeOf"),
  ("f_totalComp", 2, [0, 1], "totalComp"),
  ("f_initSet", 1, [0], "initSet"),
  ("f_mod", 1, [0], "mod")]

/-- The functions whose arguments are not counted, with the code of all of them in front of their name. -/
def variadicFunctions : List String :=
  ["f_loadKeyFile", "f_createLocSpec", "f_createVersion", "f_serialize", "f_deserialize",
    "f_isLocSpec"]

/-- The code of a call, from the code of its arguments; `coin` is the text of the first argument where
that is a double. -/
def pelFunction (name : Name) (coin : Option (List UInt8)) (args : List (Option Code)) :
    Option Code :=
  if name = ascii "f_coinFlip" then coin.map fun text => [text, ascii "coin"]
  else if name = ascii "f_rand" then some [ascii "rand"]
  else if name = ascii "f_now" then some [ascii "now"]
  else if name = ascii "f_empty" then some [ascii "empty"]
  else if name = ascii "f_append" then
    match args with
    | [arg0, arg1] => do some ((← arg1) ++ (← arg0) ++ [ascii "lappend"])
    | [arg0] => do some (ascii "null" :: (← arg0) ++ [ascii "lappend"])
    | _ => none
  else
    match fixedFunctions.find? fun f => name = ascii f.1 with
    | some (_, arity, order, mnemonic) => do
      if args.length ≠ arity then none
      let codes ← order.mapM fun i => args[i]?.join
      return codes.flatten ++ [ascii mnemonic]
    | none =>
      if variadicFunctions.any fun f => name = ascii f then do
        let codes ← args.mapM id
        return codes.flatten ++ [name.drop 2]
      else none

section Generator

-- `toString` of expressions, of which programs show the text
variable (text : Expr → Name)

/-- The text of a constant: strings are put between quotes as they are. -/
def valPiece : Value → List UInt8
  | .int64 i => decimal i
  | .str s => 34 :: s ++ [34]
  | v => text (.val v)

def coinText : List Expr → Option (List UInt8)
  | .val (.double d) :: _ => some (text (.val (.double d)))
  | _ => none

variable (names : List Name)

def varPiece (name : Name) : Option (List UInt8) :=
  (fieldPosition names name).map fun pos => fieldPiece (pos + 1)

mutual

/-- The code of an expression. `~` has no second operand, whose code the planner asks for. -/
def expr2Pel : Expr → Option Code
  | .var name _ => do some [← varPiece names name]
  | .val v => some [valPiece text v]
  | .agg _ _ _ => none
  | .not lhs => do some ((← expr2Pel lhs) ++ [ascii "not"])
  | .bool oper lhs rhs => do
    some ((← expr2Pel lhs) ++ (← expr2Pel rhs) ++ (boolMnemonics oper).map ascii)
  | .range type target lhs rhs => do
    some ((← expr2Pel target) ++ (← expr2Pel lhs) ++ (← expr2Pel rhs) ++
      [ascii (rangeMnemonic type)])
  | .bitNot _ => none
  | .math oper lhs rhs => do
    some ((← expr2Pel lhs) ++ (← expr2Pel rhs) ++ [ascii (mathMnemonic oper)])
  | .function name args => pelFunction name (coinText text args) (exprs2Pel args)
  | .vector offsets =>
    some (numeral offsets.length :: ascii "initvec" ::
      offsets.zipIdx.flatMap fun (e, i) => [numeral i, text e, ascii "setvectoroffset"])
  | .vecAtom var offset => do
    some ((← varPiece names var) :: (← expr2Pel offset) ++ [ascii "getvectoroffset"])
  | .matrix rows => do
    let first ← rows.head?
    some (numeral rows.length :: numeral first.length :: ascii "initmat" ::
      rows.zipIdx.flatMap fun (row, i) => row.zipIdx.flatMap fun (e, j) =>
        [numeral j, numeral i, text e, ascii "setmatrixoffset"])
  | .matAtom var offset1 offset2 => do
    some ((← varPiece names var) :: (← expr2Pel offset2) ++ (← expr2Pel offset1) ++
      [ascii "getmatrixoffset"])

def exprs2Pel : List Expr → List (Option Code)
  | [] => []
  | e :: es => expr2Pel e :: exprs2Pel es

end

/-- The code of an assignment and the names behind it. The column of the variable is looked for with its
position among the names, which do not count the name of the table. -/
def pelAssign (a : Name) (assign : Expr) : Option (Code × List Name) := do
  let code ← expr2Pel text names assign
  let pos := fieldPosition names a
  let copies := (List.range (names.length + 1)).flatMap fun k =>
    (if some k = pos then code else [fieldPiece k]) ++ [ascii "pop"]
  match pos with
  | some _ => return (copies, names)
  | none => return (copies ++ code ++ [ascii "pop"], names ++ [a])

end Generator

end P2.Planner
