import Mathlib.Data.List.Sort
import P2.Pel.Oper

/-!
# The instructions of the expression machine

The bodies of all opcodes, the jump table that `pel_gen.py` emits, and the loop that executes a
program.
-/

namespace P2.Pel

open P2.Value P2.Lib.Exec

def ascii (s : String) : List UInt8 := s.toList.map fun c => UInt8.ofNat c.toNat

section Bodies

variable (env : Env) (inst : UInt32)

def textPtr (p : Ptr) : VM (List UInt8) := read fun h => toString env.host h env.host.room p

def typeOf (p : Ptr) : VM TypeCode := read fun _ => Obj.typeCode <$> deref p

def callHelper (f : Helper) (args : List Ptr) : VM Ptr := do
  let (p, h) ← read fun h => env.host.helper f args h
  modify fun s => { s with heap := h }
  return p

/-- A tuple made of fields, each of which `Tuple::append` asserts to be there. -/
def mkTuple (fields : List Ptr) (frozen : Bool) : VM Ptr := do
  if fields.any Option.isNone then throw (.faults .assertion)
  return some (.tuple (some (← newTuple fields frozen)))

/-! ## Stack operations -/

def op_DROP : VM Unit := stackPop

def op_SWAP : VM Unit := do
  let t1 ← pop
  let t2 ← pop
  stackPush t1
  stackPush t2

def op_DUP : VM Unit := do stackPush (← stackTop)

/-- Pushing a field of a tuple: the index is refused above the size only. -/
def pushFrom (a : Addr) (bad : Error) : VM Unit := do
  let ndx := (inst >>> 16).toNat
  if ndx > ((← get).heap.tuple a).fields.length then setError bad
  else stackPush (← read (tupleAt env.host a ndx))

def op_PUSH_CONST : VM Unit := pushFrom env inst env.constPool .PE_BAD_CONSTANT

def op_PUSH_FIELD : VM Unit := pushFrom env inst env.operand .PE_BAD_FIELD

def freezeTop (top : Ptr) : VM Unit := do
  if (← typeOf top) = .TUPLE then
    tupleFreeze (← read fun _ => castTuple top >>= deref)

def op_POP : VM Unit := do
  resultMk
  let top ← pop
  freezeTop top
  resultAppend top

def popAll : List Ptr → VM Unit
  | [] => return
  | _ :: rest => do
    let top ← pop
    freezeTop top
    resultAppend top
    popAll rest

def op_POP_ALL : VM Unit := do
  resultMk
  popAll (← get).st

def stackPeek (p : UInt32) : VM Ptr := do
  match (← get).st[p.toNat]? with
  | some q => return q
  | none => throw (.faults .emptyStack)

def op_PEEK : VM Unit := do
  let stackPosition ← pop_signed
  if stackPosition.toUInt64.toNat ≥ (← get).st.length then setError .PE_STACK_UNDERFLOW
  else stackPush (← stackPeek stackPosition.toUInt64.toUInt32)

def op_IFELSE : VM Unit := do
  let elseVal ← pop
  let thenVal ← pop
  let ifVal ← pop_signed
  if ifVal ≠ 0 then stackPush thenVal else stackPush elseVal

def op_IFPOP : VM Unit := do
  let thenVal ← pop
  let ifVal ← pop_signed
  if ifVal ≠ 0 then
    resultMk
    resultAppend thenVal

def op_IFSTOP : VM Unit := do
  let ifVal ← pop_signed
  if ifVal ≠ 0 then setError .PE_STOP

def op_DUMPSTACK : VM Unit := do
  let _ ← pop_string env
  (← get).st.forM fun p => do let _ ← textPtr env p

def op_IFPOP_TUPLE : VM Unit := do
  let ifVal ← pop_signed
  if ifVal ≠ 0 then
    resultMk
    ((← get).heap.tuple env.operand).fields.forM resultAppend

/-! ## Tuple operations -/

def op_T_MKTUPLE : VM Unit := do
  let val ← pop
  stackPush (← mkTuple [val] false)

def op_T_APPEND : VM Unit := do
  let value ← pop
  let obj ← stackTop
  let t ← read fun _ => castTuple obj >>= deref
  tupleAppend t value

def op_T_UNBOX : VM Unit := do
  let tuple ← pop
  let t ← read fun _ => castTuple tuple >>= deref
  ((← get).heap.tuple t).fields.reverse.forM stackPush

def op_T_UNBOXPOP : VM Unit := do
  let tuple ← pop
  let t ← read fun _ => castTuple tuple
  resultMk
  let a ← read fun _ => deref t
  ((← get).heap.tuple a).fields.forM resultAppend

def op_T_FIELD : VM Unit := do
  let field ← pop_signed
  let tuple ← pop
  let t ← read fun _ => castTuple tuple >>= deref
  let value ← read (tupleAt env.host t field.toUInt64.toUInt32.toNat)
  if value = none then stackPush (some .null) else stackPush value

def op_T_SWALLOW : VM Unit := stackPush (some (.tuple (some env.operand)))

def typeName : TypeCode → List UInt8
  | .NULLV => ascii "null"
  | .STR => ascii "str"
  | .INT64 => ascii "int64"
  | .DOUBLE => ascii "double"
  | .OPAQUE => ascii "opaque"
  | .TUPLE => ascii "tuple"
  | .TIME => ascii "time"
  | .ID => ascii "ID"
  | .TIME_DURATION => ascii "time_duration"
  | .SET => ascii "set"
  | .LIST => ascii "list"
  | .VECTOR => ascii "vector"
  | .MATRIX => ascii "matrix"

def op_TYPEOF : VM Unit := do
  let value ← pop
  stackPush (some (.str (typeName (← typeOf value))))

def op_T_IDGEN : VM Unit := do
  stackPush (some (.int64 (env.host.uniqueIdentifier (← query))))

def op_T_MK_TYPE : VM Unit := do
  let type ← pop
  let val ← pop
  let name ← textPtr env type
  stackPush (← mkTuple (namedFields env.host name ++ [val]) true)

def op_T_MK_AGG : VM Unit := do
  let oper ← pop
  let var ← pop
  stackPush (← mkTuple (namedFields env.host (ascii "Aggregation") ++ [var, oper]) true)

def mkExpression (name : List UInt8) : VM Unit := do
  let type ← pop
  let val1 ← pop
  let val2 ← pop
  stackPush (← mkTuple (namedFields env.host name ++ [type, val1, val2]) true)

def op_T_MK_MATH : VM Unit := mkExpression env (ascii "Math")

def op_T_MK_BOOL : VM Unit := mkExpression env (ascii "Bool")

/-! ## Hashes, extremes and named functions -/

def op_H_SHA1 : VM Unit := do
  let svalue ← textPtr env (← pop)
  stackPush (some (.id (env.host.sha1 svalue)))

def op_MAX : VM Unit := do
  let v1 ← pop
  let v2 ← pop
  stackPush (if ← Opr.lte env.host v1 v2 then v2 else v1)

def op_MIN : VM Unit := do
  let v1 ← pop
  let v2 ← pop
  stackPush (if ← Opr.lte env.host v1 v2 then v1 else v2)

def op_FUNC0 : VM Unit := do let _ ← pop

/-! ## Operations that call helpers -/

/-- Values are popped and given to a helper, the last one popped last. -/
def helperOp (f : Helper) : ℕ → List Ptr → VM Unit
  | 0, args => do stackPush (← callHelper env f args)
  | n + 1, args => do
    let p ← pop
    helperOp f n (args ++ [p])

def listHelperOp (f : Helper) : VM Unit := do
  let listVal ← pop
  let list ← castList listVal
  stackPush (← callHelper env f [some (.list list)])

def listsHelperOp (f : Helper) : VM Unit := do
  let first ← pop
  let second ← pop
  let list1 ← castList first
  let list2 ← castList second
  stackPush (← callHelper env f [some (.list list1), some (.list list2)])

def op_GETMASK : VM Unit := helperOp env .getMask 1 []

def op_A_TO_VAR : VM Unit := helperOp env .toVar 1 []

def op_A_UNIQUE_SCHEMA : VM Unit := helperOp env .uniqueSchema 1 []

def op_ISTHETA : VM Unit := helperOp env .isTheta 1 []

def op_L_VARIABLES : VM Unit := helperOp env .variables 1 []

def op_SERIALIZE : VM Unit := helperOp env .processGen 2 []

def op_DESERIALIZE : VM Unit := helperOp env .processExtract 2 []

def op_CREATEVER : VM Unit := helperOp env .generateVersion 0 []

def op_CREATELOCSPEC : VM Unit := helperOp env .generateLocSpec 0 []

def op_IS_LOCSPEC : VM Unit := helperOp env .isLocSpec 1 []

def op_GET_CERT : VM Unit := helperOp env .getCert 1 []

def op_LOADKEYFILE : VM Unit := helperOp env .loadFile 1 []

def op_IS_SAYS : VM Unit := helperOp env .isSaysHint 1 []

def op_L_FLATTEN : VM Unit := listHelperOp env .flatten

def op_L_GROUPBY_ATTR : VM Unit := listHelperOp env .groupby

def op_L_AGG_ATTR : VM Unit := listHelperOp env .aggregation

def op_L_PROJECT : VM Unit := listsHelperOp env .project

def op_L_MERGE : VM Unit := listsHelperOp env .merge

def op_L_EQUIVALENT : VM Unit := listsHelperOp env .equivalent

/-- The selectivity that the sizes of the join keys give is left to the helper. -/
def op_O_SELECT : VM Unit := do
  let second ← pop
  let first ← pop
  let outer ← castList first
  let inner ← castList second
  stackPush (← callHelper env .joinSelectivity [some (.list outer), some (.list inner)])

def listValueHelperOp (f : Helper) : VM Unit := do
  let first ← pop
  let var ← pop
  let schema ← castList first
  stackPush (← callHelper env f [some (.list schema), var])

def op_L_ASSIGNSCHEMA : VM Unit := listValueHelperOp env .assignSchema

def op_O_FILTER : VM Unit := listValueHelperOp env .filter

def op_L_POS_ATTR : VM Unit := do
  let var ← pop
  let listVal ← pop
  let list ← castList listVal
  stackPush (← callHelper env .position [some (.list list), var])

def op_MASK : VM Unit := do
  let tempSchema ← pop
  let maskSchema ← pop
  let oldPos ← pop
  let maskList ← castList maskSchema
  let tempList ← castList tempSchema
  let i ← read fun _ => castInt64 oldPos
  stackPush (← callHelper env .applyMask
    [some (.list tempList), some (.list maskList), some (.int64 i)])

def op_L_CASTASSIGN : VM Unit := do
  let val1 ← pop
  let val2 ← pop
  let val3 ← pop
  let outer ← castList val1
  let inner ← castList val2
  let select ← read fun _ => castTuple val3
  stackPush (← callHelper env .castassign
    [some (.list outer), some (.list inner), some (.tuple select)])

def op_L_SORTATTR : VM Unit := do
  let val1 ← pop
  let oorder ← pop
  let val3 ← pop
  let iorder ← pop
  let outer ← castList val1
  let inner ← castList val3
  stackPush (← callHelper env .sortAttr [some (.list outer), oorder, some (.list inner), iorder])

def op_L_ADORNMENT : VM Unit := do
  let first ← pop
  let second ← pop
  let bound ← if ← Opr.neq env.host first (some .null) then castList first else newList []
  let schema ← castList second
  stackPush (← callHelper env .adornment [some (.list bound), some (.list schema)])

def op_L_PREFIX : VM Unit := do
  let val1 ← pop
  let val2 ← pop
  if ← Opr.eq env.host val1 (some .null) <||> Opr.eq env.host val2 (some .null) then
    stackPush (boolPtr false)
  else
    let list1 ← castList val1
    let list2 ← castList val2
    stackPush (← callHelper env .prefixOf [some (.list list1), some (.list list2)])

def op_L_SUBSET : VM Unit := do
  let first ← pop
  let second ← pop
  if ← (do return (← typeOf first) == .LIST) <&&> (do return (← typeOf second) == .LIST) then
    stackPush (← callHelper env .subset [first, second])
  else setError .PE_BAD_LIST_FIELD

def op_GEN : VM Unit := do
  let serializedMsg ← pop
  let top ← stackTop
  let type ← read fun _ => castInt64 top
  stackPop
  let key ← pop
  stackPush (← callHelper env .generate [serializedMsg, some (.int64 type), key])

def op_VERIFY : VM Unit := do
  let msg ← pop
  let proof ← pop
  let P ← pop
  let R ← pop
  let top ← stackTop
  let K ← read fun _ => castInt64 top
  stackPop
  let V ← pop
  let _ ← typeOf proof
  let _ ← typeOf P
  let _ ← typeOf R
  let _ ← typeOf V
  stackPush (← callHelper env .verify [msg, proof, P, R, some (.int64 K), V])

/-! ## List operations -/

def listAppend (a : Addr) (p : Ptr) : VM Unit := do
  let h := (← get).heap
  modify fun s => { s with heap := { h with lists := h.lists.set a (h.list a ++ [p]) } }

def pushList (elements : List Ptr) : VM Unit := do
  stackPush (some (.list (← newList elements)))

def op_INITMASK : VM Unit := do
  let listVal ← pop
  pushList [listVal]

def op_COMBINEMASK : VM Unit := do
  let first ← pop
  let second ← pop
  let list ← castList first
  listAppend list second
  stackPush first

def op_L_CREATEKEY : VM Unit := do
  let first ← pop
  let schema ← castList first
  let n := ((← get).heap.list schema).length
  pushList ((List.range n).map fun i => some (.int64 (Int64.ofNat (i + 1))))

/-- What `L_FACT` makes of a value: a tuple stands for its third field. -/
def factValue (val : Ptr) (h : Heap) : Except Trouble Ptr := do
  if (← deref val).typeCode = .TUPLE then
    tupleAt env.host (← castTuple val >>= deref) 2 h
  else .ok val

def op_L_FACT : VM Unit := do
  let first ← pop
  let second ← pop
  let name ← textPtr env first
  let values ← castList second
  let fields ← read fun h => (h.list values).mapM fun val => factValue env val h
  stackPush (← mkTuple (namedFields env.host name ++ fields) true)

def indexLoop (indexKey : List ℕ) : List Ptr → Except Trouble Bool
  | [] => .ok true
  | p :: ps => do
    let pos ← castInt64 p
    if indexKey.any fun k => (k : ℤ) = pos.toInt then indexLoop indexKey ps else .ok false

def op_L_INDEXMATCH : VM Unit := do
  let val1 ← pop
  let val2 ← pop
  let val3 ← pop
  let outer ← castList val1
  let inner ← castList val2
  let index ← castList val3
  let indexKey ← read fun h => env.host.joinKeys h outer inner
  stackPush (boolPtr (← read fun h => indexLoop indexKey (h.list index)))

def atoi (s : List UInt8) : Int32 :=
  let s := s.dropWhile fun c => c == 32 || (9 ≤ c && c ≤ 13)
  let signed : Bool × List UInt8 := match s with
    | 45 :: r => (true, r)
    | 43 :: r => (false, r)
    | r => (false, r)
  let n : ℤ := digits 10 signed.2 0
  (Int64.ofInt (max (-2 ^ 63) (min (2 ^ 63 - 1) (if signed.1 then -n else n)))).toInt32

def op_L_GROUP : VM Unit := do
  let plan ← castList (← stackTop)
  stackPop
  let texts ← read fun h => (h.list plan).mapM fun p => toString env.host h env.host.room p
  let elements := (texts.map fun text => (atoi text).toInt).insertionSort (· ≤ ·)
  stackPush (some (.str (elements.flatMap fun i => decimal (Int64.ofInt i))))

def removeVar (cmp : Ptr → Except Trouble Ordering) : List Ptr → Except Trouble (List Ptr)
  | [] => .ok []
  | p :: ps => do
    let o ← cmp p
    let rest ← removeVar cmp ps
    .ok (if o = .eq then rest else p :: rest)

def op_L_REMOVEVAR : VM Unit := do
  let second ← pop
  let first ← pop
  let list ← castList first
  pushList (← read fun h =>
    removeVar (fun p => compareTo h env.host.room p second) (h.list list))

def op_L_REMOVEPOS : VM Unit := do
  let second ← pop
  let first ← pop
  let list ← castList first
  let position := (← read fun _ => castInt64 second).toInt32
  let elements := (← get).heap.list list
  pushList (if position < 0 then elements else elements.eraseIdx position.toInt.toNat)

def findAttr (type : List UInt8) (h : Heap) : List Ptr → Except Trouble (Option Ptr)
  | [] => .ok none
  | p :: ps => do
    let field ← tupleAt env.host (← castTuple p >>= deref) 0 h
    let name ← toString env.host h env.host.room field
    if name = type then .ok (some p) else findAttr type h ps

def op_L_GET_ATTR : VM Unit := do
  let attr ← pop
  let listVal ← pop
  let list ← castList listVal
  match ← read fun _ => deref attr with
  | .int64 i =>
    let position := i.toInt32
    let elements := (← get).heap.list list
    stackPush (if position < 0 then some .null
      else (elements[position.toInt.toNat]?).getD (some .null))
  | .str type =>
    if type = ascii "Location" then
      let location ← callHelper env .location [some (.list list)]
      if location = none then setError .PE_BAD_LIST_FIELD
      else stackPush (← mkTuple (namedFields env.host (ascii "Location") ++ [location]) true)
    else
      let found ← read fun h => findAttr env type h (h.list list)
      stackPush (found.getD (some .null))
  | _ => stackPush (some .null)

def op_L_CONCAT : VM Unit := do
  let val1 ← pop
  let val2 ← pop
  let list1 ← castList val1
  let list2 ← castList val2
  let h := (← get).heap
  pushList (h.list list1 ++ h.list list2)

def op_L_APPEND : VM Unit := do
  let value ← pop
  let listVal ← pop
  let list ← castList listVal
  if ((← get).heap.list list).length = 0 then pushList [value]
  else
    listAppend list value
    stackPush (some (.list list))

def listMember (cmp : Ptr → Except Trouble Ordering) : List Ptr → Except Trouble Bool
  | [] => .ok false
  | p :: ps => do
    if (← cmp p) = .eq then .ok true else listMember cmp ps

def op_L_MEMBER : VM Unit := do
  let value ← pop
  let listVal ← pop
  if (← typeOf listVal) = .LIST then
    let list ← castList listVal
    stackPush (boolPtr (← read fun h =>
      listMember (fun p => compareTo h env.host.room p value) (h.list list)))
  else
    let set ← castSet listVal
    stackPush (boolPtr (← read fun h => setMember (ltSet env.host h) value (h.set set)))

def insertByOrder (lt : Ptr → Ptr → Except Trouble Bool) (p : Ptr) :
    List Ptr → Except Trouble (List Ptr)
  | [] => .ok [p]
  | q :: qs => do
    if ← lt p q then .ok (p :: q :: qs)
    else
      let rest ← insertByOrder lt p qs
      .ok (q :: rest)

/-- A stable sort. -/
def sortByOrder (lt : Ptr → Ptr → Except Trouble Bool) :
    List Ptr → List Ptr → Except Trouble (List Ptr)
  | sorted, [] => .ok sorted
  | sorted, p :: ps => do
    let sorted' ← insertByOrder lt p sorted
    sortByOrder lt sorted' ps

def intersectLoop (cmp : Ptr → Ptr → Except Trouble Ordering) :
    List Ptr → List Ptr → Except Trouble (List Ptr)
  | [], _ => .ok []
  | _ :: _, [] => .ok []
  | p :: ps, q :: qs => do
    match ← cmp p q with
    | .eq => do
      let rest ← intersectLoop cmp ps qs
      .ok (p :: rest)
    | .lt => intersectLoop cmp ps (q :: qs)
    | .gt => intersectLoop cmp (p :: ps) qs
  termination_by ps qs => ps.length + qs.length

def listIntersect (l1 l2 : List Ptr) (h : Heap) : Except Trouble (List Ptr) := do
  let sorted1 ← sortByOrder (ltSet env.host h) [] l1
  let sorted2 ← sortByOrder (ltSet env.host h) [] l2
  intersectLoop (fun p q => compareTo h env.host.room p q) sorted1 sorted2

def op_L_INTERSECT : VM Unit := do
  let val1 ← pop
  let val2 ← pop
  let l1 ← castList val1
  let l2 ← castList val2
  pushList (← read fun h => listIntersect env (h.list l1) (h.list l2) h)

/-- A step of the counting loop of `List::multiset_intersect`: the last value with a text, and how
many there are. -/
def countText (counts : List (List UInt8 × Ptr × ℕ)) (text : List UInt8) (p : Ptr) :
    List (List UInt8 × Ptr × ℕ) :=
  match counts.lookup text with
  | some (_, n) => (text, p, n + 1) :: counts
  | none => (text, p, 1) :: counts

def takeCounted : List (List UInt8 × Ptr × ℕ) → List (List UInt8 × Ptr) → List Ptr
  | _, [] => []
  | counts, (text, p) :: rest =>
    match counts.lookup text with
    | some (q, n + 1) => q :: takeCounted ((text, p, n) :: counts) rest
    | _ => takeCounted counts rest

def withTexts (h : Heap) (l : List Ptr) : Except Trouble (List (List UInt8 × Ptr)) :=
  l.mapM fun p => do .ok ((← toString env.host h env.host.room p), p)

def listMultisetIntersect (l1 l2 : List Ptr) (h : Heap) : Except Trouble (List Ptr) := do
  let second ← withTexts env h l2
  let first ← withTexts env h l1
  .ok (takeCounted (second.foldl (fun counts e => countText counts e.1 e.2) []) first)

def op_L_MULTISET_INTERSECT : VM Unit := do
  let val1 ← pop
  let val2 ← pop
  let l1 ← castList val1
  let l2 ← castList val2
  pushList (← read fun h => listMultisetIntersect env (h.list l1) (h.list l2) h)

def op_L_INIT : VM Unit := pushList []

/-- The elements `L_CONS` takes from an operand: none from the null value, those of a list, or the
operand itself. -/
def consElements (p : Ptr) (h : Heap) : Except Trouble (List Ptr) := do
  match ← deref p with
  | .null => .ok []
  | .list a => .ok (h.list a)
  | _ => .ok [p]

def op_L_CONS : VM Unit := do
  let first ← pop
  let second ← pop
  let elements1 ← read (consElements first)
  let elements2 ← read (consElements second)
  pushList (elements1 ++ elements2)

/-- The operations on a list that must not be empty. -/
def nonEmptyListOp (f : Addr → Ptr → List Ptr → VM Unit) : VM Unit := do
  let first ← pop
  let list ← castList first
  match (← get).heap.list list with
  | [] => setError .PE_LIST_UNDERFLOW
  | p :: ps => f list p ps

def op_L_CDR : VM Unit := nonEmptyListOp fun _ _ ps => pushList ps

def op_L_CAR : VM Unit := nonEmptyListOp fun _ p _ => stackPush p

def op_L_LAST : VM Unit := nonEmptyListOp fun _ p ps => stackPush ((p :: ps).getLastD p)

def op_L_REMOVELAST : VM Unit := nonEmptyListOp fun list p ps => do
  modify fun s => { s with heap := { s.heap with
    lists := s.heap.lists.set list (p :: ps).dropLast } }
  stackPush (some (.list list))

def op_L_CONTAINS : VM Unit := do
  let second ← pop
  let first ← pop
  let list ← castList first
  stackPush (boolPtr (← read fun h =>
    listMember (fun p => compareTo h env.host.room p second) (h.list list)))

def op_L_SIZE : VM Unit := do
  let first ← pop
  let list ← castList first
  stackPush (some (.int64 (Int64.ofNat ((← get).heap.list list).length)))

/-! ## Set operations -/

def op_EMPTY : VM Unit := do stackPush (some (.set (← newSet [])))

def op_INITSET : VM Unit := do
  let v ← pop
  stackPush (some (.set (← newSet [v])))

def op_SETMOD : VM Unit := do
  let setVPtr ← pop
  if (← typeOf setVPtr) = .SET then
    let set ← castSet setVPtr
    stackPush (some (.int64 (Int64.ofNat ((← get).heap.set set).length)))
  else stackPush (some (.int64 1))

/-! ## Vector and matrix operations -/

/-- A comparison as the integer that is pushed. -/
def orderingPtr : Ordering → Ptr
  | .lt => some (.int64 (-1))
  | .eq => some (.int64 0)
  | .gt => some (.int64 1)

def op_V_INITVEC : VM Unit := do
  let sz := (← pop_signed).toUInt64.toNat
  if sz > env.host.maxSize then throw (.throws .library)
  stackPush (some (.vector (← newVector (List.replicate sz none))))

def op_V_GETOFFSET : VM Unit := do
  let offset ← pop_signed
  let val1 ← pop
  let v1 ← read fun _ => castVector val1
  stackPush (← read fun h => orThrow (h.vector v1)[offset.toUInt64.toNat]?)

def op_V_SETOFFSET : VM Unit := do
  let val1 ← pop
  let offset ← pop_signed
  let val2 ← pop
  let v2 ← read fun _ => castVector val2
  let h := (← get).heap
  if offset.toUInt64.toNat ≥ (h.vector v2).length then throw (.throws .library)
  let elements := (h.vector v2).set offset.toUInt64.toNat val1
  modify fun s => { s with heap := { h with vectors := h.vectors.set v2 elements } }
  stackPush (some (.vector v2))

def op_V_COMPAREVEC : VM Unit := do
  let val1 ← pop
  let val2 ← pop
  let v2 ← read fun _ => castVector val2
  stackPush (orderingPtr (← comparePtr env.host (some (.vector v2)) val1))

def op_M_INITMAT : VM Unit := do
  let sz2 := (← pop_signed).toUInt64.toNat
  let sz1 := (← pop_signed).toUInt64.toNat
  if sz1 * sz2 > env.host.maxSize then throw (.throws .library)
  stackPush (some (.matrix (← newMatrix ⟨sz1, sz2, List.replicate (sz1 * sz2) none⟩)))

def MatrixBody.place (m : MatrixBody) (i j : ℕ) : Option ℕ :=
  if i < m.size1 ∧ j < m.size2 then some (i * m.size2 + j) else none

def op_M_GETOFFSET : VM Unit := do
  let offset1 ← pop_signed
  let offset2 ← pop_signed
  let val1 ← pop
  let m1 ← read fun _ => castMatrix val1
  let place ← read fun h =>
    orThrow ((h.matrix m1).place offset1.toUInt64.toNat offset2.toUInt64.toNat)
  stackPush (((← get).heap.matrix m1).elements.getD place none)

def op_M_SETOFFSET : VM Unit := do
  let val1 ← pop
  let offset1 ← pop_signed
  let offset2 ← pop_signed
  let val2 ← pop
  let mat ← read fun _ => castMatrix val2
  let place ← read fun h =>
    orThrow ((h.matrix mat).place offset1.toUInt64.toNat offset2.toUInt64.toNat)
  let h := (← get).heap
  let body := { h.matrix mat with elements := (h.matrix mat).elements.set place val1 }
  modify fun s => { s with heap := { h with matrices := h.matrices.set mat body } }
  stackPush (some (.matrix mat))

/-- Two operands, although the table says three. -/
def op_M_COMPAREMAT : VM Unit := do
  let val1 ← pop
  let val2 ← pop
  let m2 ← read fun _ => castMatrix val2
  stackPush (orderingPtr (← comparePtr env.host (some (.matrix m2)) val1))

/-! ## Boolean operations -/

def op_NOT : VM Unit := do
  let v ← pop_signed
  stackPush (boolPtr (v == 0))

def op_AND : VM Unit := do
  let v2 ← pop_signed
  let v1 ← pop_signed
  stackPush (boolPtr (v1 != 0 && v2 != 0))

def op_OR : VM Unit := do
  let v2 ← pop_signed
  let v1 ← pop_signed
  stackPush (boolPtr (v1 != 0 || v2 != 0))

def op_RAND : VM Unit := do stackPush (some (.int64 (env.host.random (← query))))

def op_COIN : VM Unit := do
  let r := env.host.randomFraction (← query)
  let p ← pop_double env
  stackPush (boolPtr (!r.isNaN && !p.isNaN && decide (r.place ≤ p.place)))

/-! ## Arithmetic -/

/-- Two operands and an operator: the one below the top is the first operand. -/
def binaryOp (f : Ptr → Ptr → VM Ptr) : VM Unit := do
  let v1 ← pop
  let v2 ← pop
  stackPush (← f v2 v1)

def unaryOp (f : Ptr → VM Ptr) : VM Unit := do
  let v ← pop
  stackPush (← f v)

def op_ASR : VM Unit := binaryOp Opr.rshift

def op_ASL : VM Unit := binaryOp Opr.lshift

def op_BIT_AND : VM Unit := binaryOp (Opr.band env.host)

def op_BIT_OR : VM Unit := binaryOp (Opr.bor env.host)

def op_BIT_XOR : VM Unit := binaryOp (Opr.bxor env.host)

def op_BIT_NOT : VM Unit := unaryOp Opr.bnot

def op_NEG : VM Unit := unaryOp (Opr.neg env.host)

def op_PLUS : VM Unit := binaryOp (Opr.plus env.host)

def op_MINUS : VM Unit := binaryOp (Opr.minus env.host)

def op_MINUSMINUS : VM Unit := unaryOp (Opr.dec env.host)

def op_PLUSPLUS : VM Unit := unaryOp (Opr.inc env.host)

def op_MUL : VM Unit := binaryOp (Opr.times env.host)

def op_DIV : VM Unit := do
  let v1 ← pop
  let v2 ← pop
  if ← Opr.neq env.host v1 (some (.int64 0)) then
    tryCatch (do stackPush (← Opr.divide env.host v2 v1)) fun e =>
      if e = .throws .divisionByZero then setError .PE_DIVIDE_BY_ZERO else throw e
  else if (← get).error = .PE_SUCCESS then setError .PE_DIVIDE_BY_ZERO

/-- `MOD` has no handler for a divisor that is zero only after the cast. -/
def op_MOD : VM Unit := do
  let v1 ← pop
  let v2 ← pop
  if ← Opr.neq env.host v1 (some (.int64 0)) then
    stackPush (← Opr.mod v2 v1)
  else if (← get).error = .PE_SUCCESS then setError .PE_DIVIDE_BY_ZERO

def op_APPEND : VM Unit := do
  let v1 ← pop
  let v2 ← pop
  let text1 ← textPtr env v1
  let text2 ← textPtr env v2
  stackPush (some (.str (text1 ++ text2)))

def op_INT_ABS : VM Unit := do
  let i ← pop_signed
  stackPush (some (.int64 (if i < 0 then -i else i)))

def doubleFn (f : Double → Double) : VM Unit := do
  let d ← pop_double env
  stackPush (some (.double (f d)))

def op_DBL_FLOOR : VM Unit := doubleFn env env.host.floor

def op_DBL_CEIL : VM Unit := doubleFn env env.host.ceil

def op_EXP : VM Unit := doubleFn env env.host.exp

def op_LN : VM Unit := doubleFn env env.host.log

def op_DRAND48 : VM Unit := do stackPush (some (.double (env.host.drand48 (← query))))

/-! ## Comparisons and intervals -/

/-- Two operands and a test: the one below the top is the first operand. -/
def compareOp (f : Ptr → Ptr → VM Bool) : VM Unit := do
  let v1 ← pop
  let v2 ← pop
  stackPush (boolPtr (← f v2 v1))

def op_TOTALCOMP : VM Unit := do
  let v1 ← pop
  let v2 ← pop
  stackPush (orderingPtr (← comparePtr env.host v1 v2))

def op_EQ : VM Unit := compareOp (Opr.eq env.host)

def op_LT : VM Unit := compareOp (Opr.gt env.host)

def op_LTE : VM Unit := compareOp (Opr.gte env.host)

def op_GT : VM Unit := compareOp (Opr.lt env.host)

def op_GTE : VM Unit := compareOp (Opr.lte env.host)

def intervalOp (f : Ptr → Ptr → Ptr → VM Bool) : VM Unit := do
  let dest ← pop
  let src ← pop
  let key ← pop
  stackPush (boolPtr (← f key src dest))

def op_INOO : VM Unit := intervalOp (Opr.inOO env.host)

def op_INOC : VM Unit := intervalOp (Opr.inOC env.host)

def op_INCO : VM Unit := intervalOp (Opr.inCO env.host)

def op_INCC : VM Unit := intervalOp (Opr.inCC env.host)

/-! ## Times -/

def timeOp (f : TimeRep → TimeRep → Ptr) : VM Unit := do
  let s1 ← pop_time env
  let s2 ← pop_time env
  stackPush (f s2 s1)

def durationsOp (f : TimeRep → TimeRep → Ptr) : VM Unit := do
  let s1 ← pop_time_duration env
  let s2 ← pop_time_duration env
  stackPush (f s2 s1)

/-- The comparisons of `boost::posix_time`: `not_a_date_time` is not less and is equal to itself only. -/
def timeLte (s t : TimeRep) : Bool := s.lt t || s == t

def op_TIME_LT : VM Unit := timeOp env fun s2 s1 => boolPtr (s2.lt s1)

def op_TIME_LTE : VM Unit := timeOp env fun s2 s1 => boolPtr (timeLte s2 s1)

def op_TIME_GT : VM Unit := timeOp env fun s2 s1 => boolPtr (s1.lt s2)

def op_TIME_GTE : VM Unit := timeOp env fun s2 s1 => boolPtr (timeLte s1 s2)

def op_TIME_EQ : VM Unit := timeOp env fun s2 s1 => boolPtr (s2 == s1)

def op_TIME_NOW : VM Unit := do stackPush (some (.time (env.host.now (← query))))

def op_TIME_MINUS : VM Unit :=
  timeOp env fun v2 v1 => some (.timeDuration (env.host.timeMinusTime v2 v1))

def op_TIME_DURATION_LT : VM Unit := durationsOp env fun s2 s1 => boolPtr (s2.lt s1)

def op_TIME_DURATION_LTE : VM Unit := durationsOp env fun s2 s1 => boolPtr (timeLte s2 s1)

def op_TIME_DURATION_GT : VM Unit := durationsOp env fun s2 s1 => boolPtr (s1.lt s2)

def op_TIME_DURATION_GTE : VM Unit := durationsOp env fun s2 s1 => boolPtr (timeLte s1 s2)

def op_TIME_DURATION_EQ : VM Unit := durationsOp env fun s2 s1 => boolPtr (s2 == s1)

/-- The order in which the two pops are evaluated is not defined. -/
def op_TIME_DURATION_PLUS : VM Unit :=
  durationsOp env fun v2 v1 => some (.timeDuration (env.host.durationPlus v2 v1))

def op_TIME_DURATION_MINUS : VM Unit :=
  durationsOp env fun v2 v1 => some (.timeDuration (env.host.durationMinus v2 v1))

/-! ## Strings -/

def op_STR_CAT : VM Unit := do
  let s1 ← pop_string env
  let s2 ← pop_string env
  stackPush (some (.str (s2 ++ s1)))

def op_STR_LEN : VM Unit := do
  let s ← pop_string env
  stackPush (some (.int64 (Int64.ofNat s.length)))

def mapString (f : UInt8 → UInt8) : VM Unit := do
  let s ← pop_string env
  stackPush (some (.str (s.map f)))

def op_STR_UPPER : VM Unit := mapString env fun c => if 97 ≤ c ∧ c ≤ 122 then c - 32 else c

def op_STR_LOWER : VM Unit := mapString env fun c => if 65 ≤ c ∧ c ≤ 90 then c + 32 else c

/-- `std::string::find`: the first place of a pattern in a text. -/
def findIn (pattern : List UInt8) : List UInt8 → Option ℕ
  | [] => if pattern = [] then some 0 else none
  | c :: cs =>
    if pattern.isPrefixOf (c :: cs) then some 0 else (findIn pattern cs).map (· + 1)

def op_STR_FIND : VM Unit := do
  let theStringToLookInto ← pop_string env
  let theStringToLookUp ← pop_string env
  stackPush (some (.int64 (match findIn theStringToLookUp theStringToLookInto with
    | some pos => Int64.ofNat pos
    | none => -1)))

def op_STR_SUBSTR : VM Unit := do
  let len ← pop_signed
  let pos ← pop_signed
  let s ← pop_string env
  if pos < 0 ∨ len ≤ 0 ∨ (pos + len).toUInt64.toNat > s.length then setError .PE_BAD_STRING_OP
  else stackPush (some (.str ((s.drop pos.toInt.toNat).take len.toInt.toNat)))

def op_STR_MATCH : VM Unit := do
  let re ← pop_string env
  let text ← pop_string env
  stackPush (boolPtr (← read fun _ => orThrow (env.host.regexMatch re text)))

/-- The loop of `STR_REPLACE` on what is before and after the place of the search: the search goes on
one character behind the start of a replaced pattern, so that it may find patterns inside of the
replacement. A string cannot become longer than the memory allows. -/
def replaceLoop (maxSize : ℕ) (pattern replace : List UInt8) :
    ℕ → List UInt8 → List UInt8 → Except Trouble (List UInt8)
  | 0, _, _ => .error (.throws .library)
  | n + 1, done, rest =>
    match findIn pattern rest with
    | none => .ok (done ++ rest)
    | some k =>
      let after := replace ++ rest.drop (k + pattern.length)
      let done' := done ++ rest.take k
      if done'.length + after.length > maxSize then .error (.throws .library)
      else
        match after with
        | [] => .ok done'
        | c :: cs => replaceLoop maxSize pattern replace n (done' ++ [c]) cs

/-- The place of the search moves on in each round and the string has a greatest size, which bounds
the number of rounds. -/
def op_STR_REPLACE : VM Unit := do
  let first ← pop
  let second ← pop
  let third ← pop
  let pattern ← textPtr env first
  let replace ← textPtr env second
  let value ← textPtr env third
  let text ← read fun _ => replaceLoop env.host.maxSize pattern replace
    (env.host.maxSize + value.length + 1) [] value
  stackPush (some (.str text))

/-- The text of a value for `STR_CONV`: tuples are written as expressions. -/
def convText (p : Ptr) (h : Heap) : Except Trouble (List UInt8) := do
  match ← deref p with
  | .tuple t => env.host.exprString h t
  | _ => toString env.host h env.host.room p

def op_STR_CONV : VM Unit := do
  let t ← pop
  match ← read fun _ => deref t with
  | .list a =>
    let texts ← read fun h => (h.list a).mapM fun p => convText env p h
    stackPush (some (.str texts.flatten))
  | _ =>
    let text ← read (convText env t)
    stackPush (some (.str text))

/-! ## Conversions -/

def op_CONV_I64 : VM Unit := do stackPush (some (.int64 (← pop_signed)))

def op_CONV_STR : VM Unit := do stackPush (some (.str (← pop_string env)))

def op_CONV_DBL : VM Unit := doubleFn env id

def op_CONV_TIME : VM Unit := do stackPush (some (.time (← pop_time env)))

def op_CONV_ID : VM Unit := do
  let top ← pop
  stackPush (some (.id (← read fun _ => castID top)))

def op_CONV_TIME_DURATION : VM Unit := do
  stackPush (some (.timeDuration (← pop_time_duration env)))

def dropTwo : VM Unit := do
  let _ ← pop
  let _ ← pop

def op_O_STATUS : VM Unit := dropTwo

def op_O_RANGEAM : VM Unit := dropTwo

end Bodies

/-! ## The jump table -/

/-- The opcodes, in the order in which `pel_gen.py` numbers them. -/
inductive Op where
  | DROP | SWAP | DUP | PUSH_CONST | PUSH_FIELD | POP | POP_ALL | PEEK | IFELSE | IFPOP
  | IFPOP_TUPLE | IFSTOP | DUMPSTACK | FUNC0 | H_SHA1 | MAX | MIN | T_IDGEN | T_MKTUPLE
  | T_APPEND | T_UNBOX | T_UNBOXPOP | T_FIELD | T_SWALLOW | TYPEOF | TOTALCOMP | L_FACT
  | L_CREATEKEY | L_APPEND | L_CONCAT | L_MEMBER | L_SUBSET | L_INTERSECT | L_MULTISET_INTERSECT
  | V_INITVEC | V_GETOFFSET | V_SETOFFSET | V_COMPAREVEC | M_INITMAT | M_GETOFFSET | M_SETOFFSET
  | M_COMPAREMAT | NOT | AND | OR | RAND | COIN | L_INIT | L_CONS | L_CAR | L_CDR | L_CONTAINS
  | L_REMOVELAST | L_LAST | L_SIZE | ASR | ASL | BIT_AND | BIT_OR | BIT_XOR | BIT_NOT | MOD
  | APPEND | TIME_LT | TIME_LTE | TIME_GT | TIME_GTE | TIME_EQ | TIME_MINUS | TIME_NOW
  | TIME_DURATION_LT | TIME_DURATION_LTE | TIME_DURATION_GT | TIME_DURATION_GTE
  | TIME_DURATION_EQ | TIME_DURATION_PLUS | TIME_DURATION_MINUS | MINUSMINUS | PLUSPLUS | INOO
  | INOC | INCO | INCC | STR_CAT | STR_LEN | STR_UPPER | STR_LOWER | STR_SUBSTR | STR_MATCH
  | STR_CONV | STR_REPLACE | STR_FIND | O_STATUS | O_SELECT | O_RANGEAM | O_FILTER | A_TO_VAR
  | A_UNIQUE_SCHEMA | ISTHETA | L_GET_ATTR | T_MK_TYPE | T_MK_BOOL | T_MK_MATH | T_MK_AGG
  | L_POS_ATTR | L_AGG_ATTR | L_GROUPBY_ATTR | L_FLATTEN | L_INDEXMATCH | L_CASTASSIGN
  | L_VARIABLES | L_MERGE | L_REMOVEVAR | L_REMOVEPOS | L_EQUIVALENT | L_GROUP | L_PREFIX
  | L_SORTATTR | L_PROJECT | L_ADORNMENT | L_ASSIGNSCHEMA | VERIFY | GEN | SETMOD | EMPTY
  | INITSET | SERIALIZE | DESERIALIZE | CREATEVER | CREATELOCSPEC | IS_LOCSPEC | GET_CERT
  | IS_SAYS | LOADKEYFILE | INITMASK | COMBINEMASK | GETMASK | MASK | NEG | PLUS | MINUS | MUL
  | DIV | EQ | LT | LTE | GT | GTE | INT_ABS | DBL_FLOOR | DBL_CEIL | EXP | LN | DRAND48
  | CONV_I64 | CONV_DBL | CONV_STR | CONV_TIME | CONV_TIME_DURATION | CONV_ID
  deriving DecidableEq

def Op.fn (env : Env) (inst : UInt32) : Op → VM Unit
  | .DROP => op_DROP
  | .SWAP => op_SWAP
  | .DUP => op_DUP
  | .PUSH_CONST => op_PUSH_CONST env inst
  | .PUSH_FIELD => op_PUSH_FIELD env inst
  | .POP => op_POP
  | .POP_ALL => op_POP_ALL
  | .PEEK => op_PEEK
  | .IFELSE => op_IFELSE
  | .IFPOP => op_IFPOP
  | .IFPOP_TUPLE => op_IFPOP_TUPLE env
  | .IFSTOP => op_IFSTOP
  | .DUMPSTACK => op_DUMPSTACK env
  | .FUNC0 => op_FUNC0
  | .H_SHA1 => op_H_SHA1 env
  | .MAX => op_MAX env
  | .MIN => op_MIN env
  | .T_IDGEN => op_T_IDGEN env
  | .T_MKTUPLE => op_T_MKTUPLE
  | .T_APPEND => op_T_APPEND
  | .T_UNBOX => op_T_UNBOX
  | .T_UNBOXPOP => op_T_UNBOXPOP
  | .T_FIELD => op_T_FIELD env
  | .T_SWALLOW => op_T_SWALLOW env
  | .TYPEOF => op_TYPEOF
  | .TOTALCOMP => op_TOTALCOMP env
  | .L_FACT => op_L_FACT env
  | .L_CREATEKEY => op_L_CREATEKEY
  | .L_APPEND => op_L_APPEND
  | .L_CONCAT => op_L_CONCAT
  | .L_MEMBER => op_L_MEMBER env
  | .L_SUBSET => op_L_SUBSET env
  | .L_INTERSECT => op_L_INTERSECT env
  | .L_MULTISET_INTERSECT => op_L_MULTISET_INTERSECT env
  | .V_INITVEC => op_V_INITVEC env
  | .V_GETOFFSET => op_V_GETOFFSET
  | .V_SETOFFSET => op_V_SETOFFSET
  | .V_COMPAREVEC => op_V_COMPAREVEC env
  | .M_INITMAT => op_M_INITMAT env
  | .M_GETOFFSET => op_M_GETOFFSET
  | .M_SETOFFSET => op_M_SETOFFSET
  | .M_COMPAREMAT => op_M_COMPAREMAT env
  | .NOT => op_NOT
  | .AND => op_AND
  | .OR => op_OR
  | .RAND => op_RAND env
  | .COIN => op_COIN env
  | .L_INIT => op_L_INIT
  | .L_CONS => op_L_CONS
  | .L_CAR => op_L_CAR
  | .L_CDR => op_L_CDR
  | .L_CONTAINS => op_L_CONTAINS env
  | .L_REMOVELAST => op_L_REMOVELAST
  | .L_LAST => op_L_LAST
  | .L_SIZE => op_L_SIZE
  | .ASR => op_ASR
  | .ASL => op_ASL
  | .BIT_AND => op_BIT_AND env
  | .BIT_OR => op_BIT_OR env
  | .BIT_XOR => op_BIT_XOR env
  | .BIT_NOT => op_BIT_NOT
  | .MOD => op_MOD env
  | .APPEND => op_APPEND env
  | .TIME_LT => op_TIME_LT env
  | .TIME_LTE => op_TIME_LTE env
  | .TIME_GT => op_TIME_GT env
  | .TIME_GTE => op_TIME_GTE env
  | .TIME_EQ => op_TIME_EQ env
  | .TIME_MINUS => op_TIME_MINUS env
  | .TIME_NOW => op_TIME_NOW env
  | .TIME_DURATION_LT => op_TIME_DURATION_LT env
  | .TIME_DURATION_LTE => op_TIME_DURATION_LTE env
  | .TIME_DURATION_GT => op_TIME_DURATION_GT env
  | .TIME_DURATION_GTE => op_TIME_DURATION_GTE env
  | .TIME_DURATION_EQ => op_TIME_DURATION_EQ env
  | .TIME_DURATION_PLUS => op_TIME_DURATION_PLUS env
  | .TIME_DURATION_MINUS => op_TIME_DURATION_MINUS env
  | .MINUSMINUS => op_MINUSMINUS env
  | .PLUSPLUS => op_PLUSPLUS env
  | .INOO => op_INOO env
  | .INOC => op_INOC env
  | .INCO => op_INCO env
  | .INCC => op_INCC env
  | .STR_CAT => op_STR_CAT env
  | .STR_LEN => op_STR_LEN env
  | .STR_UPPER => op_STR_UPPER env
  | .STR_LOWER => op_STR_LOWER env
  | .STR_SUBSTR => op_STR_SUBSTR env
  | .STR_MATCH => op_STR_MATCH env
  | .STR_CONV => op_STR_CONV env
  | .STR_REPLACE => op_STR_REPLACE env
  | .STR_FIND => op_STR_FIND env
  | .O_STATUS => op_O_STATUS
  | .O_SELECT => op_O_SELECT env
  | .O_RANGEAM => op_O_RANGEAM
  | .O_FILTER => op_O_FILTER env
  | .A_TO_VAR => op_A_TO_VAR env
  | .A_UNIQUE_SCHEMA => op_A_UNIQUE_SCHEMA env
  | .ISTHETA => op_ISTHETA env
  | .L_GET_ATTR => op_L_GET_ATTR env
  | .T_MK_TYPE => op_T_MK_TYPE env
  | .T_MK_BOOL => op_T_MK_BOOL env
  | .T_MK_MATH => op_T_MK_MATH env
  | .T_MK_AGG => op_T_MK_AGG env
  | .L_POS_ATTR => op_L_POS_ATTR env
  | .L_AGG_ATTR => op_L_AGG_ATTR env
  | .L_GROUPBY_ATTR => op_L_GROUPBY_ATTR env
  | .L_FLATTEN => op_L_FLATTEN env
  | .L_INDEXMATCH => op_L_INDEXMATCH env
  | .L_CASTASSIGN => op_L_CASTASSIGN env
  | .L_VARIABLES => op_L_VARIABLES env
  | .L_MERGE => op_L_MERGE env
  | .L_REMOVEVAR => op_L_REMOVEVAR env
  | .L_REMOVEPOS => op_L_REMOVEPOS
  | .L_EQUIVALENT => op_L_EQUIVALENT env
  | .L_GROUP => op_L_GROUP env
  | .L_PREFIX => op_L_PREFIX env
  | .L_SORTATTR => op_L_SORTATTR env
  | .L_PROJECT => op_L_PROJECT env
  | .L_ADORNMENT => op_L_ADORNMENT env
  | .L_ASSIGNSCHEMA => op_L_ASSIGNSCHEMA env
  | .VERIFY => op_VERIFY env
  | .GEN => op_GEN env
  | .SETMOD => op_SETMOD
  | .EMPTY => op_EMPTY
  | .INITSET => op_INITSET
  | .SERIALIZE => op_SERIALIZE env
  | .DESERIALIZE => op_DESERIALIZE env
  | .CREATEVER => op_CREATEVER env
  | .CREATELOCSPEC => op_CREATELOCSPEC env
  | .IS_LOCSPEC => op_IS_LOCSPEC env
  | .GET_CERT => op_GET_CERT env
  | .IS_SAYS => op_IS_SAYS env
  | .LOADKEYFILE => op_LOADKEYFILE env
  | .INITMASK => op_INITMASK
  | .COMBINEMASK => op_COMBINEMASK
  | .GETMASK => op_GETMASK env
  | .MASK => op_MASK env
  | .NEG => op_NEG env
  | .PLUS => op_PLUS env
  | .MINUS => op_MINUS env
  | .MUL => op_MUL env
  | .DIV => op_DIV env
  | .EQ => op_EQ env
  | .LT => op_LT env
  | .LTE => op_LTE env
  | .GT => op_GT env
  | .GTE => op_GTE env
  | .INT_ABS => op_INT_ABS
  | .DBL_FLOOR => op_DBL_FLOOR env
  | .DBL_CEIL => op_DBL_CEIL env
  | .EXP => op_EXP env
  | .LN => op_LN env
  | .DRAND48 => op_DRAND48 env
  | .CONV_I64 => op_CONV_I64
  | .CONV_DBL => op_CONV_DBL env
  | .CONV_STR => op_CONV_STR env
  | .CONV_TIME => op_CONV_TIME env
  | .CONV_TIME_DURATION => op_CONV_TIME_DURATION env
  | .CONV_ID => op_CONV_ID

structure JumpTableEnt where
  opcode : String
  arity : ℕ
  fn : Op

def jump_table : List JumpTableEnt := [
  ⟨"drop", 1, .DROP⟩,
  ⟨"swap", 2, .SWAP⟩,
  ⟨"dup", 1, .DUP⟩,
  ⟨"", 0, .PUSH_CONST⟩,
  ⟨"", 0, .PUSH_FIELD⟩,
  ⟨"pop", 1, .POP⟩,
  ⟨"popall", 1, .POP_ALL⟩,
  ⟨"peek", 1, .PEEK⟩,
  ⟨"ifelse", 3, .IFELSE⟩,
  ⟨"ifpop", 2, .IFPOP⟩,
  ⟨"ifpoptuple", 1, .IFPOP_TUPLE⟩,
  ⟨"ifstop", 1, .IFSTOP⟩,
  ⟨"dumpStack", 1, .DUMPSTACK⟩,
  ⟨"func0", 1, .FUNC0⟩,
  ⟨"sha1", 1, .H_SHA1⟩,
  ⟨"max", 2, .MAX⟩,
  ⟨"min", 2, .MIN⟩,
  ⟨"idgen", 0, .T_IDGEN⟩,
  ⟨"->t", 1, .T_MKTUPLE⟩,
  ⟨"append", 2, .T_APPEND⟩,
  ⟨"unbox", 1, .T_UNBOX⟩,
  ⟨"unboxPop", 1, .T_UNBOXPOP⟩,
  ⟨"field", 2, .T_FIELD⟩,
  ⟨"swallow", 0, .T_SWALLOW⟩,
  ⟨"typeOf", 1, .TYPEOF⟩,
  ⟨"totalComp", 2, .TOTALCOMP⟩,
  ⟨"fact", 2, .L_FACT⟩,
  ⟨"createkey", 1, .L_CREATEKEY⟩,
  ⟨"lappend", 2, .L_APPEND⟩,
  ⟨"concat", 2, .L_CONCAT⟩,
  ⟨"member", 2, .L_MEMBER⟩,
  ⟨"subset", 2, .L_SUBSET⟩,
  ⟨"intersect", 2, .L_INTERSECT⟩,
  ⟨"msintersect", 2, .L_MULTISET_INTERSECT⟩,
  ⟨"initvec", 1, .V_INITVEC⟩,
  ⟨"getvectoroffset", 2, .V_GETOFFSET⟩,
  ⟨"setvectoroffset", 3, .V_SETOFFSET⟩,
  ⟨"vectorcompare", 2, .V_COMPAREVEC⟩,
  ⟨"initmat", 2, .M_INITMAT⟩,
  ⟨"getmatrixoffset", 3, .M_GETOFFSET⟩,
  ⟨"setmatrixoffset", 4, .M_SETOFFSET⟩,
  ⟨"matrixcompare", 3, .M_COMPAREMAT⟩,
  ⟨"not", 1, .NOT⟩,
  ⟨"and", 2, .AND⟩,
  ⟨"or", 2, .OR⟩,
  ⟨"rand", 0, .RAND⟩,
  ⟨"coin", 1, .COIN⟩,
  ⟨"initlist", 0, .L_INIT⟩,
  ⟨"cons", 2, .L_CONS⟩,
  ⟨"car", 1, .L_CAR⟩,
  ⟨"cdr", 1, .L_CDR⟩,
  ⟨"contains", 2, .L_CONTAINS⟩,
  ⟨"removeLast", 1, .L_REMOVELAST⟩,
  ⟨"last", 1, .L_LAST⟩,
  ⟨"size", 1, .L_SIZE⟩,
  ⟨">>", 2, .ASR⟩,
  ⟨"<<", 2, .ASL⟩,
  ⟨"&", 2, .BIT_AND⟩,
  ⟨"|", 2, .BIT_OR⟩,
  ⟨"^", 2, .BIT_XOR⟩,
  ⟨"~", 1, .BIT_NOT⟩,
  ⟨"%", 2, .MOD⟩,
  ⟨"|||", 2, .APPEND⟩,
  ⟨"<time", 2, .TIME_LT⟩,
  ⟨"<=time", 2, .TIME_LTE⟩,
  ⟨">time", 2, .TIME_GT⟩,
  ⟨">=time", 2, .TIME_GTE⟩,
  ⟨"==time", 2, .TIME_EQ⟩,
  ⟨"-time", 2, .TIME_MINUS⟩,
  ⟨"now", 0, .TIME_NOW⟩,
  ⟨"<time_duration", 2, .TIME_DURATION_LT⟩,
  ⟨"<=time_duration", 2, .TIME_DURATION_LTE⟩,
  ⟨">time_duration", 2, .TIME_DURATION_GT⟩,
  ⟨">=time_duration", 2, .TIME_DURATION_GTE⟩,
  ⟨"==time_duration", 2, .TIME_DURATION_EQ⟩,
  ⟨"+time_duration", 2, .TIME_DURATION_PLUS⟩,
  ⟨"-time_duration", 2, .TIME_DURATION_MINUS⟩,
  ⟨"--", 1, .MINUSMINUS⟩,
  ⟨"++", 1, .PLUSPLUS⟩,
  ⟨"()", 3, .INOO⟩,
  ⟨"(]", 3, .INOC⟩,
  ⟨"[)", 3, .INCO⟩,
  ⟨"[]", 3, .INCC⟩,
  ⟨"strcat", 2, .STR_CAT⟩,
  ⟨"strlen", 1, .STR_LEN⟩,
  ⟨"upper", 1, .STR_UPPER⟩,
  ⟨"lower", 1, .STR_LOWER⟩,
  ⟨"substr", 3, .STR_SUBSTR⟩,
  ⟨"match", 2, .STR_MATCH⟩,
  ⟨"tostr", 1, .STR_CONV⟩,
  ⟨"strreplace", 3, .STR_REPLACE⟩,
  ⟨"strfind", 2, .STR_FIND⟩,
  ⟨"status", 2, .O_STATUS⟩,
  ⟨"selectivity", 2, .O_SELECT⟩,
  ⟨"rangeAM", 2, .O_RANGEAM⟩,
  ⟨"filter", 2, .O_FILTER⟩,
  ⟨"tovar", 1, .A_TO_VAR⟩,
  ⟨"uniqueSchema", 1, .A_UNIQUE_SCHEMA⟩,
  ⟨"istheta", 1, .ISTHETA⟩,
  ⟨"getattr", 2, .L_GET_ATTR⟩,
  ⟨"mktype", 2, .T_MK_TYPE⟩,
  ⟨"mkbool", 3, .T_MK_BOOL⟩,
  ⟨"mkmath", 3, .T_MK_MATH⟩,
  ⟨"mkagg", 2, .T_MK_AGG⟩,
  ⟨"posattr", 2, .L_POS_ATTR⟩,
  ⟨"aggattr", 1, .L_AGG_ATTR⟩,
  ⟨"groupbyattr", 1, .L_GROUPBY_ATTR⟩,
  ⟨"flatten", 1, .L_FLATTEN⟩,
  ⟨"indexMatch", 3, .L_INDEXMATCH⟩,
  ⟨"castassign", 3, .L_CASTASSIGN⟩,
  ⟨"variables", 1, .L_VARIABLES⟩,
  ⟨"merge", 2, .L_MERGE⟩,
  ⟨"removevar", 2, .L_REMOVEVAR⟩,
  ⟨"removepos", 2, .L_REMOVEPOS⟩,
  ⟨"equivalent", 2, .L_EQUIVALENT⟩,
  ⟨"group", 1, .L_GROUP⟩,
  ⟨"prefix", 2, .L_PREFIX⟩,
  ⟨"sortattr", 4, .L_SORTATTR⟩,
  ⟨"project", 2, .L_PROJECT⟩,
  ⟨"adornment", 2, .L_ADORNMENT⟩,
  ⟨"assignschema", 2, .L_ASSIGNSCHEMA⟩,
  ⟨"verify", 6, .VERIFY⟩,
  ⟨"gen", 3, .GEN⟩,
  ⟨"mod", 1, .SETMOD⟩,
  ⟨"empty", 0, .EMPTY⟩,
  ⟨"initSet", 1, .INITSET⟩,
  ⟨"serialize", 2, .SERIALIZE⟩,
  ⟨"deserialize", 2, .DESERIALIZE⟩,
  ⟨"createVersion", 0, .CREATEVER⟩,
  ⟨"createLocSpec", 0, .CREATELOCSPEC⟩,
  ⟨"isLocSpec", 1, .IS_LOCSPEC⟩,
  ⟨"getCert", 1, .GET_CERT⟩,
  ⟨"isSays", 1, .IS_SAYS⟩,
  ⟨"loadKeyFile", 1, .LOADKEYFILE⟩,
  ⟨"initMask", 1, .INITMASK⟩,
  ⟨"combineMask", 2, .COMBINEMASK⟩,
  ⟨"getMask", 1, .GETMASK⟩,
  ⟨"mask", 3, .MASK⟩,
  ⟨"neg", 1, .NEG⟩,
  ⟨"+", 2, .PLUS⟩,
  ⟨"-", 2, .MINUS⟩,
  ⟨"*", 2, .MUL⟩,
  ⟨"/", 2, .DIV⟩,
  ⟨"==", 2, .EQ⟩,
  ⟨"<", 2, .LT⟩,
  ⟨"<=", 2, .LTE⟩,
  ⟨">", 2, .GT⟩,
  ⟨">=", 2, .GTE⟩,
  ⟨"abs", 1, .INT_ABS⟩,
  ⟨"floor", 1, .DBL_FLOOR⟩,
  ⟨"ceil", 1, .DBL_CEIL⟩,
  ⟨"exp", 1, .EXP⟩,
  ⟨"ln", 1, .LN⟩,
  ⟨"drand48", 0, .DRAND48⟩,
  ⟨"->i64", 1, .CONV_I64⟩,
  ⟨"->dbl", 1, .CONV_DBL⟩,
  ⟨"->str", 1, .CONV_STR⟩,
  ⟨"->time", 1, .CONV_TIME⟩,
  ⟨"->time_duration", 1, .CONV_TIME_DURATION⟩,
  ⟨"->id", 1, .CONV_ID⟩]

def NUM_OPCODES : ℕ := 160

lemma length_jump_table : jump_table.length = NUM_OPCODES := by
  unfold jump_table NUM_OPCODES
  simp

/-! ## Execution -/

section Execution

variable (env : Env)

/-- The handlers of `execute_instruction`. That for failed casts writes the operand tuple. -/
def handle (e : Trouble) : VM Unit := do
  match e with
  | .throws .operException => setError .PE_OPER_UNSUP
  | .throws .typeError =>
    let _ ← textPtr env (some (.tuple (some env.operand)))
    setError .PE_TYPE_CONVERSION
  | e => throw e

/-- One instruction: the opcode is refused above the number of opcodes only. -/
def execute_instruction (inst : UInt32) : VM Error := do
  let op := (inst &&& 0xFFFF).toNat
  if op > NUM_OPCODES then setError .PE_BAD_OPCODE
  else
    match jump_table[op]? with
    | none => throw (.faults .jumpTable)
    | some entry =>
      if (← get).st.length < entry.arity then setError .PE_STACK_UNDERFLOW
      else tryCatch (entry.fn.fn env inst) (handle env)
  return (← get).error

def executeFrom : List UInt32 → VM Error
  | [] => do return (← get).error
  | inst :: ops => do
    let error ← execute_instruction env inst
    setError error
    if error = .PE_STOP then return .PE_SUCCESS
    if error ≠ .PE_SUCCESS then return error
    executeFrom ops

def execute (ops : List UInt32) : VM Error := do
  modify fun s => { s with error := .PE_SUCCESS, result := none }
  executeFrom env ops

end Execution

end P2.Pel
