import P2.Pel.Machine
import P2.Value.Interval

/-!
# Operators on values

The operators of `oper.h`: a table indexed with the type codes of the operands gives the class of
operator functions, which casts the operands to its type.
-/

namespace P2.Value.ID

open List

def bitwise (f : UInt32 → UInt32 → UInt32) (a other : ID) : ID where
  words := zipWith f a.words other.words
  length_words := by rw [length_zipWith, a.length_words, other.length_words, Nat.min_self]

def bitwiseAND (a other : ID) : ID := bitwise (· &&& ·) a other

def bitwiseOR (a other : ID) : ID := bitwise (· ||| ·) a other

def bitwiseXOR (a other : ID) : ID := bitwise (· ^^^ ·) a other

def bitwiseNOT (a : ID) : ID where
  words := a.words.map (~~~ ·)
  length_words := by rw [length_map, a.length_words]

def ONE : ID := ⟨[0, 0, 0, 0, 1], rfl⟩

end P2.Value.ID

namespace P2.Pel

open P2.Value P2.Lib.Exec List

/-! ## The table -/

/-- The classes of operator functions: `Val_Null::oper_` and so on. -/
inductive OperClass where
  | null | str | int64 | double | opaqueBuf | tuple | time | id | timeDuration | set | list
  deriving DecidableEq

/-- The operator table: the row decides. The initializer has no rows for vectors and matrices, so
that their entries are null pointers. -/
def oper_table (row _column : TypeCode) : Option OperClass :=
  match row with
  | .NULLV => some .null
  | .STR => some .str
  | .INT64 => some .int64
  | .DOUBLE => some .double
  | .OPAQUE => some .opaqueBuf
  | .TUPLE => some .tuple
  | .TIME => some .time
  | .ID => some .id
  | .TIME_DURATION => some .timeDuration
  | .SET => some .set
  | .LIST => some .list
  | .VECTOR | .MATRIX => none

def dispatch {α : Type} (v1 v2 : Ptr) (f : OperClass → VM α) : VM α := do
  let o1 ← read fun _ => deref v1
  let o2 ← read fun _ => deref v2
  match oper_table o1.typeCode o2.typeCode with
  | some c => f c
  | none => throw (.faults .operTable)

def noSup {α : Type} : VM α := throw (.throws .operException)

/-! ## Sets -/

def ltSet (host : Host) (h : Heap) (p q : Ptr) : Except Trouble Bool :=
  (· == .lt) <$> compareTo h host.room p q

/-- The walk through two sorted sequences of `std::set_union`, `std::set_intersection`,
`std::set_difference` and `std::set_symmetric_difference`: which elements are kept is all they differ
in. -/
def mergeSets (lt : Ptr → Ptr → Except Trouble Bool) (keepLeft keepBoth keepRight : Bool) :
    List Ptr → List Ptr → Except Trouble (List Ptr)
  | [], qs => .ok (if keepRight then qs else [])
  | p :: ps, [] => .ok (if keepLeft then p :: ps else [])
  | p :: ps, q :: qs => do
    if ← lt p q then
      let rest ← mergeSets lt keepLeft keepBoth keepRight ps (q :: qs)
      .ok (if keepLeft then p :: rest else rest)
    else if ← lt q p then
      let rest ← mergeSets lt keepLeft keepBoth keepRight (p :: ps) qs
      .ok (if keepRight then q :: rest else rest)
    else
      let rest ← mergeSets lt keepLeft keepBoth keepRight ps qs
      .ok (if keepBoth then p :: rest else rest)
  termination_by ps qs => ps.length + qs.length

def includes (lt : Ptr → Ptr → Except Trouble Bool) :
    List Ptr → List Ptr → Except Trouble Bool
  | _, [] => .ok true
  | [], _ :: _ => .ok false
  | p :: ps, q :: qs => do
    if ← lt q p then .ok false
    else if ← lt p q then includes lt ps (q :: qs)
    else includes lt ps qs

/-- `Set::member`: an element that is neither less nor greater. -/
def setMember (lt : Ptr → Ptr → Except Trouble Bool) (p : Ptr) : List Ptr → Except Trouble Bool
  | [] => .ok false
  | q :: qs => do
    let below ← lt q p
    let above ← lt p q
    if !below && !above then .ok true else setMember lt p qs

/-! ## The classes -/

section Classes

variable (host : Host)

def mkCast (c : OperClass) (p : Ptr) : VM Obj :=
  match c with
  | .null => read fun _ => do
    if (← deref p).typeCode = .NULLV then .ok .null else .error (.throws .typeError)
  | .str => read fun h => .str <$> castStr host h p
  | .int64 => read fun _ => .int64 <$> castInt64 p
  | .double => read fun _ => .double <$> castDouble host p
  | .opaqueBuf => read fun _ => .opaqueBuf <$> castOpaque p
  | .tuple => read fun _ => .tuple <$> castTuple p
  | .time => read fun _ => .time <$> castTime host p
  | .id => read fun _ => .id <$> castID p
  | .timeDuration => read fun h => .timeDuration <$> castDuration host h p
  | .set => .set <$> castSet p
  | .list => .list <$> castList p

def comparePtr (p q : Ptr) : VM Ordering := read fun h => compareTo h host.room p q

/-- The comparisons of `OperCompare`: the second operand is compared with the first. -/
def operCompare (test : Ordering → Bool) (c : OperClass) (v1 v2 : Ptr) : VM Bool := do
  let c1 ← mkCast host c v1
  let c2 ← mkCast host c v2
  return test (← comparePtr host (some c2) (some c1))

def _eq (c : OperClass) (v1 v2 : Ptr) : VM Bool :=
  match c with
  | .null => read fun _ => do
    .ok (((← deref v1).typeCode == .NULLV) && ((← deref v2).typeCode == .NULLV))
  | .tuple => do
    let c1 ← mkCast host .tuple v1
    return (← comparePtr host (some c1) v2) == .eq
  | c => operCompare host (· == .eq) c v1 v2

def _neq (c : OperClass) (v1 v2 : Ptr) : VM Bool :=
  match c with
  | .null => do return !(← _eq host .null v1 v2)
  | .tuple => do
    let c1 ← mkCast host .tuple v1
    return (← comparePtr host (some c1) v2) != .eq
  | c => operCompare host (· != .eq) c v1 v2

/-- A test that `OperSet` makes with the elements of one set and of another operand. -/
def setTest (sets : List Ptr → List Ptr → (Ptr → Ptr → Except Trouble Bool) → Except Trouble Bool)
    (single : List Ptr → (Ptr → Ptr → Except Trouble Bool) → Except Trouble Bool)
    (v1 v2 : Ptr) : VM Bool := do
  let o2 ← read fun _ => deref v2
  if o2.typeCode = .SET then
    let a ← castSet v1
    let b ← castSet v2
    read fun h => sets (h.set a) (h.set b) (ltSet host h)
  else
    let a ← castSet v1
    read fun h => single (h.set a) (ltSet host h)

def _gt (c : OperClass) (v1 v2 : Ptr) : VM Bool :=
  match c with
  | .null => noSup
  | .set => setTest host
      (fun a b lt => do .ok ((← includes lt a b) && decide (a.length > b.length)))
      (fun a lt => do .ok ((← setMember lt v2 a) && decide (a.length > 1))) v1 v2
  | c => operCompare host (· == .gt) c v1 v2

def _gte (c : OperClass) (v1 v2 : Ptr) : VM Bool :=
  match c with
  | .null => noSup
  | .set => setTest host (fun a b lt => includes lt a b) (fun a lt => setMember lt v2 a) v1 v2
  | c => operCompare host (· != .lt) c v1 v2

def _lt (c : OperClass) (v1 v2 : Ptr) : VM Bool :=
  match c with
  | .null => noSup
  | .set => setTest host
      (fun a b lt => do .ok ((← includes lt b a) && decide (b.length > a.length)))
      (fun _ _ => .ok false) v1 v2
  | c => operCompare host (· == .lt) c v1 v2

def _lte (c : OperClass) (v1 v2 : Ptr) : VM Bool :=
  match c with
  | .null => noSup
  | .set => setTest host (fun a b lt => includes lt b a)
      (fun a lt => do .ok ((← setMember lt v2 a) && decide (a.length = 1))) v1 v2
  | c => operCompare host (· != .gt) c v1 v2

/-- The tests for intervals: `above` compares the value with the lower end and `below` with the
upper one. -/
def interval (above below : Ordering → Bool) (c : OperClass) (vc fc tc : Ptr) : VM Bool :=
  match c with
  | .null => noSup
  | c => do
    let v ← mkCast host c vc
    let f ← mkCast host c fc
    let t ← mkCast host c tc
    let test (o : Ordering → Bool) (x y : Obj) : VM Bool := o <$> comparePtr host (some x) (some y)
    (test above v f <&&> test below v t) <||> (test (· != .gt) t f <&&> test above v f) <||>
      (test below v t <&&> test (· != .gt) t f)

/-! ## Arithmetic -/

def int64Op (f : Int64 → Int64 → Int64) (v1 v2 : Ptr) : VM Ptr := read fun _ => do
  .ok (some (.int64 (f (← castInt64 v1) (← castInt64 v2))))

def doubleOp (f : Double → Double → Double) (v1 v2 : Ptr) : VM Ptr := read fun _ => do
  .ok (some (.double (f (← castDouble host v1) (← castDouble host v2))))

def idOp (f : Value.ID → Value.ID → Value.ID) (v1 v2 : Ptr) : VM Ptr := read fun _ => do
  .ok (some (.id (f (← castID v1) (← castID v2))))

def idShift (f : Value.ID → UInt32 → Value.ID) (v1 v2 : Ptr) : VM Ptr := read fun _ => do
  .ok (some (.id (f (← castID v1) (← castInt64 v2).toUInt64.toUInt32)))

def durationOp (f : TimeRep → TimeRep → TimeRep) (v1 v2 : Ptr) : VM Ptr := read fun h => do
  .ok (some (.timeDuration (f (← castDuration host h v1) (← castDuration host h v2))))

def setOp (keepLeft keepBoth keepRight : Bool) (v1 v2 : Ptr) : VM Ptr := do
  let a ← castSet v1
  let b ← castSet v2
  let elements ← read fun h =>
    mergeSets (ltSet host h) keepLeft keepBoth keepRight (h.set a) (h.set b)
  return some (.set (← newSet elements))

/-- Division of integers on the machine: it traps where the quotient is not an `int64_t`. -/
def quotient (f : Int64 → Int64 → Int64) (m n : Int64) : Except Trouble Int64 :=
  if n = 0 ∨ (m = Int64.minValue ∧ n = -1) then .error (.faults .arithmetic) else .ok (f m n)

def _lshift (c : OperClass) (v1 v2 : Ptr) : VM Ptr :=
  match c with
  | .int64 => int64Op (· <<< ·) v1 v2
  | .id => idShift Value.ID.lshift v1 v2
  | _ => noSup

def _rshift (c : OperClass) (v1 v2 : Ptr) : VM Ptr :=
  match c with
  | .int64 => int64Op (· >>> ·) v1 v2
  | .id => idShift Value.ID.rshift v1 v2
  | _ => noSup

def _plus (c : OperClass) (v1 v2 : Ptr) : VM Ptr :=
  match c with
  | .int64 => int64Op (· + ·) v1 v2
  | .str => read fun h => do .ok (some (.str ((← castStr host h v1) ++ (← castStr host h v2))))
  | .double => doubleOp host host.add v1 v2
  | .id => idOp Value.ID.add v1 v2
  | .timeDuration => durationOp host host.durationPlus v1 v2
  | _ => noSup

def _minus (c : OperClass) (v1 v2 : Ptr) : VM Ptr :=
  match c with
  | .int64 => int64Op (· - ·) v1 v2
  | .double => doubleOp host host.sub v1 v2
  | .id => idOp (fun id1 id2 => id2.distance id1) v1 v2
  | .time => read fun h => do
    if (← deref v2).typeCode = .TIME then
      .ok (some (.timeDuration (host.timeMinusTime (← castTime host v1) (← castTime host v2))))
    else
      .ok (some (.time (host.timeMinusDuration (← castTime host v1) (← castDuration host h v2))))
  | .timeDuration => durationOp host host.durationMinus v1 v2
  | _ => noSup

def _times (c : OperClass) (v1 v2 : Ptr) : VM Ptr :=
  match c with
  | .int64 => int64Op (· * ·) v1 v2
  | .double => doubleOp host host.mul v1 v2
  | _ => noSup

def _divide (c : OperClass) (v1 v2 : Ptr) : VM Ptr :=
  match c with
  | .int64 => read fun _ => do
    if (← castInt64 v2) = 0 then .error (.throws .divisionByZero)
    else .ok (some (.int64 (← quotient (· / ·) (← castInt64 v1) (← castInt64 v2))))
  | .double => doubleOp host host.div v1 v2
  | .set => setOp host true false false v1 v2
  | _ => noSup

def _mod (c : OperClass) (v1 v2 : Ptr) : VM Ptr :=
  match c with
  | .int64 => read fun _ => do
    .ok (some (.int64 (← quotient (· % ·) (← castInt64 v1) (← castInt64 v2))))
  | _ => noSup

def _band (c : OperClass) (v1 v2 : Ptr) : VM Ptr :=
  match c with
  | .int64 => int64Op (· &&& ·) v1 v2
  | .id => idOp Value.ID.bitwiseAND v1 v2
  | .set => setOp host false true false v1 v2
  | _ => noSup

def _bor (c : OperClass) (v1 v2 : Ptr) : VM Ptr :=
  match c with
  | .int64 => int64Op (· ||| ·) v1 v2
  | .id => idOp Value.ID.bitwiseOR v1 v2
  | .set => setOp host true true true v1 v2
  | _ => noSup

def _bxor (c : OperClass) (v1 v2 : Ptr) : VM Ptr :=
  match c with
  | .int64 => int64Op (· ^^^ ·) v1 v2
  | .id => idOp Value.ID.bitwiseXOR v1 v2
  | .set => setOp host true false true v1 v2
  | _ => noSup

def _bnot (c : OperClass) (v : Ptr) : VM Ptr :=
  match c with
  | .int64 => read fun _ => do .ok (some (.int64 (~~~(← castInt64 v))))
  | .id => read fun _ => do .ok (some (.id (← castID v).bitwiseNOT))
  | .set => do
    let a ← castSet v
    read fun h => .ok (some (.int64 (Int64.ofNat (h.set a).length)))
  | _ => noSup

def _neg (c : OperClass) (v : Ptr) : VM Ptr :=
  match c with
  | .int64 => read fun _ => do .ok (some (.int64 (-(← castInt64 v))))
  | .double => read fun _ => do .ok (some (.double (host.neg (← castDouble host v))))
  | .timeDuration => read fun h => do
    .ok (some (.timeDuration (host.durationNeg (← castDuration host h v))))
  | _ => noSup

def _dec (c : OperClass) (v : Ptr) : VM Ptr :=
  match c with
  | .int64 => read fun _ => do .ok (some (.int64 ((← castInt64 v) - 1)))
  | .double => read fun _ => do
    .ok (some (.double (host.sub (← castDouble host v) (host.ofInt64 1))))
  | .id => read fun _ => do .ok (some (.id (Value.ID.ONE.distance (← castID v))))
  | _ => noSup

def _inc (c : OperClass) (v : Ptr) : VM Ptr :=
  match c with
  | .int64 => read fun _ => do .ok (some (.int64 ((← castInt64 v) + 1)))
  | .double => read fun _ => do
    .ok (some (.double (host.add (← castDouble host v) (host.ofInt64 1))))
  | .id => read fun _ => do .ok (some (.id ((← castID v).add Value.ID.ONE)))
  | _ => noSup

end Classes

/-! ## The operators -/

namespace Opr

variable (host : Host) (v v1 v2 v3 : Ptr)

def lshift : VM Ptr := dispatch v1 v2 fun c => _lshift c v1 v2

def rshift : VM Ptr := dispatch v1 v2 fun c => _rshift c v1 v2

def plus : VM Ptr := dispatch v1 v2 fun c => _plus host c v1 v2

def minus : VM Ptr := dispatch v1 v2 fun c => _minus host c v1 v2

def times : VM Ptr := dispatch v1 v2 fun c => _times host c v1 v2

def divide : VM Ptr := dispatch v1 v2 fun c => _divide host c v1 v2

def mod : VM Ptr := dispatch v1 v2 fun c => _mod c v1 v2

def band : VM Ptr := dispatch v1 v2 fun c => _band host c v1 v2

def bor : VM Ptr := dispatch v1 v2 fun c => _bor host c v1 v2

def bxor : VM Ptr := dispatch v1 v2 fun c => _bxor host c v1 v2

def bnot : VM Ptr := dispatch v v fun c => _bnot c v

def neg : VM Ptr := dispatch v v fun c => _neg host c v

def dec : VM Ptr := dispatch v v fun c => _dec host c v

def inc : VM Ptr := dispatch v v fun c => _inc host c v

def eq : VM Bool :=
  tryCatch (dispatch v1 v2 fun c => _eq host c v1 v2) fun e =>
    if e = .throws .typeError then return false else throw e

def neq : VM Bool := dispatch v1 v2 fun c => _neq host c v1 v2

def lt : VM Bool := dispatch v1 v2 fun c => _lt host c v1 v2

def lte : VM Bool := dispatch v1 v2 fun c => _lte host c v1 v2

def gt : VM Bool := dispatch v1 v2 fun c => _gt host c v1 v2

def gte : VM Bool := dispatch v1 v2 fun c => _gte host c v1 v2

def inOO : VM Bool := dispatch v2 v3 fun c => interval host (· == .gt) (· == .lt) c v1 v2 v3

def inOC : VM Bool := dispatch v2 v3 fun c => interval host (· == .gt) (· != .gt) c v1 v2 v3

def inCO : VM Bool := dispatch v2 v3 fun c => interval host (· != .lt) (· == .lt) c v1 v2 v3

def inCC : VM Bool := dispatch v2 v3 fun c => interval host (· != .lt) (· != .gt) c v1 v2 v3

end Opr

/-! ## Where the operators end well -/

/-- An operand that a class of operators can cast: without null pointers, with a text where the class
is that of strings, and with a time where it is that of times. -/
structure Ready (host : Host) (h : Heap) (c : OperClass) (p : Ptr) : Prop where
  whole : whole host h p
  text : c = .str → sound host h p
  time : c = .time → readable host p

def rowOf (v : Ptr) : Option OperClass := v.bind fun o => oper_table o.typeCode o.typeCode

/-- Operands for which the table has an entry that can cast them. -/
def OperReady (host : Host) (h : Heap) (v1 v2 : Ptr) : Prop :=
  ∃ c, rowOf v1 = some c ∧ Ready host h c v1 ∧ Ready host h c v2

/-- Operands of an interval test: the class comes from the lower end, and a tuple cannot be compared
with the null value. -/
def IntervalReady (host : Host) (h : Heap) (v src dest : Ptr) : Prop :=
  ∃ c, rowOf src = some c ∧ (Ready host h c v ∧ Ready host h c src ∧ Ready host h c dest) ∧
    (c = .tuple → v ≠ some .null ∧ dest ≠ some .null)

/-- The machine does not trap on a division: not the least integer by minus one. -/
def NoOverflow (v1 v2 : Ptr) : Prop :=
  rowOf v1 = some .int64 → ¬ (castInt64 v1 = .ok Int64.minValue ∧ castInt64 v2 = .ok (-1))

section Specs

variable {host : Host} {h h₀ : Heap} {s : State} {c : OperClass} {p q v1 v2 : Ptr}

lemma Ready.ne_none (hr : Ready host h c p) : p ≠ none :=
  ne_none_of_valid (valid_of_nested hr.whole)

lemma OperReady.ne_none (hr : OperReady host h v1 v2) : v1 ≠ none := by
  obtain ⟨c, -, hr1, -⟩ := hr
  exact hr1.ne_none

lemma Ready.congr (hr : Ready host h₀ c p) (hs : h.parts = h₀.parts) : Ready host h c p :=
  ⟨whole_congr hs ▸ hr.whole, fun hc => sound_congr hs ▸ hr.text hc, hr.time⟩

lemma dispatch_eq {α : Type} {f : OperClass → VM α} (hrow : rowOf v1 = some c) (hv2 : v2 ≠ none) :
    dispatch v1 v2 f = f c := by
  cases v1 with
  | none => cases hrow
  | some o1 =>
    cases v2 with
    | none => exact absurd rfl hv2
    | some o2 =>
      funext s
      show (match oper_table o1.typeCode o2.typeCode with
        | some c => f c
        | none => throw (Trouble.faults .operTable)) s = f c s
      rw [show oper_table o1.typeCode o2.typeCode = some c from hrow]

lemma nested_elementsOf {test : Obj → Bool} (hp : nested test h host.room p) :
    ∀ q ∈ h.elementsOf p, nested test h host.room q := by
  cases p with
  | none => exact forall_mem_nil _
  | some o =>
    cases o with
    | list | set => exact nested_parts hp
    | _ => exact forall_mem_nil _

lemma whole_elementsOf (hp : whole host h p) : ∀ q ∈ h.elementsOf p, whole host h q :=
  nested_elementsOf hp

lemma whole_set {a : Addr} (hs : h.parts = h₀.parts) (ha : h₀.set a = h₀.elementsOf p)
    (hp : whole host h₀ p) : ∀ q ∈ h.set a, whole host h₀ q := by
  rw [show h.set a = h₀.set a from congrFun hs (.set a), ha]
  exact whole_elementsOf hp

lemma whole_of_elementsOf {o : Obj} (hp : whole host h p) (hvalid : valid (some o))
    (hparts : h.parts o = h.elementsOf p) : whole host h (some o) := by
  refine nested_succ.mpr ⟨hvalid, rfl, ?_⟩
  rw [hparts]
  cases p with
  | none => exact forall_mem_nil _
  | some o' =>
    cases o' with
    | list | set => exact (nested_succ.mp hp).2.2
    | _ => exact forall_mem_nil _

lemma fine_compareTo (hp : whole host h p ∨ p = some (.tuple none)) (hq : whole host h q) :
    Fine (compareTo h host.room p q) := by
  rcases hp with hp | rfl
  · exact fine_of_exists (compareTo_of_nested hp hq)
  · obtain ⟨o, rfl⟩ := exists_of_valid (valid_of_nested hq)
    refine fine_of_exists (exists_compareObj (valid_of_nested hq) ?_)
    exact exists_compareLoop fun p hp => absurd hp not_mem_nil

lemma fine_quotient {f : Int64 → Int64 → Int64} {m n : Int64} (hn : n ≠ 0)
    (htrap : ¬ (m = Int64.minValue ∧ n = -1)) : Fine (quotient f m n) := by
  unfold quotient
  rw [if_neg (not_or.mpr ⟨hn, htrap⟩)]
  exact fine_ok _

lemma ne_null_of_rowOf (hrow : rowOf p = some c) (hc : c = .tuple) : p ≠ some .null := by
  rintro rfl
  rw [hc] at hrow
  exact OperClass.noConfusion (Option.some.inj hrow)

/-! ## Walks through sets -/

lemma fine_ltSet (hp : whole host h p) (hq : whole host h q) : Fine (ltSet host h p q) :=
  (fine_compareTo (Or.inl hp) hq).map

variable {lt : Ptr → Ptr → Except Trouble Bool} {ps qs : List Ptr}

lemma fine_includes (hlt : ∀ p ∈ ps, ∀ q ∈ qs, Fine (lt p q) ∧ Fine (lt q p)) :
    Fine (includes lt ps qs) := by
  fun_induction includes lt ps qs with
  | case1 | case2 => exact fine_ok _
  | case3 p ps q qs ihLeft ihBoth =>
    have hpq := hlt p mem_cons_self q mem_cons_self
    refine hpq.2.bind fun below _ => ?_
    split_ifs
    · exact fine_ok _
    refine hpq.1.bind fun above _ => ?_
    split_ifs
    · exact ihLeft fun p' hp' => hlt p' (mem_cons_of_mem p hp')
    · exact ihBoth fun p' hp' q' hq' => hlt p' (mem_cons_of_mem p hp') q' (mem_cons_of_mem q hq')

lemma fine_setMember (hlt : ∀ q ∈ qs, Fine (lt q p) ∧ Fine (lt p q)) :
    Fine (setMember lt p qs) := by
  induction qs with
  | nil => exact fine_ok _
  | cons q qs ih =>
    have hq := hlt q mem_cons_self
    refine hq.1.bind fun below _ => hq.2.bind fun above _ => ?_
    split_ifs
    · exact fine_ok _
    · exact ih fun q' hq' => hlt q' (mem_cons_of_mem q hq')

lemma fine_mergeSets (keepLeft keepBoth keepRight : Bool)
    (hlt : ∀ p ∈ ps, ∀ q ∈ qs, Fine (lt p q) ∧ Fine (lt q p)) :
    Fine (mergeSets lt keepLeft keepBoth keepRight ps qs) := by
  -- the walk takes an element from one of the two sequences in each round
  fun_induction mergeSets lt keepLeft keepBoth keepRight ps qs with
  | case1 | case2 => exact fine_ok _
  | case3 p ps q qs ihLeft ihRight ihBoth =>
    have hpq := hlt p mem_cons_self q mem_cons_self
    refine hpq.1.bind fun below _ => ?_
    by_cases hbelow : below
    · rw [if_pos hbelow]
      exact (ihLeft fun p' hp' => hlt p' (mem_cons_of_mem p hp')).bind fun _ _ => fine_ok _
    rw [if_neg hbelow]
    refine hpq.2.bind fun above _ => ?_
    by_cases habove : above
    · rw [if_pos habove]
      exact (ihRight fun p' hp' q' hq' => hlt p' hp' q' (mem_cons_of_mem q hq')).bind
        fun _ _ => fine_ok _
    · rw [if_neg habove]
      exact (ihBoth fun p' hp' q' hq' => hlt p' (mem_cons_of_mem p hp') q'
        (mem_cons_of_mem q hq')).bind fun _ _ => fine_ok _

lemma fine_ltSet_elements (hs : h.parts = h₀.parts) (hp : ∀ p ∈ ps, whole host h₀ p)
    (hq : ∀ q ∈ qs, whole host h₀ q) :
    ∀ p ∈ ps, ∀ q ∈ qs, Fine (ltSet host h p q) ∧ Fine (ltSet host h q p) := by
  intro p hpm q hqm
  have hp' : whole host h p := whole_congr hs ▸ hp p hpm
  have hq' : whole host h q := whole_congr hs ▸ hq q hqm
  exact ⟨fine_ltSet hp' hq', fine_ltSet hq' hp'⟩

section Ready

variable (hs : s.heap.parts = h₀.parts)

include hs

lemma quiet_mkCast (hr : Ready host h₀ c p) :
    Quiet h₀ (mkCast host c p) s fun o => whole host h₀ (some o) ∨
    (c = .tuple ∧ p = some .null ∧ o = .tuple none) := by
  have hp := hr.ne_none
  have hleaf : ∀ {o : Obj} {P : Prop}, valid (some o) → h₀.parts o = [] →
      whole host h₀ (some o) ∨ P := fun hvalid hparts => Or.inl (whole_leaf hvalid hparts)
  have hread : ∀ {α : Type} {x : Heap → Except Trouble α} {f : α → Obj}, Fine (x s.heap) →
      (∀ a, valid (some (f a)) ∧ h₀.parts (f a) = []) →
      Quiet h₀ (read fun h => f <$> x h) s fun o =>
        whole host h₀ (some o) ∨ (c = .tuple ∧ p = some .null ∧ o = .tuple none) := by
    intro α x f hx hf
    refine quiet_read hs hx.map fun o ho => ?_
    cases hxa : x s.heap with
    | ok a =>
      rw [hxa] at ho
      rw [← Except.ok.inj ho]
      exact hleaf (hf a).1 (hf a).2
    | error e =>
      rw [hxa] at ho
      cases ho
  unfold mkCast
  cases c with
  | null =>
    refine quiet_read hs ?_ fun o ho => ?_
    · refine (fine_deref hp).bind fun o _ => ?_
      split_ifs
      · exact fine_ok _
      · exact fine_typeError
    · obtain ⟨o', rfl⟩ := exists_of_valid (valid_of_nested hr.whole)
      have ho' : (if o'.typeCode = .NULLV then .ok .null else .error (.throws .typeError)) =
          Except.ok (ε := Trouble) o := ho
      split_ifs at ho'
      rw [← Except.ok.inj ho']
      exact hleaf rfl rfl
  | str => exact hread (fine_castStr (sound_congr hs ▸ hr.text rfl)) fun a => ⟨rfl, rfl⟩
  | int64 => exact hread (fine_castInt64 hp) fun a => ⟨rfl, rfl⟩
  | double => exact hread (fine_castDouble hp) fun a => ⟨rfl, rfl⟩
  | opaqueBuf => exact hread (fine_castOpaque hp) fun a => ⟨rfl, rfl⟩
  | time => exact hread (fine_castTime (hr.time rfl)) fun a => ⟨rfl, rfl⟩
  | id => exact hread (fine_castID hp) fun a => ⟨rfl, rfl⟩
  | timeDuration => exact hread (fine_castDuration (hr.congr hs).whole) fun a => ⟨rfl, rfl⟩
  | tuple =>
    refine quiet_read hs (fine_castTuple hp).map fun o ho => ?_
    obtain ⟨o', rfl⟩ := exists_of_valid (valid_of_nested hr.whole)
    cases o' with
    | tuple t =>
      rw [← Except.ok.inj ho]
      exact Or.inl hr.whole
    | null =>
      rw [← Except.ok.inj ho]
      exact Or.inr ⟨rfl, rfl, rfl⟩
    | _ => cases ho
  | set =>
    exact (quiet_castSet hs hp).map fun a ha => Or.inl (whole_of_elementsOf hr.whole rfl ha)
  | list =>
    exact (quiet_castList hs hp).map fun a ha => Or.inl (whole_of_elementsOf hr.whole rfl ha)

lemma quiet_comparePtr (hp : whole host h₀ p ∨ p = some (.tuple none)) (hq : whole host h₀ q) :
    Quietly h₀ (comparePtr host p q) s := by
  refine quiet_read hs (fine_compareTo ?_ ?_) fun _ _ => trivial
  · rw [whole_congr hs]
    exact hp
  · rw [whole_congr hs]
    exact hq

lemma quiet_operCompare (test : Ordering → Bool) (hr1 : Ready host h₀ c v1)
    (hr2 : Ready host h₀ c v2) (hnull : c = .tuple → v1 ≠ some .null) :
    Quietly h₀ (operCompare host test c v1 v2) s := by
  refine (quiet_mkCast hs hr1).bind fun c1 h1 hc1 hs1 => ?_
  refine (quiet_mkCast hs1 hr2).bind fun c2 h2 hc2 hs2 => ?_
  have hc1' : whole host h₀ (some c1) := hc1.resolve_right fun hc => hnull hc.1 hc.2.1
  have hc2' : whole host h₀ (some c2) ∨ some c2 = some (.tuple none) :=
    hc2.imp_right fun hc => congrArg some hc.2.2
  exact (quiet_comparePtr hs2 hc2' hc1').bind fun o h3 _ hs3 => quiet_pure hs3 trivial

/-! ## Comparisons -/

lemma quiet_setTest
    {sets : List Ptr → List Ptr → (Ptr → Ptr → Except Trouble Bool) → Except Trouble Bool}
    {single : List Ptr → (Ptr → Ptr → Except Trouble Bool) → Except Trouble Bool}
    (hv1 : whole host h₀ v1) (hv2 : whole host h₀ v2)
    (hsets : ∀ as bs lt, (∀ p ∈ as, ∀ q ∈ bs, Fine (lt p q) ∧ Fine (lt q p)) → Fine (sets as bs lt))
    (hsingle : ∀ as lt, (∀ q ∈ as, Fine (lt q v2) ∧ Fine (lt v2 q)) → Fine (single as lt)) :
    Quietly h₀ (setTest host sets single v1 v2) s := by
  have hne1 := ne_none_of_valid (valid_of_nested hv1)
  have hne2 := ne_none_of_valid (valid_of_nested hv2)
  refine (quiet_read (P := fun _ => True) hs (fine_deref hne2) fun _ _ => trivial).bind
    fun o2 h1 _ hs1 => ?_
  split_ifs
  · refine (quiet_castSet hs1 hne1).bind fun a h2 ha hs2 => ?_
    refine (quiet_castSet hs2 hne2).bind fun b h3 hb hs3 => ?_
    refine quiet_read hs3 (hsets _ _ _ ?_) fun _ _ => trivial
    exact fine_ltSet_elements hs3 (whole_set hs3 ha hv1) (whole_set hs3 hb hv2)
  · refine (quiet_castSet hs1 hne1).bind fun a h2 ha hs2 => ?_
    refine quiet_read hs2 (hsingle _ _ fun q hq => ?_) fun _ _ => trivial
    exact fine_ltSet_elements hs2 (whole_set hs2 ha hv1) (forall_mem_singleton.mpr hv2) q hq v2
      (mem_singleton.mpr rfl)

lemma quiet_eq_class (hrow : rowOf v1 = some c) (hr1 : Ready host h₀ c v1)
    (hr2 : Ready host h₀ c v2) :
    Quietly h₀ (_eq host c v1 v2) s ∧ Quietly h₀ (_neq host c v1 v2) s := by
  have hnull := ne_null_of_rowOf hrow
  cases c with
  | null =>
    have heq : Quietly h₀ (_eq host .null v1 v2) s := by
      unfold _eq
      refine quiet_read hs ?_ fun _ _ => trivial
      exact (fine_deref hr1.ne_none).bind fun _ _ =>
        (fine_deref hr2.ne_none).bind fun _ _ => fine_ok _
    exact ⟨heq, heq.bind fun b h1 _ hs1 => quiet_pure hs1 trivial⟩
  | tuple =>
    have hcompare (test : Ordering → Bool) : Quietly h₀ (do
        let c1 ← mkCast host .tuple v1
        let o ← comparePtr host (some c1) v2
        return test o) s := by
      refine (quiet_mkCast hs hr1).bind fun c1 h1 hc1 hs1 => ?_
      have hc1' := hc1.imp_right fun hc => congrArg some hc.2.2
      exact (quiet_comparePtr hs1 hc1' hr2.whole).bind fun o h2 _ hs2 => quiet_pure hs2 trivial
    exact ⟨hcompare _, hcompare _⟩
  | _ => exact ⟨quiet_operCompare hs _ hr1 hr2 hnull, quiet_operCompare hs _ hr1 hr2 hnull⟩

lemma quiet_noSup {α : Type} {P : α → Prop} : Quiet h₀ (noSup : VM α) s P :=
  quiet_throw hs (Or.inl rfl)

lemma quiet_order_class (hrow : rowOf v1 = some c) (hr1 : Ready host h₀ c v1)
    (hr2 : Ready host h₀ c v2) :
    Quietly h₀ (_lt host c v1 v2) s ∧ Quietly h₀ (_lte host c v1 v2) s ∧
    Quietly h₀ (_gt host c v1 v2) s ∧ Quietly h₀ (_gte host c v1 v2) s := by
  have hnull := ne_null_of_rowOf hrow
  have hsym : ∀ {as bs : List Ptr} {lt : Ptr → Ptr → Except Trouble Bool},
      (∀ p ∈ as, ∀ q ∈ bs, Fine (lt p q) ∧ Fine (lt q p)) →
      ∀ q ∈ bs, ∀ p ∈ as, Fine (lt q p) ∧ Fine (lt p q) :=
    fun h q hq p hp => (h p hp q hq).symm
  cases c with
  | null => exact ⟨quiet_noSup hs, quiet_noSup hs, quiet_noSup hs, quiet_noSup hs⟩
  | set =>
    unfold _lt _lte _gt
    refine ⟨?_, ?_, ?_, ?_⟩
    · refine quiet_setTest hs hr1.whole hr2.whole (fun as bs lt hlt => ?_) fun _ _ _ => fine_ok _
      exact (fine_includes (hsym hlt)).bind fun _ _ => fine_ok _
    · refine quiet_setTest hs hr1.whole hr2.whole (fun as bs lt hlt => fine_includes (hsym hlt))
        fun as lt hlt => ?_
      exact (fine_setMember hlt).bind fun _ _ => fine_ok _
    · refine quiet_setTest hs hr1.whole hr2.whole (fun as bs lt hlt => ?_) fun as lt hlt => ?_
      · exact (fine_includes hlt).bind fun _ _ => fine_ok _
      · exact (fine_setMember hlt).bind fun _ _ => fine_ok _
    · exact quiet_setTest hs hr1.whole hr2.whole (fun as bs lt hlt => fine_includes hlt)
        fun as lt hlt => fine_setMember hlt
  | _ =>
    exact ⟨quiet_operCompare hs _ hr1 hr2 hnull, quiet_operCompare hs _ hr1 hr2 hnull,
      quiet_operCompare hs _ hr1 hr2 hnull, quiet_operCompare hs _ hr1 hr2 hnull⟩

/-- **Comparisons end well** on operands that are ready. -/
theorem quiet_compare (hr : OperReady host h₀ v1 v2) :
    Quietly h₀ (Opr.eq host v1 v2) s ∧ Quietly h₀ (Opr.neq host v1 v2) s ∧
    Quietly h₀ (Opr.lt host v1 v2) s ∧ Quietly h₀ (Opr.lte host v1 v2) s ∧
    Quietly h₀ (Opr.gt host v1 v2) s ∧ Quietly h₀ (Opr.gte host v1 v2) s := by
  obtain ⟨c, hrow, hr1, hr2⟩ := hr
  have hdispatch : ∀ f : OperClass → VM Bool, dispatch v1 v2 f = f c :=
    fun f => dispatch_eq hrow hr2.ne_none
  unfold Opr.eq Opr.neq Opr.lt Opr.lte Opr.gt Opr.gte
  simp only [hdispatch]
  obtain ⟨heq, hneq⟩ := quiet_eq_class hs hrow hr1 hr2
  refine ⟨?_, hneq, quiet_order_class hs hrow hr1 hr2⟩
  unfold Quietly Quiet
  rw [ends_tryCatch]
  refine heq.mono ?_ fun _ _ ht => ht
  rintro e t ⟨he, ht⟩
  rw [ends_ite]
  exact ⟨fun _ => ⟨trivial, ht⟩, fun _ => ⟨he, ht⟩⟩

/-! ## Intervals -/

lemma quiet_interval_class {v src dest : Ptr} (above below : Ordering → Bool)
    (hrow : rowOf src = some c)
    (hr : Ready host h₀ c v ∧ Ready host h₀ c src ∧ Ready host h₀ c dest)
    (hnull : c = .tuple → v ≠ some .null ∧ dest ≠ some .null) :
    Quietly h₀ (interval host above below c v src dest) s := by
  have hrest : c ≠ .null → Quietly h₀ (do
      let v ← mkCast host c v
      let f ← mkCast host c src
      let t ← mkCast host c dest
      let test (o : Ordering → Bool) (x y : Obj) : VM Bool := o <$> comparePtr host (some x) (some y)
      (test above v f <&&> test below v t) <||> (test (· != .gt) t f <&&> test above v f) <||>
        (test below v t <&&> test (· != .gt) t f)) s := by
    intro _
    refine (quiet_mkCast hs hr.1).bind fun o1 h1 ho1 hs1 => ?_
    refine (quiet_mkCast hs1 hr.2.1).bind fun o2 h2 ho2 hs2 => ?_
    refine (quiet_mkCast hs2 hr.2.2).bind fun o3 h3 ho3 hs3 => ?_
    have hw1 := ho1.resolve_right fun hc => (hnull hc.1).1 hc.2.1
    have hw2 := ho2.resolve_right fun hc => ne_null_of_rowOf hrow hc.1 hc.2.1
    have hw3 := ho3.resolve_right fun hc => (hnull hc.1).2 hc.2.1
    have htest : ∀ (o : Ordering → Bool) (x y : Obj) (h : Heap), whole host h₀ (some x) →
        whole host h₀ (some y) → h.parts = h₀.parts →
        Quietly h₀ (o <$> comparePtr host (some x) (some y)) { s with heap := h } :=
      fun o x y h hx hy hh => (quiet_comparePtr hh (Or.inl hx) hy).map fun _ _ => trivial
    refine Quiet.orM (Quiet.andM (htest above o1 o2 h3 hw1 hw2 hs3)
      fun h hh => htest below o1 o3 h hw1 hw3 hh) fun h4 hs4 => ?_
    exact Quiet.orM (Quiet.andM (htest _ o3 o2 h4 hw3 hw2 hs4)
      fun h hh => htest above o1 o2 h hw1 hw2 hh) fun h5 hs5 =>
        Quiet.andM (htest below o1 o3 h5 hw1 hw3 hs5) fun h hh => htest _ o3 o2 h hw3 hw2 hh
  cases c with
  | null => exact quiet_noSup hs
  | _ => exact hrest OperClass.noConfusion

/-- **Interval tests end well** on operands that are ready. -/
theorem quiet_interval {v src dest : Ptr} (hr : IntervalReady host h₀ v src dest) :
    Quietly h₀ (Opr.inOO host v src dest) s ∧ Quietly h₀ (Opr.inOC host v src dest) s ∧
    Quietly h₀ (Opr.inCO host v src dest) s ∧ Quietly h₀ (Opr.inCC host v src dest) s := by
  obtain ⟨c, hrow, hready, hnull⟩ := hr
  have hdispatch : ∀ above below, Quietly h₀ (dispatch src dest fun c =>
      interval host above below c v src dest) s := by
    intro above below
    rw [dispatch_eq hrow hready.2.2.ne_none]
    exact quiet_interval_class hs above below hrow hready hnull
  exact ⟨hdispatch _ _, hdispatch _ _, hdispatch _ _, hdispatch _ _⟩

/-! ## Arithmetic -/

lemma ends_noSup {α : Type} : EndsWell h₀ (noSup : VM α) s :=
  Quiet.ends (P := fun _ => True) (quiet_noSup hs)

lemma ends_int64Op {f : Int64 → Int64 → Int64} (hv1 : v1 ≠ none) (hv2 : v2 ≠ none) :
    EndsWell h₀ (int64Op f v1 v2) s :=
  ends_read hs ((fine_castInt64 hv1).bind fun _ _ => (fine_castInt64 hv2).bind fun _ _ => fine_ok _)

lemma ends_doubleOp {f : Double → Double → Double} (hv1 : v1 ≠ none) (hv2 : v2 ≠ none) :
    EndsWell h₀ (doubleOp host f v1 v2) s :=
  ends_read hs ((fine_castDouble hv1).bind fun _ _ => (fine_castDouble hv2).bind fun _ _ => fine_ok _)

lemma ends_idOp {f : Value.ID → Value.ID → Value.ID} (hv1 : v1 ≠ none) (hv2 : v2 ≠ none) :
    EndsWell h₀ (idOp f v1 v2) s :=
  ends_read hs ((fine_castID hv1).bind fun _ _ => (fine_castID hv2).bind fun _ _ => fine_ok _)

lemma ends_idShift {f : Value.ID → UInt32 → Value.ID} (hv1 : v1 ≠ none) (hv2 : v2 ≠ none) :
    EndsWell h₀ (idShift f v1 v2) s :=
  ends_read hs ((fine_castID hv1).bind fun _ _ => (fine_castInt64 hv2).bind fun _ _ => fine_ok _)

lemma ends_durationOp {f : TimeRep → TimeRep → TimeRep} (hr1 : Ready host h₀ c v1)
    (hr2 : Ready host h₀ c v2) : EndsWell h₀ (durationOp host f v1 v2) s :=
  ends_read hs ((fine_castDuration (hr1.congr hs).whole).bind fun _ _ =>
    (fine_castDuration (hr2.congr hs).whole).bind fun _ _ => fine_ok _)

lemma ends_setOp (keepLeft keepBoth keepRight : Bool) (hr1 : Ready host h₀ c v1)
    (hr2 : Ready host h₀ c v2) : EndsWell h₀ (setOp host keepLeft keepBoth keepRight v1 v2) s := by
  refine (quiet_castSet hs hr1.ne_none).ends_bind fun a h1 ha hs1 => ?_
  refine (quiet_castSet hs1 hr2.ne_none).ends_bind fun b h2 hb hs2 => ?_
  have hfine := fine_mergeSets keepLeft keepBoth keepRight
    (fine_ltSet_elements hs2 (whole_set hs2 ha hr1.whole) (whole_set hs2 hb hr2.whole))
  exact (quiet_read (P := fun _ => True) hs2 hfine fun _ _ => trivial).ends_bind
    fun elements h3 _ hs3 => trivial

/-- **Arithmetic ends well** on operands that are ready. -/
theorem ends_arith (hr : OperReady host h₀ v1 v2) :
    EndsWell h₀ (Opr.lshift v1 v2) s ∧ EndsWell h₀ (Opr.rshift v1 v2) s ∧
    EndsWell h₀ (Opr.plus host v1 v2) s ∧ EndsWell h₀ (Opr.minus host v1 v2) s ∧
    EndsWell h₀ (Opr.times host v1 v2) s ∧ EndsWell h₀ (Opr.band host v1 v2) s ∧
    EndsWell h₀ (Opr.bor host v1 v2) s ∧ EndsWell h₀ (Opr.bxor host v1 v2) s := by
  obtain ⟨c, hrow, hr1, hr2⟩ := hr
  have hv1 := hr1.ne_none
  have hv2 := hr2.ne_none
  have hdispatch : ∀ f : OperClass → VM Ptr, dispatch v1 v2 f = f c := fun f => dispatch_eq hrow hv2
  have hno : EndsWell h₀ (noSup : VM Ptr) s := ends_noSup hs
  have hint {f} : EndsWell h₀ (int64Op f v1 v2) s := ends_int64Op hs hv1 hv2
  have hdouble {f} : EndsWell h₀ (doubleOp host f v1 v2) s := ends_doubleOp hs hv1 hv2
  have hid {f} : EndsWell h₀ (idOp f v1 v2) s := ends_idOp hs hv1 hv2
  have hshift {f} : EndsWell h₀ (idShift f v1 v2) s := ends_idShift hs hv1 hv2
  have hduration {f} : EndsWell h₀ (durationOp host f v1 v2) s := ends_durationOp hs hr1 hr2
  have hset {l b r} : EndsWell h₀ (setOp host l b r v1 v2) s := ends_setOp hs l b r hr1 hr2
  unfold Opr.lshift Opr.rshift Opr.plus Opr.minus Opr.times Opr.band Opr.bor Opr.bxor
  simp only [hdispatch]
  unfold _plus _minus
  cases c with
  | int64 => exact ⟨hint, hint, hint, hint, hint, hint, hint, hint⟩
  | id => exact ⟨hshift, hshift, hid, hid, hno, hid, hid, hid⟩
  | double => exact ⟨hno, hno, hdouble, hdouble, hdouble, hno, hno, hno⟩
  | timeDuration => exact ⟨hno, hno, hduration, hduration, hno, hno, hno, hno⟩
  | set => exact ⟨hno, hno, hno, hno, hno, hset, hset, hset⟩
  | str =>
    refine ⟨hno, hno, ends_read hs ?_, hno, hno, hno, hno, hno⟩
    exact (fine_castStr ((hr1.congr hs).text rfl)).bind fun _ _ =>
      (fine_castStr ((hr2.congr hs).text rfl)).bind fun _ _ => fine_ok _
  | time =>
    refine ⟨hno, hno, hno, ends_read hs ((fine_deref hv2).bind fun o _ => ?_), hno, hno, hno, hno⟩
    split_ifs
    · exact (fine_castTime (hr1.time rfl)).bind fun _ _ =>
        (fine_castTime (hr2.time rfl)).bind fun _ _ => fine_ok _
    · exact (fine_castTime (hr1.time rfl)).bind fun _ _ =>
        (fine_castDuration (hr2.congr hs).whole).bind fun _ _ => fine_ok _
  | _ => exact ⟨hno, hno, hno, hno, hno, hno, hno, hno⟩

/-- **Unary operators end well** on an operand that is ready. -/
theorem ends_unary {v : Ptr} (hr : OperReady host h₀ v v) :
    EndsWell h₀ (Opr.bnot v) s ∧ EndsWell h₀ (Opr.neg host v) s ∧ EndsWell h₀ (Opr.dec host v) s ∧
    EndsWell h₀ (Opr.inc host v) s := by
  obtain ⟨c, hrow, hr, -⟩ := hr
  have hv := hr.ne_none
  have hdispatch : ∀ f : OperClass → VM Ptr, dispatch v v f = f c := fun f => dispatch_eq hrow hv
  have hno : EndsWell h₀ (noSup : VM Ptr) s := ends_noSup hs
  have hint {f : Int64 → Obj} : EndsWell h₀ (read fun _ => do .ok (some (f (← castInt64 v)))) s :=
    ends_read hs ((fine_castInt64 hv).bind fun _ _ => fine_ok _)
  have hdouble {f : Double → Obj} :
      EndsWell h₀ (read fun _ => do .ok (some (f (← castDouble host v)))) s :=
    ends_read hs ((fine_castDouble hv).bind fun _ _ => fine_ok _)
  have hid {f : Value.ID → Obj} : EndsWell h₀ (read fun _ => do .ok (some (f (← castID v)))) s :=
    ends_read hs ((fine_castID hv).bind fun _ _ => fine_ok _)
  unfold Opr.bnot Opr.neg Opr.dec Opr.inc
  simp only [hdispatch]
  unfold _neg
  cases c with
  | int64 => exact ⟨hint, hint, hint, hint⟩
  | double => exact ⟨hno, hdouble, hdouble, hdouble⟩
  | id => exact ⟨hid, hno, hid, hid⟩
  | set =>
    refine ⟨(quiet_castSet hs hv).ends_bind fun a h1 _ hs1 => ?_, hno, hno, hno⟩
    exact ends_read hs1 (fine_ok _)
  | timeDuration =>
    refine ⟨hno, ends_read hs ?_, hno, hno⟩
    exact (fine_castDuration (hr.congr hs).whole).bind fun _ _ => fine_ok _
  | _ => exact ⟨hno, hno, hno, hno⟩

/-- **Division ends well**, or with the exception for a zero divisor. -/
theorem ends_divide (hr : OperReady host h₀ v1 v2) (htrap : NoOverflow v1 v2) :
    Ends (fun e t => Allowed h₀ e t ∨ e = .throws .divisionByZero ∧ t = s) (Opr.divide host v1 v2) s fun
    _ _ => True := by
  obtain ⟨c, hrow, hr1, hr2⟩ := hr
  have hv1 := hr1.ne_none
  have hv2 := hr2.ne_none
  unfold Opr.divide
  rw [dispatch_eq hrow hv2]
  have hallowed : ∀ {m : VM Ptr}, EndsWell h₀ m s →
      Ends (fun e t => Allowed h₀ e t ∨ e = .throws .divisionByZero ∧ t = s) m s fun _ _ => True :=
    fun hm => hm.mono (fun _ _ he => Or.inl he) fun _ _ _ => trivial
  cases c with
  | int64 =>
    refine ends_ofExcept.mpr ⟨fun _ _ => trivial, fun e he => ?_⟩
    cases h2 : castInt64 v2 with
    | error e2 =>
      rw [h2] at he
      rw [← Except.error.inj he]
      exact Or.inl ⟨fine_castInt64 hv2 e2 h2, hs⟩
    | ok n =>
      rw [h2] at he
      by_cases hn : n = 0
      · have he' : Except.error (.throws .divisionByZero) = Except.error (α := Ptr) e := by
          rw [← he]
          show _ = if n = 0 then _ else _
          rw [if_pos hn]
        exact Or.inr ⟨(Except.error.inj he').symm, rfl⟩
      · have he' : (do .ok (some (.int64 (← quotient (· / ·) (← castInt64 v1) n)))) =
            Except.error (α := Ptr) e := by
          rw [← he]
          show _ = if n = 0 then _ else _
          rw [if_neg hn]
          rfl
        refine Or.inl ⟨Fine.bind (fine_castInt64 hv1) (fun m hm => ?_) e he', hs⟩
        refine (fine_quotient hn ?_).bind fun _ _ => fine_ok _
        rintro ⟨rfl, rfl⟩
        exact htrap hrow ⟨hm, h2⟩
  | double => exact hallowed (ends_doubleOp hs hv1 hv2)
  | set => exact hallowed (ends_setOp hs _ _ _ hr1 hr2)
  | _ => exact hallowed (ends_noSup hs)

/-- **The remainder ends well** where the divisor is not zero after the cast. -/
theorem ends_mod (hr : OperReady host h₀ v1 v2) (htrap : NoOverflow v1 v2)
    (hzero : rowOf v1 = some .int64 → castInt64 v2 ≠ .ok 0) : EndsWell h₀ (Opr.mod v1 v2) s := by
  obtain ⟨c, hrow, hr1, hr2⟩ := hr
  unfold Opr.mod
  rw [dispatch_eq hrow hr2.ne_none]
  cases c with
  | int64 =>
    unfold _mod
    refine ends_read hs ((fine_castInt64 hr1.ne_none).bind fun m hm => ?_)
    refine (fine_castInt64 hr2.ne_none).bind fun n hn => ?_
    refine (fine_quotient ?_ ?_).bind fun _ _ => fine_ok _
    · rintro rfl
      exact hzero hrow hn
    · rintro ⟨rfl, rfl⟩
      exact htrap hrow ⟨hm, hn⟩
  | _ => exact ends_noSup hs

end Ready

end Specs

/-! ## Intervals of identifiers -/

section Ring

variable (host : Host) (x src dest : Value.ID) (s : State)

lemma interval_id (above below : Ordering → Bool) :
    interval host above below .id (some (.id x)) (some (.id src)) (some (.id dest)) s =
      .ok ((above (x.compareTo src) && below (x.compareTo dest)) ||
        ((dest.compareTo src != .gt && above (x.compareTo src)) ||
          (below (x.compareTo dest) && dest.compareTo src != .gt))) s := by
  have htest : ∀ (o : Ordering → Bool) (a b : Value.ID),
      (o <$> comparePtr host (some (.id a)) (some (.id b))) s = .ok (o (a.compareTo b)) s :=
    fun o a b => rfl
  exact orM_eq_ok (andM_eq_ok (htest above x src) (htest below x dest))
    (orM_eq_ok (andM_eq_ok (htest (· != .gt) dest src) (htest above x src))
      (andM_eq_ok (htest below x dest) (htest (· != .gt) dest src)))

end Ring

/-- **Ring intervals are clockwise arcs.** With `d` the distance from the lower end to the
identifier and `D` the length of the arc to the upper end, which is the whole ring where the ends
are equal, the tests of `ID` say where `d` is, and the operators of the language give the same
answers on three identifiers. -/
theorem interval_iff_arc (host : Host) (x src dest : Value.ID) (s : State) :
    let d := (src.distance x).toNat
    let D := if src = dest then 2 ^ 160 else (src.distance dest).toNat
    (x.betweenOO src dest ↔ 0 < d ∧ d < D) ∧
    (x.betweenOC src dest ↔ (0 < d ∧ d ≤ D) ∨ (src = dest ∧ d = 0)) ∧
    (x.betweenCO src dest ↔ d < D) ∧
    (x.betweenCC src dest ↔ d ≤ D) ∧
    Opr.inOO host (some (.id x)) (some (.id src)) (some (.id dest)) s =
      .ok (x.betweenOO src dest) s ∧
    Opr.inOC host (some (.id x)) (some (.id src)) (some (.id dest)) s =
      .ok (x.betweenOC src dest) s ∧
    Opr.inCO host (some (.id x)) (some (.id src)) (some (.id dest)) s =
      .ok (x.betweenCO src dest) s ∧
    Opr.inCC host (some (.id x)) (some (.id src)) (some (.id dest)) s =
      .ok (x.betweenCC src dest) s := by
  refine ⟨x.betweenOO_iff src dest, x.betweenOC_iff src dest, x.betweenCO_iff src dest,
    x.betweenCC_iff src dest, ?_, ?_, ?_, ?_⟩
  · exact (interval_id host x src dest s _ _).trans (by rewrite [← Bool.or_assoc]; rfl)
  · exact (interval_id host x src dest s _ _).trans (by rewrite [← Bool.or_assoc]; rfl)
  · exact (interval_id host x src dest s _ _).trans (by rewrite [← Bool.or_assoc]; rfl)
  · exact (interval_id host x src dest s _ _).trans (by rewrite [← Bool.or_assoc]; rfl)

end P2.Pel
