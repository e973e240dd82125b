import P2.Value.ID

/-!
# Values and tuples

The concrete values of `p2core/val_*.h`, nested to any depth, and the tuples built from them.

A null `TuplePtr` in a `Val_Tuple` and null pointers as elements of a container are not modelled:
no constructor of the source makes them.
-/

namespace P2.Value

/-- The type codes of values, in the order of the enumeration. The source calls the first one
`NULLV`. -/
inductive TypeCode where
  | NULLV | STR | INT64 | DOUBLE | OPAQUE | TUPLE | TIME | ID | TIME_DURATION
  | SET | LIST | VECTOR | MATRIX
  deriving DecidableEq

def TypeCode.code : TypeCode → ℕ
  | .NULLV => 0
  | .STR => 1
  | .INT64 => 2
  | .DOUBLE => 3
  | .OPAQUE => 4
  | .TUPLE => 5
  | .TIME => 6
  | .ID => 7
  | .TIME_DURATION => 8
  | .SET => 9
  | .LIST => 10
  | .VECTOR => 11
  | .MATRIX => 12

/-! ## Doubles -/

structure Double where
  bits : UInt64
  deriving DecidableEq

namespace Double

def magnitude (d : Double) : ℕ := d.bits.toNat % 2 ^ 63

def isNaN (d : Double) : Bool := 0x7ff0000000000000 < d.magnitude

/-- The place of a number that is not a NaN among its kind: the magnitude with the sign. Both
zeros get `0`. -/
def place (d : Double) : ℤ := if d.bits.toNat < 2 ^ 63 then d.magnitude else -d.magnitude

/-- The C++ operator `<` on doubles: false as soon as one side is a NaN. -/
def lt (d e : Double) : Bool := !d.isNaN && !e.isNaN && decide (d.place < e.place)

end Double

/-! ## Times -/

/-- A point in time or a duration of `boost::posix_time`: a number of ticks or one of the special
values. Both types of the library compare in the same way. -/
inductive TimeRep where
  | notADateTime
  | negInfin
  | ticks (count : ℤ)
  | posInfin
  deriving DecidableEq

namespace TimeRep

def place : TimeRep → List ℤ
  | notADateTime => [3]
  | negInfin => [0]
  | ticks n => [1, n]
  | posInfin => [2]

/-- The operator `<` of the library: false as soon as one side is `not_a_date_time`. -/
def lt : TimeRep → TimeRep → Bool
  | notADateTime, _ => false
  | _, notADateTime => false
  | negInfin, negInfin => false
  | negInfin, _ => true
  | ticks m, ticks n => decide (m < n)
  | ticks _, posInfin => true
  | ticks _, negInfin => false
  | posInfin, _ => false

end TimeRep

end P2.Value

namespace P2

open P2.Value

/-- A value of one of the thirteen concrete types. The elements of a set are those of the
`std::set` in iteration order; the elements of a matrix are in row-major order. -/
inductive Value where
  | null
  | str (s : List UInt8)
  | int64 (i : Int64)
  | double (d : Double)
  | opaqueBuf (b : List UInt8)
  | tuple (frozen : Bool) (fields : List Value)
  | time (t : TimeRep)
  | id (i : Value.ID)
  | timeDuration (td : TimeRep)
  | set (elements : List Value)
  | list (elements : List Value)
  | vector (elements : List Value)
  | matrix (size1 size2 : ℕ) (elements : List Value)

namespace Value

def typeCode : Value → TypeCode
  | .null => .NULLV
  | .str _ => .STR
  | .int64 _ => .INT64
  | .double _ => .DOUBLE
  | .opaqueBuf _ => .OPAQUE
  | .tuple _ _ => .TUPLE
  | .time _ => .TIME
  | .id _ => .ID
  | .timeDuration _ => .TIME_DURATION
  | .set _ => .SET
  | .list _ => .LIST
  | .vector _ => .VECTOR
  | .matrix _ _ _ => .MATRIX

/-! ## Nesting -/

def parts : Value → List Value
  | .tuple _ L | .set L | .list L | .vector L | .matrix _ _ L => L
  | _ => []

/-- **Induction over nested values.** A property of values that follows from a property of their
parts holds of all values, and the property of sequences holds of all sequences. -/
theorem parts_induction {P : Value → Prop} {Q : List Value → Prop}
    (value : ∀ a, Q a.parts → P a) (nil : Q []) (cons : ∀ a as, P a → Q as → Q (a :: as)) :
    (∀ a, P a) ∧ ∀ as, Q as := by
  have h : ∀ a, P a := fun a =>
    @Value.rec P Q (value .null nil) (fun s => value (.str s) nil)
      (fun i => value (.int64 i) nil) (fun d => value (.double d) nil)
      (fun b => value (.opaqueBuf b) nil) (fun f L hL => value (.tuple f L) hL)
      (fun t => value (.time t) nil) (fun i => value (.id i) nil)
      (fun td => value (.timeDuration td) nil) (fun L hL => value (.set L) hL)
      (fun L hL => value (.list L) hL) (fun L hL => value (.vector L) hL)
      (fun m n L hL => value (.matrix m n L) hL) nil cons a
  exact ⟨h, fun as => List.rec nil (fun a as ih => cons a as (h a) ih) as⟩

/-- Induction over nested values, from the parts to the whole. -/
theorem induction_on_parts {P : Value → Prop} (value : ∀ a, (∀ b ∈ a.parts, P b) → P a)
    (a : Value) : P a :=
  (parts_induction (Q := fun as => ∀ b ∈ as, P b) value (List.forall_mem_nil _)
    fun _ _ ha has => List.forall_mem_cons.mpr ⟨ha, has⟩).1 a

mutual

def everywhere (p : Value → Bool) : Value → Bool
  | .tuple f L => p (.tuple f L) && everywheres p L
  | .set L => p (.set L) && everywheres p L
  | .list L => p (.list L) && everywheres p L
  | .vector L => p (.vector L) && everywheres p L
  | .matrix m n L => p (.matrix m n L) && everywheres p L
  | .null => p .null
  | .str s => p (.str s)
  | .int64 i => p (.int64 i)
  | .double d => p (.double d)
  | .opaqueBuf b => p (.opaqueBuf b)
  | .time t => p (.time t)
  | .id i => p (.id i)
  | .timeDuration td => p (.timeDuration td)

def everywheres (p : Value → Bool) : List Value → Bool
  | [] => true
  | a :: as => everywhere p a && everywheres p as

end

lemma everywheres_iff {p : Value → Bool} {as : List Value} :
    everywheres p as ↔ ∀ a ∈ as, everywhere p a := by
  induction as with
  | nil => simp [everywheres]
  | cons a as ih => rw [everywheres, Bool.and_eq_true, ih, List.forall_mem_cons]

lemma everywhere_iff {p : Value → Bool} {a : Value} :
    everywhere p a ↔ p a ∧ ∀ b ∈ a.parts, everywhere p b := by
  rw [← everywheres_iff]
  cases a <;> simp [everywhere, parts, everywheres]

end Value

/-- A tuple: an identifier of its own, its fields, and whether it is frozen. -/
structure Tuple where
  ID : ℕ
  fields : List Value
  frozen : Bool := true

end P2
