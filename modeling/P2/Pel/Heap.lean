import P2.Value.Cast
import P2.Value.Compare

/-!
# Values in memory

The expression machine moves `ValuePtr`s, which may be null, and some of its operations change the
tuple, list or vector that a value shares with other values. Here a value of a leaf type is the leaf
itself and a container is known by the place of its body in a heap, so that sharing, null pointers
and values that contain themselves can be told apart.
-/

namespace P2.Pel

open P2.Value List

/-! ## Pointers and bodies -/

abbrev Addr := ℕ

/-- An object of a subclass of `Value`. The containers hold a shared pointer to their body; only that
of a tuple can be null. -/
inductive Obj where
  | null
  | str (s : List UInt8)
  | int64 (i : Int64)
  | double (d : Double)
  | opaqueBuf (b : List UInt8)
  | tuple (t : Option Addr)
  | time (t : TimeRep)
  | id (i : Value.ID)
  | timeDuration (td : TimeRep)
  | set (a : Addr)
  | list (a : Addr)
  | vector (a : Addr)
  | matrix (a : Addr)
  deriving DecidableEq

abbrev Ptr := Option Obj

def Obj.typeCode : Obj → TypeCode
  | .null => .NULLV
  | .str _ => .STR
  | .int64 _ => .INT64
  | .double _ => .DOUBLE
  | .opaqueBuf _ => .OPAQUE
  | .tuple _ => .TUPLE
  | .time _ => .TIME
  | .id _ => .ID
  | .timeDuration _ => .TIME_DURATION
  | .set _ => .SET
  | .list _ => .LIST
  | .vector _ => .VECTOR
  | .matrix _ => .MATRIX

/-- The body of a tuple. -/
structure TupleBody where
  fields : List Ptr
  frozen : Bool

structure MatrixBody where
  size1 : ℕ
  size2 : ℕ
  elements : List Ptr

/-- The bodies of all containers, by kind. The elements of a set are in the order of the `std::set`. -/
structure Heap where
  tuples : List TupleBody
  lists : List (List Ptr)
  sets : List (List Ptr)
  vectors : List (List Ptr)
  matrices : List MatrixBody

namespace Heap

variable (h : Heap)

def tuple (a : Addr) : TupleBody := h.tuples.getD a ⟨[], false⟩

def list (a : Addr) : List Ptr := h.lists.getD a []

def set (a : Addr) : List Ptr := h.sets.getD a []

def vector (a : Addr) : List Ptr := h.vectors.getD a []

def matrix (a : Addr) : MatrixBody := h.matrices.getD a ⟨0, 0, []⟩

def parts : Obj → List Ptr
  | .tuple (some a) => (h.tuple a).fields
  | .set a => h.set a
  | .list a => h.list a
  | .vector a => h.vector a
  | .matrix a => (h.matrix a).elements
  | _ => []

end Heap

/-! ## Failure -/

/-- The C++ exceptions, as far as a handler of the machine tells them apart: `Oper::OperException`,
`Value::TypeError`, `Oper::DivisionByZeroException` and all others. -/
inductive Exception where
  | operException
  | typeError
  | divisionByZero
  | library
  deriving DecidableEq

/-- What ends the process or leaves the behaviour undefined: an index outside the jump table, reading
or popping an empty stack, following a null pointer, a failed `assert`, a trap of integer division, an
empty entry of the operator table, a call stack without room. -/
inductive Fault where
  | jumpTable
  | emptyStack
  | nullPointer
  | assertion
  | arithmetic
  | operTable
  | callStack
  deriving DecidableEq

/-- Why a computation does not return. -/
inductive Trouble where
  | throws (e : Exception)
  | faults (f : Fault)
  deriving DecidableEq

def Trouble.Caught (e : Trouble) : Prop :=
  e = .throws .operException ∨ e = .throws .typeError

def deref {α : Type} : Option α → Except Trouble α
  | some a => .ok a
  | none => .error (.faults .nullPointer)

def orThrow {α : Type} : Option α → Except Trouble α
  | some a => .ok a
  | none => .error (.throws .library)

/-! ## Libraries -/

/-- The functions of the planner and of the security code that operations call. -/
inductive Helper where
  | getMask | applyMask | toVar | uniqueSchema | isTheta | variables | castassign | adornment
  | project | sortAttr | prefixOf | equivalent | merge | assignSchema | position | location | flatten
  | groupby | aggregation | subset | filter | joinSelectivity
  | processGen | processExtract | generateVersion | generateLocSpec | isLocSpec | getCert | loadFile
  | isSaysHint | generate | verify
  deriving DecidableEq

/-- What the machine takes from outside of its own code: the arithmetic of doubles, the conversions of
the C library and of `boost::posix_time`, regular expressions, SHA-1, random numbers, the catalog of
the plumber and the helpers of the planner. A conversion is `none` where the library throws. -/
structure Host where
  /-- How many nested calls the call stack has room for, after the first one. -/
  callDepth : ℕ
  maxSize : ℕ
  ofInt64 : Int64 → Double
  strtod : List UInt8 → Double
  showDouble : Double → List UInt8
  add : Double → Double → Double
  sub : Double → Double → Double
  mul : Double → Double → Double
  div : Double → Double → Double
  neg : Double → Double
  floor : Double → Double
  ceil : Double → Double
  exp : Double → Double
  log : Double → Double
  showTime : TimeRep → Option (List UInt8)
  showDuration : TimeRep → Option (List UInt8)
  timeOfInt64 : Int64 → Option TimeRep
  timeOfDouble : Double → Option TimeRep
  timeOfString : List UInt8 → Option TimeRep
  durationOfInt64 : Int64 → TimeRep
  durationOfDouble : Double → TimeRep
  durationOfParts : Int64 → Int64 → TimeRep
  timeMinusTime : TimeRep → TimeRep → TimeRep
  timeMinusDuration : TimeRep → TimeRep → TimeRep
  durationPlus : TimeRep → TimeRep → TimeRep
  durationMinus : TimeRep → TimeRep → TimeRep
  durationNeg : TimeRep → TimeRep
  sha1 : List UInt8 → Value.ID
  regexMatch : List UInt8 → List UInt8 → Option Bool
  /-- The n-th answers of `random`, of `random` as a fraction, of `drand48`, of the clock and of
  `Catalog::uniqueIdentifier`. -/
  random : ℕ → Int64
  randomFraction : ℕ → Double
  drand48 : ℕ → Double
  now : ℕ → TimeRep
  uniqueIdentifier : ℕ → Int64
  nodeid : Obj
  helper : Helper → List Ptr → Heap → Except Trouble (Ptr × Heap)
  joinKeys : Heap → Addr → Addr → Except Trouble (List ℕ)
  exprString : Heap → Option Addr → Except Trouble (List UInt8)

def Host.room (host : Host) : ℕ := host.callDepth + 1

/-! ## Strings -/

def hexDigit (n : ℕ) : UInt8 := UInt8.ofNat (if n < 10 then 48 + n else 87 + n)

/-- The lower-case hexadecimal digits of a number, padded to a width. -/
def hex : ℕ → ℕ → List UInt8
  | 0, _ => []
  | width + 1, n => hex width (n / 16) ++ [hexDigit (n % 16)]

def decimal (i : Int64) : List UInt8 :=
  (if i < 0 then [45] else []) ++
    (Nat.toDigits 10 i.toInt.natAbs).map fun c => UInt8.ofNat c.toNat

def nullText : List UInt8 := [78, 85, 76, 76]

def emptyTupleText : List UInt8 := [69, 77, 80, 84, 89, 95, 84, 85, 80, 76, 69]

def commaSeparated (texts : List (List UInt8)) : List UInt8 := [44, 32].intercalate texts

def idText (i : Value.ID) : List UInt8 :=
  [48, 120] ++ (i.words.flatMap fun w => hex 8 w.toNat) ++ [73]

def rows (width : ℕ) : ℕ → List (List UInt8) → List (List (List UInt8))
  | 0, _ => []
  | n + 1, texts => texts.take width :: rows width n (texts.drop width)

def textOf (host : Host) (h : Heap) (o : Obj) (texts : List (List UInt8)) :
    Except Trouble (List UInt8) :=
  match o with
  | .null => .ok nullText
  | .str s => .ok s
  | .int64 i => .ok (decimal i)
  | .double d => .ok (host.showDouble d)
  | .opaqueBuf b => .ok ([48, 120] ++ b.flatMap fun c => hex 2 c.toNat)
  | .tuple none => .error (.faults .nullPointer)
  | .tuple (some _) =>
    match texts with
    | [] => .ok emptyTupleText
    | first :: rest => .ok (first ++ [40] ++ commaSeparated rest ++ [41])
  | .time t => do .ok ([91] ++ (← orThrow (host.showTime t)) ++ [93])
  | .id i => .ok (idText i)
  | .timeDuration td => do .ok ([91] ++ (← orThrow (host.showDuration td)) ++ [93])
  | .set _ => .ok ([123] ++ commaSeparated texts ++ [125])
  | .list _ => .ok ([40] ++ commaSeparated texts ++ [41])
  | .vector _ => .ok ([91] ++ commaSeparated texts ++ [93])
  | .matrix a =>
    let lines := (rows (h.matrix a).size2 (h.matrix a).size1 texts).map fun row =>
      [91] ++ commaSeparated row ++ [93]
    .ok ([91] ++ commaSeparated lines ++ [93])

def toString (host : Host) (h : Heap) : ℕ → Ptr → Except Trouble (List UInt8)
  | 0, _ => .error (.faults .callStack)
  | _ + 1, none => .error (.faults .nullPointer)
  | n + 1, some o => do
    let texts ← (h.parts o).mapM fun p => toString host h n p
    textOf host h o texts

/-! ## Comparison -/

/-- The loops over the elements of two containers: the first difference decides, and a container
that ends first is less. -/
def compareLoop (cmp : Ptr → Ptr → Except Trouble Ordering) :
    List Ptr → List Ptr → Except Trouble Ordering
  | [], [] => .ok .eq
  | [], _ :: _ => .ok .lt
  | _ :: _, [] => .ok .gt
  | p :: ps, q :: qs => do
    match ← cmp p q with
    | .eq => compareLoop cmp ps qs
    | o => .ok o

/-- A difference in size decides before the elements are looked at. -/
def orElements (o : Ordering) (elements : Except Trouble Ordering) : Except Trouble Ordering :=
  match o with
  | .eq => elements
  | o => .ok o

def compareObj (h : Heap) (mine other : Obj) (elements : Except Trouble Ordering) :
    Except Trouble Ordering :=
  match mine, other with
  | .null, .null => .ok .eq
  | .str s, .str s' => .ok (compare s s')
  | .int64 i, .int64 i' => .ok (ofTests (i < i') (i > i'))
  | .double d, .double d' => .ok (ofTests (d.lt d') (d'.lt d))
  | .opaqueBuf b, .opaqueBuf b' => .ok ((compare b.length b'.length).then (compare b b'))
  | .tuple none, .tuple _ => .ok .gt
  | .tuple (some _), .tuple none => .error (.faults .nullPointer)
  | .tuple (some a), .tuple (some b) =>
    orElements (compare (h.tuple a).fields.length (h.tuple b).fields.length) elements
  | .time t, .time t' => .ok (ofTests (t.lt t') (t'.lt t))
  | .id i, .id i' => .ok (compare i.words i'.words)
  | .timeDuration td, .timeDuration td' => .ok (ofTests (td.lt td') (td'.lt td))
  | .set _, .set _ => elements
  | .list _, .list _ => elements
  | .vector a, .vector b => orElements (compare (h.vector a).length (h.vector b).length) elements
  | .matrix a, .matrix b =>
    orElements ((compare (h.matrix a).size1 (h.matrix b).size1).then
      (compare (h.matrix a).size2 (h.matrix b).size2)) elements
  | mine, other => .ok (typeTest mine.typeCode other.typeCode)

/-- `Value::compareTo`, by the sign of its result, with room for a number of nested calls. -/
def compareTo (h : Heap) : ℕ → Ptr → Ptr → Except Trouble Ordering
  | 0, _, _ => .error (.faults .callStack)
  | _ + 1, none, _ => .error (.faults .nullPointer)
  | _ + 1, some _, none => .error (.faults .nullPointer)
  | n + 1, some mine, some other =>
    compareObj h mine other
      (compareLoop (fun p q => compareTo h n p q) (h.parts mine) (h.parts other))

/-! ## Casts -/

def castInt64 : Ptr → Except Trouble Int64
  | none => .error (.faults .nullPointer)
  | some (.int64 i) => .ok i
  | some (.double d) => .ok (d.toInt64.getD Int64.minValue)
  | some .null => .ok 0
  | some (.str s) => .ok (strtoll s)
  | some _ => .error (.throws .typeError)

def castDouble (host : Host) : Ptr → Except Trouble Double
  | none => .error (.faults .nullPointer)
  | some (.double d) => .ok d
  | some (.int64 i) => .ok (host.ofInt64 i)
  | some .null => .ok (host.ofInt64 0)
  | some (.str s) => .ok (host.strtod s)
  | some _ => .error (.throws .typeError)

def castStr (host : Host) (h : Heap) (p : Ptr) : Except Trouble (List UInt8) :=
  toString host h host.room p

def castOpaque : Ptr → Except Trouble (List UInt8)
  | none => .error (.faults .nullPointer)
  | some (.opaqueBuf b) => .ok b
  | some (.str s) => .ok s
  | some _ => .error (.throws .typeError)

/-- `Val_Tuple::cast`: the null value gives a null pointer. -/
def castTuple : Ptr → Except Trouble (Option Addr)
  | none => .error (.faults .nullPointer)
  | some (.tuple t) => .ok t
  | some .null => .ok none
  | some _ => .error (.throws .typeError)

def castVector : Ptr → Except Trouble Addr
  | none => .error (.faults .nullPointer)
  | some (.vector a) => .ok a
  | some _ => .error (.throws .typeError)

def castMatrix : Ptr → Except Trouble Addr
  | none => .error (.faults .nullPointer)
  | some (.matrix a) => .ok a
  | some _ => .error (.throws .typeError)

def castTime (host : Host) : Ptr → Except Trouble TimeRep
  | none => .error (.faults .nullPointer)
  | some (.time t) => .ok t
  | some .null => .ok .notADateTime
  | some (.int64 i) => orThrow (host.timeOfInt64 i)
  | some (.double d) => orThrow (host.timeOfDouble d)
  | some (.str s) => orThrow (host.timeOfString s)
  | some _ => .error (.throws .typeError)

/-- `Val_Time_Duration::cast`: a tuple of two or more fields is read as seconds and nanoseconds. -/
def castDuration (host : Host) (h : Heap) : Ptr → Except Trouble TimeRep
  | none => .error (.faults .nullPointer)
  | some (.timeDuration td) => .ok td
  | some (.int64 i) => .ok (host.durationOfInt64 i)
  | some (.double d) => .ok (host.durationOfDouble d)
  | some .null => .ok (.ticks 0)
  | some (.tuple t) => do
    match (h.tuple (← deref t)).fields with
    | secs :: nsecs :: _ => do .ok (host.durationOfParts (← castInt64 secs) (← castInt64 nsecs))
    | _ => .ok (.ticks 0)
  | some _ => .error (.throws .typeError)

def hexNumber : List UInt8 → ℕ → ℕ × List UInt8
  | [], n => (n, [])
  | c :: cs, n =>
    match digitOf c with
    | some d => if d < 16 then hexNumber cs (n * 16 + d) else (n, c :: cs)
    | none => (n, c :: cs)

/-- `strtoull(s, &end, 16)` on fewer than seventeen characters: the number and the text from `end` on,
which is all of `s` where there is no number. -/
def strtoull16 (s : List UInt8) : ℕ × List UInt8 :=
  let isHex : Option UInt8 → Bool := fun c => (c.bind digitOf).any (· < 16)
  let signed : Bool × List UInt8 :=
    match s.dropWhile fun c => c == 32 || (9 ≤ c && c ≤ 13) with
    | 45 :: r => (true, r)
    | 43 :: r => (false, r)
    | r => (false, r)
  let number := match signed.2 with
    | 48 :: x :: r => if (x == 120 || x == 88) && isHex r.head? then r else 48 :: x :: r
    | r => r
  if isHex number.head? then
    let read := hexNumber number 0
    (if signed.1 then 2 ^ 64 - read.1 else read.1, read.2)
  else (0, s)

/-- One word of an identifier from at most eight characters, and whether they all were read at once:
otherwise the reading starts anew behind the character it stopped at. -/
def hexWord : ℕ → List UInt8 → UInt32 × Bool
  | 0, _ => (0, true)
  | n + 1, cs =>
    match strtoull16 cs with
    | (w, []) => (UInt32.ofNat w, true)
    | (_, _ :: rest) => ((hexWord n rest).1, false)

/-- The words of an identifier from the last one on: after a word that did not read well the rest is
zero. -/
def hexWords : ℕ → List UInt8 → List UInt32
  | 0, _ => []
  | n + 1, cs =>
    -- a zero byte ends the text that `strtoull` sees
    let word := hexWord 9 ((cs.drop (8 * n)).takeWhile (· != 0))
    (if word.2 then hexWords n (cs.take (8 * n)) else replicate n 0) ++ [word.1]

lemma length_hexWords (n : ℕ) (cs : List UInt8) : (hexWords n cs).length = n := by
  induction n generalizing cs with
  | zero => rfl
  | succ n ih =>
    unfold hexWords
    rw [length_append, length_singleton]
    split_ifs
    · rw [ih]
    · rw [length_replicate]

/-- An identifier from a text: its last forty characters, padded with zeros. The length is kept in
an `unsigned`, so that a text of `2 ^ 32` or more characters is taken for a shorter one. -/
def idOfString (s : List UInt8) : Value.ID where
  words :=
    let position := s.length % 2 ^ 32
    let hexString :=
      if WORDS * 8 < position then s.drop (position - WORDS * 8)
      else replicate (WORDS * 8 - position) 48 ++ s
    hexWords WORDS (hexString.take (WORDS * 8))
  length_words := length_hexWords _ _

def idOfWord (w : UInt32) : Value.ID := ⟨[0, 0, 0, 0, w], rfl⟩

def castID : Ptr → Except Trouble Value.ID
  | none => .error (.faults .nullPointer)
  | some (.id i) => .ok i
  | some (.int64 i) =>
    if i < 0 then .error (.throws .typeError) else .ok (idOfWord i.toUInt64.toUInt32)
  | some (.double d) =>
    .ok (idOfWord (d.toInt64.getD Int64.minValue).toUInt64.toUInt32)
  | some (.str s) => .ok (idOfString s)
  | some _ => .error (.throws .typeError)

/-! ## Sound values -/

def valid (p : Ptr) : Bool := p.isSome && p != some (.tuple none)

/-- A value whose nesting the call stack has room for, without null pointers inside, and with all
objects of which a test holds. -/
def nested (test : Obj → Bool) (h : Heap) : ℕ → Ptr → Bool
  | 0, _ => false
  | _ + 1, none => false
  | n + 1, some o => valid (some o) && test o && (h.parts o).all fun p => nested test h n p

def showable (host : Host) : Obj → Bool
  | .time t => (host.showTime t).isSome
  | .timeDuration td => (host.showDuration td).isSome
  | _ => true

def readable (host : Host) : Ptr → Bool
  | none => false
  | some (.int64 i) => (host.timeOfInt64 i).isSome
  | some (.double d) => (host.timeOfDouble d).isSome
  | some (.str s) => (host.timeOfString s).isSome
  | some _ => true

def sound (host : Host) (h : Heap) (p : Ptr) : Bool := nested (showable host) h host.room p

def whole (host : Host) (h : Heap) (p : Ptr) : Bool := nested (fun _ => true) h host.room p

section Sound

variable {host : Host} {h : Heap} {n : ℕ} {p q : Ptr} {test test' : Obj → Bool}

lemma nested_succ {o : Obj} : nested test h (n + 1) (some o) ↔
    valid (some o) ∧ test o ∧ ∀ p ∈ h.parts o, nested test h n p := by
  rw [nested]
  simp [and_assoc]

lemma valid_of_nested (hp : nested test h n p) : valid p := by
  cases n with
  | zero => cases hp
  | succ n =>
    cases p with
    | none => cases hp
    | some o => exact (nested_succ.mp hp).1

lemma exists_of_valid (hp : valid p) : ∃ o, p = some o := by
  cases p with
  | none => cases hp
  | some o => exact ⟨o, rfl⟩

lemma nested_congr {h' : Heap} (hparts : h'.parts = h.parts) : nested test h' = nested test h := by
  funext n
  induction n with
  | zero => rfl
  | succ n ih =>
    funext p
    cases p with
    | none => rfl
    | some o =>
      unfold nested
      rw [ih, hparts]

lemma sound_congr {h' : Heap} (hparts : h'.parts = h.parts) : sound host h' p = sound host h p := by
  unfold sound
  rw [nested_congr hparts]

lemma nested_leaf {o : Obj} (hn : n ≠ 0) (hvalid : valid (some o)) (htest : test o)
    (hparts : h.parts o = []) : nested test h n (some o) := by
  obtain ⟨n, rfl⟩ := Nat.exists_eq_succ_of_ne_zero hn
  refine nested_succ.mpr ⟨hvalid, htest, ?_⟩
  rw [hparts]
  exact forall_mem_nil _

lemma ne_zero_of_nested (hp : nested test h n p) : n ≠ 0 := by
  rintro rfl
  cases hp

lemma nested_true (hp : nested test h n p) : nested (fun _ => true) h n p := by
  induction n generalizing p with
  | zero => cases hp
  | succ n ih =>
    obtain ⟨o, rfl⟩ := exists_of_valid (valid_of_nested hp)
    obtain ⟨hvalid, -, hparts⟩ := nested_succ.mp hp
    exact nested_succ.mpr ⟨hvalid, rfl, fun p hp => ih (hparts p hp)⟩

lemma nested_le {m : ℕ} (hmn : m ≤ n) (hp : nested test h m p) : nested test h n p := by
  induction m generalizing n p with
  | zero => cases hp
  | succ m ih =>
    obtain ⟨n, rfl⟩ := Nat.exists_eq_add_of_lt hmn
    obtain ⟨o, rfl⟩ := exists_of_valid (valid_of_nested hp)
    obtain ⟨hvalid, htest, hparts⟩ := nested_succ.mp hp
    exact nested_succ.mpr ⟨hvalid, htest, fun p hp => ih (by omega) (hparts p hp)⟩

lemma whole_of_sound (hp : sound host h p) : whole host h p := nested_true hp

lemma whole_congr {h' : Heap} (hparts : h'.parts = h.parts) : whole host h' p = whole host h p := by
  unfold whole
  rw [nested_congr hparts]

lemma whole_leaf {o : Obj} (hvalid : valid (some o)) (hparts : h.parts o = []) :
    whole host h (some o) :=
  nested_leaf (Nat.succ_ne_zero _) hvalid rfl hparts

lemma nested_parts {o : Obj} (hp : nested test h host.room (some o)) :
    ∀ q ∈ h.parts o, nested test h host.room q :=
  fun q hq => nested_le (Nat.le_succ _) ((nested_succ.mp hp).2.2 q hq)

lemma exists_of_bind_ok {α β : Type} {x : Except Trouble α} {f : α → Except Trouble β} {b : β}
    (h : x >>= f = .ok b) : ∃ a, x = .ok a ∧ f a = .ok b := by
  cases x with
  | ok a => exact ⟨a, rfl, h⟩
  | error e => cases h

lemma exists_mapM_iff {α β : Type} {f : α → Except Trouble β} {l : List α} :
    (∃ bs, l.mapM f = .ok bs) ↔ ∀ a ∈ l, ∃ b, f a = .ok b := by
  induction l with
  | nil => exact iff_of_true ⟨[], rfl⟩ (forall_mem_nil _)
  | cons a l ih =>
    rw [forall_mem_cons, ← ih, mapM_cons]
    constructor
    · rintro ⟨bs, hbs⟩
      obtain ⟨b, hb, hbs⟩ := exists_of_bind_ok hbs
      obtain ⟨bs', hl, -⟩ := exists_of_bind_ok hbs
      exact ⟨⟨b, hb⟩, bs', hl⟩
    · rintro ⟨⟨b, hb⟩, bs, hbs⟩
      rw [hb]
      exact ⟨b :: bs, by rw [hbs]; rfl⟩

lemma exists_textOf {o : Obj} (hvalid : valid (some o)) (hshow : showable host o)
    (texts : List (List UInt8)) : ∃ text, textOf host h o texts = .ok text := by
  cases o with
  | null | str | int64 | double | opaqueBuf | id | set | list | vector | matrix => exact ⟨_, rfl⟩
  | tuple t =>
    cases t with
    | none => cases hvalid
    | some a => cases texts <;> exact ⟨_, rfl⟩
  | time t | timeDuration t =>
    obtain ⟨text, htext⟩ := Option.isSome_iff_exists.mp hshow
    simp only [textOf, htext]
    exact ⟨_, rfl⟩

/-- **The text of a value.** `toString` returns on a value that can be written. -/
theorem toString_of_nested (hp : nested (showable host) h n p) :
    ∃ text, toString host h n p = .ok text := by
  induction n generalizing p with
  | zero => cases hp
  | succ n ih =>
    obtain ⟨o, rfl⟩ := exists_of_valid (valid_of_nested hp)
    obtain ⟨hvalid, hshow, hparts⟩ := nested_succ.mp hp
    obtain ⟨texts, htexts⟩ := exists_mapM_iff.mpr fun p hp => ih (hparts p hp)
    unfold toString
    rw [htexts]
    exact exists_textOf hvalid hshow texts

lemma exists_compareLoop {cmp : Ptr → Ptr → Except Trouble Ordering} {ps qs : List Ptr}
    (hcmp : ∀ p ∈ ps, ∀ q ∈ qs, ∃ o, cmp p q = .ok o) : ∃ o, compareLoop cmp ps qs = .ok o := by
  induction ps generalizing qs with
  | nil => cases qs <;> exact ⟨_, rfl⟩
  | cons p ps ih =>
    cases qs with
    | nil => exact ⟨_, rfl⟩
    | cons q qs =>
      obtain ⟨o, ho⟩ := hcmp p mem_cons_self q mem_cons_self
      unfold compareLoop
      rw [ho]
      cases o with
      | lt | gt => exact ⟨_, rfl⟩
      | eq =>
        exact ih fun p' hp' q' hq' =>
          hcmp p' (mem_cons_of_mem p hp') q' (mem_cons_of_mem q hq')

lemma exists_orElements {o : Ordering} {x : Except Trouble Ordering} (hx : ∃ o', x = .ok o') :
    ∃ o', orElements o x = .ok o' := by
  cases o with
  | eq => exact hx
  | lt | gt => exact ⟨_, rfl⟩

lemma exists_compareObj {mine other : Obj} {elements : Except Trouble Ordering}
    (hother : valid (some other)) (helements : ∃ o, elements = .ok o) :
    ∃ o, compareObj h mine other elements = .ok o := by
  unfold compareObj
  split
  case h_7 => cases hother
  case h_8 | h_14 | h_15 => exact exists_orElements helements
  case h_12 | h_13 => exact helements
  all_goals exact ⟨_, rfl⟩

/-- **Comparing values.** `compareTo` returns on values without null pointers. -/
theorem compareTo_of_nested (hp : nested test h n p) (hq : nested test' h n q) :
    ∃ o, compareTo h n p q = .ok o := by
  induction n generalizing p q with
  | zero => cases hp
  | succ n ih =>
    obtain ⟨mine, rfl⟩ := exists_of_valid (valid_of_nested hp)
    obtain ⟨other, rfl⟩ := exists_of_valid (valid_of_nested hq)
    refine exists_compareObj (valid_of_nested hq) (exists_compareLoop fun p' hp' q' hq' => ?_)
    exact ih ((nested_succ.mp hp).2.2 p' hp') ((nested_succ.mp hq).2.2 q' hq')

end Sound

/-! ## Computations that end well -/

/-- A computation that returns, or throws an exception the machine catches. -/
def Fine {α : Type} (x : Except Trouble α) : Prop := ∀ e, x = .error e → e.Caught

section Fine

variable {α β : Type} {host : Host} {h : Heap} {p : Ptr}

lemma fine_ok (a : α) : Fine (.ok a) := by
  intro e he
  cases he

lemma fine_error {e : Trouble} (he : e.Caught) : Fine (.error e : Except Trouble α) :=
  fun _ heq => Except.error.inj heq ▸ he

lemma typeError_caught : (Trouble.throws .typeError).Caught := Or.inr rfl

lemma fine_typeError : Fine (.error (.throws .typeError) : Except Trouble α) :=
  fine_error typeError_caught

lemma fine_of_exists {x : Except Trouble α} (hx : ∃ a, x = .ok a) : Fine x := by
  obtain ⟨a, rfl⟩ := hx
  exact fine_ok a

lemma Fine.bind {x : Except Trouble α} {f : α → Except Trouble β} (hx : Fine x)
    (hf : ∀ a, x = .ok a → Fine (f a)) : Fine (x >>= f) := by
  cases x with
  | ok a => exact hf a rfl
  | error e => exact fine_error (hx e rfl)

lemma Fine.map {x : Except Trouble α} {f : α → β} (hx : Fine x) : Fine (f <$> x) := by
  cases x with
  | ok a => exact fine_ok (f a)
  | error e => exact fine_error (hx e rfl)

lemma Fine.mapM {f : α → Except Trouble β} {l : List α} (hf : ∀ a ∈ l, Fine (f a)) :
    Fine (l.mapM f) := by
  induction l with
  | nil => exact fine_ok []
  | cons a l ih =>
    rw [mapM_cons]
    refine (hf a mem_cons_self).bind fun b _ => ?_
    exact (ih fun a' ha' => hf a' (mem_cons_of_mem a ha')).bind fun bs _ => fine_ok _

lemma forall_of_mapM {f : α → Except Trouble β} {P : β → Prop} {l : List α} {bs : List β}
    (hf : ∀ a ∈ l, ∀ b, f a = .ok b → P b) (hbs : l.mapM f = .ok bs) : ∀ b ∈ bs, P b := by
  induction l generalizing bs with
  | nil =>
    rw [← Except.ok.inj hbs]
    exact forall_mem_nil _
  | cons a l ih =>
    rw [mapM_cons] at hbs
    obtain ⟨b, ha, hbs⟩ := exists_of_bind_ok hbs
    obtain ⟨bs', hl, hbs⟩ := exists_of_bind_ok hbs
    rw [← Except.ok.inj hbs]
    refine forall_mem_cons.mpr ⟨hf a mem_cons_self b ha, ?_⟩
    exact ih (fun a' ha' => hf a' (mem_cons_of_mem a ha')) hl

lemma fine_deref {p : Option α} (hp : p ≠ none) : Fine (deref p) := by
  cases p with
  | none => exact absurd rfl hp
  | some a => exact fine_ok a

lemma ne_none_of_valid (hp : valid p) : p ≠ none := by
  rintro rfl
  cases hp

lemma fine_of_some {f : Ptr → Except Trouble α} (hp : p ≠ none) (hf : ∀ o, Fine (f (some o))) :
    Fine (f p) := by
  cases p with
  | none => exact absurd rfl hp
  | some o => exact hf o

lemma fine_castInt64 (hp : p ≠ none) : Fine (castInt64 p) :=
  fine_of_some hp fun o => by cases o <;> first | exact fine_ok _ | exact fine_typeError

lemma fine_castDouble (hp : p ≠ none) : Fine (castDouble host p) :=
  fine_of_some hp fun o => by cases o <;> first | exact fine_ok _ | exact fine_typeError

lemma fine_castOpaque (hp : p ≠ none) : Fine (castOpaque p) :=
  fine_of_some hp fun o => by cases o <;> first | exact fine_ok _ | exact fine_typeError

lemma fine_castTuple (hp : p ≠ none) : Fine (castTuple p) :=
  fine_of_some hp fun o => by cases o <;> first | exact fine_ok _ | exact fine_typeError

lemma fine_castVector (hp : p ≠ none) : Fine (castVector p) :=
  fine_of_some hp fun o => by cases o <;> first | exact fine_ok _ | exact fine_typeError

lemma fine_castMatrix (hp : p ≠ none) : Fine (castMatrix p) :=
  fine_of_some hp fun o => by cases o <;> first | exact fine_ok _ | exact fine_typeError

lemma fine_castID (hp : p ≠ none) : Fine (castID p) := by
  cases p with
  | none => exact absurd rfl hp
  | some o =>
    cases o with
    | int64 i =>
      simp only [castID]
      split_ifs
      · exact fine_typeError
      · exact fine_ok _
    | id | double | str => exact fine_ok _
    | _ => exact fine_typeError

lemma fine_orThrow {x : Option α} (hx : x.isSome) : Fine (orThrow x) := by
  obtain ⟨a, rfl⟩ := Option.isSome_iff_exists.mp hx
  exact fine_ok a

lemma fine_castTime (hp : readable host p) : Fine (castTime host p) := by
  cases p with
  | none => cases hp
  | some o =>
    cases o with
    | time | null => exact fine_ok _
    | int64 | double | str => exact fine_orThrow hp
    | _ => exact fine_typeError

lemma fine_castDuration {test : Obj → Bool} {n : ℕ} (hp : nested test h n p) :
    Fine (castDuration host h p) := by
  obtain ⟨n, rfl⟩ := Nat.exists_eq_succ_of_ne_zero (ne_zero_of_nested hp)
  obtain ⟨o, rfl⟩ := exists_of_valid (valid_of_nested hp)
  cases o with
  | tuple t =>
    cases t with
    | none => exact absurd (valid_of_nested hp) (by decide)
    | some a =>
      have hfields : ∀ q ∈ (h.tuple a).fields, q ≠ none := fun q hq =>
        ne_none_of_valid (valid_of_nested ((nested_succ.mp hp).2.2 q hq))
      show Fine (match (h.tuple a).fields with
        | secs :: nsecs :: _ => do
          .ok (host.durationOfParts (← castInt64 secs) (← castInt64 nsecs))
        | _ => .ok (.ticks 0))
      rcases hlist : (h.tuple a).fields with _ | ⟨secs, _ | ⟨nsecs, rest⟩⟩
      · exact fine_ok _
      · exact fine_ok _
      · rw [hlist] at hfields
        refine (fine_castInt64 (hfields secs mem_cons_self)).bind fun i _ => ?_
        refine (fine_castInt64 (hfields nsecs
          (mem_cons_of_mem secs mem_cons_self))).bind fun j _ => ?_
        exact fine_ok _
  | timeDuration | int64 | double | null => exact fine_ok _
  | _ => exact fine_typeError

lemma fine_castStr (hp : sound host h p) : Fine (castStr host h p) :=
  fine_of_exists (toString_of_nested hp)

end Fine

def sampleHost : Host where
  callDepth := 8
  maxSize := 100
  ofInt64 _ := ⟨0⟩
  strtod _ := ⟨0⟩
  showDouble _ := []
  add _ _ := ⟨0⟩
  sub _ _ := ⟨0⟩
  mul _ _ := ⟨0⟩
  div _ _ := ⟨0⟩
  neg _ := ⟨0⟩
  floor _ := ⟨0⟩
  ceil _ := ⟨0⟩
  exp _ := ⟨0⟩
  log _ := ⟨0⟩
  showTime _ := none
  showDuration _ := none
  timeOfInt64 _ := none
  timeOfDouble _ := none
  timeOfString _ := none
  durationOfInt64 _ := .ticks 0
  durationOfDouble _ := .ticks 0
  durationOfParts _ _ := .ticks 0
  timeMinusTime _ _ := .ticks 0
  timeMinusDuration _ _ := .ticks 0
  durationPlus _ _ := .ticks 0
  durationMinus _ _ := .ticks 0
  durationNeg _ := .ticks 0
  sha1 _ := idOfWord 0
  regexMatch _ _ := none
  random _ := 0
  randomFraction _ := ⟨0⟩
  drand48 _ := ⟨0⟩
  now _ := .ticks 0
  uniqueIdentifier _ := 0
  nodeid := .null
  helper _ _ _ := .error (.throws .typeError)
  joinKeys _ _ _ := .error (.throws .typeError)
  exprString _ _ := .error (.throws .typeError)

end P2.Pel
