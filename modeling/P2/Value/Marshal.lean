import Mathlib.Data.List.TakeWhile
import P2.Value.Compare
import P2.Lib.Runs
import P2.Lib.SearchTree
import P2.Lib.Xdr

/-!
# The wire format

`Value::xdr_marshal` and `Value::xdr_unmarshal` with their thirteen subtypes, over the primitive
routines of `P2.Lib.Xdr`: `xdr_round_trip`.
-/

namespace P2

open P2.Value P2.Lib P2.Lib.Xdr List UInt32

namespace Value

/-! ## Encoding -/

def cString (s : List UInt8) : List UInt8 := s.takeWhile (· != 0)

/-- `Val_Str::xdr_marshal_subtype`: the length as an `int32_t`, then `xdr_string` with the bound `sl
+ 1`, which sees a C string and keeps its length in an `unsigned`. -/
def putStr (s : List UInt8) : List UInt8 :=
  let sl := UInt32.ofNat s.length
  let size := UInt32.ofNat (cString s).length
  putWord sl ++ (putWord size ++
    if size ≤ sl + 1 then putBytes ((cString s).take size.toNat) else [])

/-- The tick count behind a time or a duration, one tick a microsecond; the special values are the
extreme counts. -/
def ticksOf : TimeRep → ℤ
  | .notADateTime => 2 ^ 63 - 2
  | .negInfin => -2 ^ 63
  | .ticks n => n
  | .posInfin => 2 ^ 63 - 1

/-- The low 32 bits of an integer, as a conversion to `uint32_t` keeps them. -/
def toWord (n : ℤ) : UInt32 := UInt32.ofNat (n % 2 ^ 32).toNat

/-- Hours, minutes, seconds and nanoseconds of a duration, each as a `uint32_t`. -/
def putTime (d : ℤ) : List UInt8 :=
  putWord (toWord (d.tdiv 3600000000)) ++ (putWord (toWord ((d.tdiv 60000000).tmod 60)) ++
    (putWord (toWord ((d.tdiv 1000000).tmod 60)) ++
      putWord (toWord (d.tmod 1000000 * 1000))))

def putTypeCode (c : TypeCode) : List UInt8 := putWord (UInt32.ofNat c.code)

def putSize (n : ℕ) : List UInt8 := putWord (UInt32.ofNat n)

mutual

/-- The bytes `Value::xdr_marshal` writes: the type code, then the subtype. -/
def wire : Value → List UInt8
  | .null => putTypeCode .NULLV
  | .str s => putTypeCode .STR ++ putStr s
  | .int64 i => putTypeCode .INT64 ++ putHyper i.toUInt64
  | .double d => putTypeCode .DOUBLE ++ putHyper d.bits
  | .opaqueBuf b => putTypeCode .OPAQUE ++ (putSize b.length ++ putBytes b)
  | .tuple _ fields => putTypeCode .TUPLE ++ (putSize fields.length ++ wires fields)
  | .time t => putTypeCode .TIME ++ putTime (ticksOf t)
  | .id i => putTypeCode .ID ++ i.words.flatMap putWord
  | .timeDuration td => putTypeCode .TIME_DURATION ++ putTime (ticksOf td)
  | .set L => putTypeCode .SET ++ (putSize L.length ++ wires L)
  | .list L => putTypeCode .LIST ++ (putSize L.length ++ wires L)
  | .vector V => putTypeCode .VECTOR ++ (putSize V.length ++ wires V)
  | .matrix size1 size2 M =>
    putTypeCode .MATRIX ++ (putSize size1 ++ (putSize size2 ++ wires M))

def wires : List Value → List UInt8
  | [] => []
  | a :: as => wire a ++ wires as

end

def isFrozen : Value → Bool
  | .tuple frozen _ => frozen
  | _ => true

/-- `Value::xdr_marshal`; `none` where an assertion fails. -/
def xdrMarshal (a : Value) : Option (List UInt8) :=
  if a.everywhere isFrozen then some a.wire else none

/-! ## Decoding -/

/-- `Val_Str::xdr_unmarshal`. The short branch reads into a static buffer with the bound `sl + 1`,
the long one into a fresh buffer with the bound `sl`. `none` stands for a string made of bytes that
were never written. -/
def getStr : Reader (List UInt8) := do
  let sl ← getWord
  let n : ℤ := sl.toInt32.toInt
  -- no `string` has a negative length, and `sl + 1` has to be an `int32_t`
  if n < 0 ∨ n + 1 = 2 ^ 31 then failure
  else
    let maxsize : ℤ := if n + 1 ≤ 10000 then n + 1 else n
    let size ← getWord
    if maxsize < size.toNat then
      -- the outcome of `xdr_string` is not looked at, and the buffer is as it was
      if n = 0 then pure [] else failure
    else
      let data ← getBytes size.toNat
      -- the terminating NUL that `xdr_string` adds is the byte at `size`
      if n ≤ size.toNat then pure (data.take n.toNat)
      else if n = size.toNat + 1 then pure (data ++ [0])
      else failure

/-- The tick count of the constructor of `time_duration` from hours, minutes, seconds and
fractional seconds; one negative argument makes the whole duration negative. -/
def toTickCount (hours minutes seconds : Int32) (fs : ℕ) : ℤ :=
  if hours.toInt < 0 ∨ minutes.toInt < 0 ∨ seconds.toInt < 0 then
    -(((|hours.toInt| * 3600 + |minutes.toInt| * 60 + |seconds.toInt|) * 1000000) + fs)
  else (hours.toInt * 3600 + minutes.toInt * 60 + seconds.toInt) * 1000000 + fs

/-- The four words of a duration, with the divisor of the fraction: `Val_Time::xdr_unmarshal` passes
the fraction on as it is, `Val_Time_Duration::xdr_unmarshal` divides it by `PTIME_SECS_FACTOR`. -/
def getTime (divisor : ℕ) : Reader TimeRep := do
  let hours ← getWord
  let mins ← getWord
  let secs ← getWord
  let frac ← getWord
  pure (.ticks (toTickCount hours.toInt32 mins.toInt32 secs.toInt32 (frac.toNat / divisor)))

def getID : Reader Value.ID := do
  let words ← repeated getWord WORDS
  if h : words.length = WORDS then pure ⟨words, h⟩ else failure

def ltSet (a b : Value) : Bool := compareTo a b == .lt

/-- The elements of the set made by inserting values one by one. -/
def insertions (values : List Value) : List Value :=
  (values.foldl (fun t v => t.insertUnique ltSet v) SearchTree.nil).toList

/-- The jump table: the decoder of a type code. An unknown type code is a null. -/
def jumpTab (xdrUnmarshal : Reader Value) : ℕ → Reader Value
  | 0 => pure .null
  | 1 => do
    let s ← getStr
    pure (.str s)
  | 2 => do
    let w ← getHyper
    pure (.int64 w.toInt64)
  | 3 => do
    let w ← getHyper
    pure (.double ⟨w⟩)
  | 4 => do
    let l ← getWord
    let b ← getBytes l.toNat
    pure (.opaqueBuf b)
  | 5 => do
    let sz ← getWord
    let fields ← repeated xdrUnmarshal sz.toNat
    pure (.tuple false fields)
  | 6 => do
    let t ← getTime 1
    pure (.time t)
  | 7 => do
    let i ← getID
    pure (.id i)
  | 8 => do
    let td ← getTime 1000
    pure (.timeDuration td)
  | 9 => do
    let size ← getWord
    let L ← repeated xdrUnmarshal size.toNat
    pure (.set (insertions L))
  | 10 => do
    let size ← getWord
    let L ← repeated xdrUnmarshal size.toNat
    pure (.list L)
  | 11 => do
    let sz ← getWord
    let V ← repeated xdrUnmarshal sz.toNat
    pure (.vector V)
  | 12 => do
    let sz1 ← getWord
    let sz2 ← getWord
    let M ← repeated xdrUnmarshal (sz1.toNat * sz2.toNat)
    pure (.matrix sz1.toNat sz2.toNat M)
  | _ => pure .null

/-- `Value::xdr_unmarshal` to a given nesting depth: the type code, then its decoder. -/
def xdrUnmarshalDepth : ℕ → Reader Value
  | 0 => failure
  | depth + 1 => do
    let tc ← getWord
    jumpTab (xdrUnmarshalDepth depth) tc.toNat

/-- `Value::xdr_unmarshal`. Each level of nesting takes bytes off the buffer, so its length bounds
the depth. -/
def xdrUnmarshal : Reader Value := fun s => (xdrUnmarshalDepth s.length).run s

end Value

/-- `Tuple::xdr_marshal`: the number of fields, then the fields. -/
def Tuple.xdrMarshal (t : Tuple) : Option (List UInt8) :=
  if t.frozen && Value.everywheres Value.isFrozen t.fields then
    some (Value.putSize t.fields.length ++ Value.wires t.fields)
  else none

/-- `Tuple::xdr_unmarshal`: a new tuple, not frozen. -/
def Tuple.xdrUnmarshal (newID : ℕ) : Reader Tuple := do
  let sz ← getWord
  let fields ← repeated Value.xdrUnmarshal sz.toNat
  pure ⟨newID, fields, false⟩

namespace Value

/-! ## What decoding makes of a value -/

mutual

/-- The value that comes back: tuples are not frozen, and sets are built from their decoded
elements. -/
def rebuild : Value → Value
  | .tuple _ L => .tuple false (rebuilds L)
  | .set L => .set (insertions (rebuilds L))
  | .list L => .list (rebuilds L)
  | .vector L => .vector (rebuilds L)
  | .matrix m n L => .matrix m n (rebuilds L)
  | .null => .null
  | .str s => .str s
  | .int64 i => .int64 i
  | .double d => .double d
  | .opaqueBuf b => .opaqueBuf b
  | .time t => .time t
  | .id i => .id i
  | .timeDuration td => .timeDuration td

def rebuilds : List Value → List Value
  | [] => []
  | a :: as => rebuild a :: rebuilds as

end

lemma rebuilds_eq_map (as : List Value) : rebuilds as = as.map rebuild := by
  induction as with
  | nil => rfl
  | cons a as ih => rw [rebuilds, map_cons, ih]

lemma wires_eq_flatMap (as : List Value) : wires as = as.flatMap wire := by
  induction as with
  | nil => rfl
  | cons a as ih => rw [wires, flatMap_cons, ih]

/-- The values of the ten types of the wire format, well formed: strings without NUL bytes, frozen
tuples, matrices with all their elements, sets in ascending order, buffers of a 32-bit length. -/
def isWirable : Value → Bool
  | .null | .int64 _ | .id _ | .list _ | .vector _ => true
  | .str s => s.all (· != 0)
  | .opaqueBuf b => b.length < 2 ^ 32
  | .tuple frozen _ => frozen
  | .set L => decide (L.Pairwise fun a b => compareTo a b = .lt)
  | .matrix m n L => L.length == m * n
  | .double _ | .time _ | .timeDuration _ => false

/-- The values that are read back: a NUL may also end a string, and doubles keep their bits. -/
def isSendable : Value → Bool
  | .str s => s.dropLast.all (· != 0)
  | .double _ => true
  | a => isWirable a

lemma isSendable_of_isWirable (a : Value) : isWirable a → isSendable a := by
  cases a with
  | str s =>
    intro hs
    have hall : ∀ c ∈ s, c != 0 := all_eq_true.mp hs
    exact all_eq_true.mpr fun c hc => hall c (dropLast_subset s hc)
  | double d => exact fun _ => rfl
  | _ => exact fun ha => ha

def fits : Value → Bool
  | .str s => s.length + 1 < 2 ^ 31
  | .tuple _ L | .set L | .list L | .vector L => L.length < 2 ^ 32
  | .matrix m n _ => decide (m < 2 ^ 32) && decide (n < 2 ^ 32)
  | _ => true

def clashFree : Value → Bool
  | .set L => L.all fun a => L.all fun b => !clash a b
  | _ => true

/-! ## Decoding undoes encoding -/

lemma reads_typeCode {d : ℕ} {bs : List UInt8} {a : Value} (c : TypeCode)
    (h : Reads (jumpTab (xdrUnmarshalDepth d) c.code) bs a) :
    Reads (xdrUnmarshalDepth (d + 1)) (putTypeCode c ++ bs) a := by
  have hcode : (ofNat c.code).toNat = c.code := by cases c <;> rfl
  refine (reads_word _).bind ?_
  rwa [hcode]

lemma size_toNat {n : ℕ} (h : n < 2 ^ 32) : (ofNat n).toNat = n := by
  rw [toNat_ofNat', Nat.mod_eq_of_lt h]

lemma reads_counted {β : Type} {read : Reader Value} {L : List Value} (hlen : L.length < 2 ^ 32)
    (h : ∀ b ∈ L, Reads read b.wire b.rebuild) (f : List Value → β) :
    Reads (do
      let sz ← getWord
      let vs ← repeated read sz.toNat
      pure (f vs)) (putSize L.length ++ wires L) (f (rebuilds L)) := by
  refine (reads_word _).bind ?_
  rw [size_toNat hlen, wires_eq_flatMap, rebuilds_eq_map]
  exact (Reads.repeated h).andPure f

lemma toInt32_size {n : ℕ} (hn : n < 2 ^ 31) : (ofNat n).toInt32.toInt = n := by
  change (ofNat n).toBitVec.toInt = n
  have hbits : (ofNat n).toBitVec.toNat = n := size_toNat (by omega)
  rw [BitVec.toInt_eq_toNat_of_lt (by omega), hbits]

lemma cString_cases {s : List UInt8} (hnul : ∀ c ∈ s.dropLast, c ≠ 0) :
    cString s = s ∨ s = cString s ++ [0] := by
  rcases eq_nil_or_concat s with rfl | ⟨t, c, rfl⟩
  · exact Or.inl rfl
  · rw [concat_eq_append, dropLast_concat] at hnul
    have ht : t.takeWhile (· != 0) = t :=
      takeWhile_eq_self_iff.mpr fun c hc => by simpa using hnul c hc
    unfold cString
    rw [concat_eq_append, takeWhile_append, ht]
    by_cases hc : c = 0
    · subst hc
      simp
    · simp [hc]

lemma putStr_eq {s : List UInt8} (hlen : s.length + 1 < 2 ^ 32) :
    putStr s = putWord (ofNat s.length) ++
      (putWord (ofNat (cString s).length) ++ putBytes (cString s)) := by
  have hle : (cString s).length ≤ s.length := ( takeWhile_prefix _).length_le
  have hsize : (ofNat (cString s).length).toNat = (cString s).length := size_toNat (by omega)
  have hbound : ofNat (cString s).length ≤ ofNat s.length + 1 := by
    rw [le_iff_toNat_le, UInt32.toNat_add, hsize, size_toNat (by omega)]
    have h1 : (1 : UInt32).toNat = 1 := rfl
    omega
  unfold putStr
  simp [hbound, hsize]

lemma reads_str {s : List UInt8} (hnul : ∀ c ∈ s.dropLast, c ≠ 0) (hlen : s.length + 1 < 2 ^ 31) :
    Reads getStr (putStr s) s := by
  have hc := cString_cases hnul
  have hle : (cString s).length ≤ s.length := ( takeWhile_prefix _).length_le
  have hsize : (ofNat (cString s).length).toNat = (cString s).length := size_toNat (by omega)
  rw [putStr_eq (by omega)]
  refine (reads_word _).bind ?_
  rw [toInt32_size (by omega), if_neg (by omega)]
  refine (reads_word _).bind ?_
  rw [hsize, if_neg (by split_ifs <;> omega)]
  rcases hc with hc | hc
  · have htake : s.take (s.length : ℤ).toNat = s := take_of_length_le (by simp)
    have hread := (reads_bytes s).andPure fun data : List UInt8 => data.take (s.length : ℤ).toNat
    rw [htake] at hread
    rw [hc]
    simpa only [le_refl, if_true] using hread
  · -- the NUL at the end is the one that `xdr_string` adds
    have hlength : s.length = (cString s).length + 1 := by
      have := congrArg List.length hc
      rwa [length_append] at this
    have hread := (reads_bytes (cString s)).andPure fun data : List UInt8 => data ++ [0]
    rw [← hc] at hread
    have hnot : ¬ (s.length : ℤ) ≤ ((cString s).length : ℕ) := by omega
    have heq : (s.length : ℤ) = ((cString s).length : ℕ) + 1 := by omega
    simp only [if_neg hnot, if_pos heq]
    exact hread

lemma reads_id (i : Value.ID) : Reads getID (i.words.flatMap putWord) i := by
  have hwords : Reads (repeated getWord WORDS) (i.words.flatMap putWord) i.words := by
    have h : Reads (repeated getWord i.words.length) (i.words.flatMap putWord)
        (i.words.map fun w => w) := Reads.repeated fun w _ => reads_word w
    rwa [i.length_words, map_id'] at h
  rw [← append_nil (i.words.flatMap putWord)]
  refine hwords.bind ?_
  rw [dif_pos i.length_words]
  exact Reads.pure i

lemma length_wire_parts {a b : Value} (hb : b ∈ a.parts) :
    b.wire.length + 4 ≤ a.wire.length := by
  have hle : ∀ L : List Value, b ∈ L → b.wire.length ≤ (wires L).length := by
    intro L hL
    obtain ⟨l₁, l₂, rfl⟩ := append_of_mem hL
    simp only [wires_eq_flatMap, flatMap_append, flatMap_cons, length_append]
    omega
  cases a <;> first | exact absurd hb not_mem_nil | skip
  all_goals
    have := hle _ hb
    simp only [parts] at this
    simp only [wire, putTypeCode, putWord, length_append, length_cons]
    omega

lemma four_le_length_wire (a : Value) : 4 ≤ a.wire.length := by
  cases a <;> simp [wire, putTypeCode, putWord]

/-- **The decoder reads exactly the bytes the encoder wrote.** Whatever the order of the elements
of the sets inside, decoding succeeds and consumes the value. -/
lemma reads_wire (a : Value) (hw : a.everywhere isSendable) (hf : a.everywhere fits) :
    ∀ d, a.wire.length ≤ d → Reads (xdrUnmarshalDepth d) a.wire a.rebuild := by
  induction a using induction_on_parts with
  | value a ih =>
    intro d hd
    obtain ⟨d, rfl⟩ : ∃ e, d = e + 1 := ⟨d - 1, by have := four_le_length_wire a; omega⟩
    rw [everywhere_iff] at hw hf
    have hparts : ∀ b ∈ a.parts, Reads (xdrUnmarshalDepth d) b.wire b.rebuild := fun b hb =>
      ih b hb (hw.2 b hb) (hf.2 b hb) d (by have := length_wire_parts hb; omega)
    obtain ⟨hw, -⟩ := hw
    obtain ⟨hf, -⟩ := hf
    clear ih hd
    cases a with
    | null =>
      exact reads_typeCode .NULLV (Reads.pure Value.null)
    | str s =>
      have hnul : ∀ c ∈ s.dropLast, c ≠ 0 := by
        intro c hc
        simpa using all_eq_true.mp hw c hc
      exact reads_typeCode .STR ((reads_str hnul (by simpa [fits] using hf)).andPure _)
    | int64 i =>
      have h := (reads_hyper i.toUInt64).andPure fun w => Value.int64 w.toInt64
      exact reads_typeCode .INT64 h
    | opaqueBuf b =>
      refine reads_typeCode .OPAQUE ((reads_word _).bind ?_)
      rw [size_toNat (of_decide_eq_true hw)]
      exact (reads_bytes b).andPure _
    | tuple f L =>
      exact reads_typeCode .TUPLE (reads_counted (by simpa [fits, parts] using hf) hparts _)
    | id i => exact reads_typeCode .ID ((reads_id i).andPure _)
    | set L => exact reads_typeCode .SET (reads_counted (by simpa [fits, parts] using hf) hparts _)
    | list L => exact reads_typeCode .LIST (reads_counted (by simpa [fits, parts] using hf) hparts _)
    | vector L =>
      exact reads_typeCode .VECTOR (reads_counted (by simpa [fits, parts] using hf) hparts _)
    | matrix m n L =>
      obtain ⟨hm, hn⟩ : m < 2 ^ 32 ∧ n < 2 ^ 32 := by simpa [fits] using hf
      have hlen : L.length = m * n := eq_of_beq hw
      refine reads_typeCode .MATRIX ((reads_word _).bind ((reads_word _).bind ?_))
      rw [size_toNat hm, size_toNat hn, ← hlen, wires_eq_flatMap, rebuild, rebuilds_eq_map]
      exact (Reads.repeated hparts).andPure fun M => Value.matrix m n M
    | double d =>
      have h := (reads_hyper d.bits).andPure fun w => Value.double ⟨w⟩
      exact reads_typeCode .DOUBLE h
    | time t => cases hw
    | timeDuration td => cases hw

/-! ## The decoded value -/

lemma everywhere_mono {p q : Value → Bool} (h : ∀ a, p a → q a) (a : Value) :
    a.everywhere p → a.everywhere q := by
  induction a using induction_on_parts with
  | value a ih =>
    rw [everywhere_iff, everywhere_iff]
    exact fun hp => ⟨h a hp.1, fun b hb => ih b hb (hp.2 b hb)⟩

lemma isPlace_of_isWirable (a : Value) : isWirable a → isPlace a := by
  intro ha
  cases a <;> first | rfl | cases ha

lemma noNaN_of_isWirable {a : Value} (h : a.everywhere isWirable) : a.noNaN :=
  everywhere_mono isPlace_of_isWirable a h

lemma trees_eq_map (as : List Value) : trees as = as.map tree := by
  induction as with
  | nil => rfl
  | cons a as ih => rw [trees, map_cons, ih]

lemma insertions_rebuilds {L : List Value} (hN : ∀ a ∈ L, a.noNaN)
    (hasc : L.Pairwise fun a b => compareTo a b = .lt) (hcl : ∀ a ∈ L, ∀ b ∈ L, ¬ clash a b)
    (hreb : ∀ a ∈ L, tree a.rebuild = tree a ∧ a.rebuild.noNaN) :
    insertions (rebuilds L) = rebuilds L := by
  have hcmp : ∀ a ∈ L, ∀ b ∈ L, compareTo a.rebuild b.rebuild = compareTo a b := by
    intro a ha b hb
    have hcl' : ¬ clash a.rebuild b.rebuild := fun h =>
      hcl a ha b hb (clash_of_tree_eq.1 _ _ _ _ (hreb a ha).1 (hreb b hb).1 h)
    rw [compareTo_eq_cmp (hreb a ha).2 (hreb b hb).2 hcl',
      compareTo_eq_cmp (hN a ha) (hN b hb) (hcl a ha b hb), (hreb a ha).1, (hreb b hb).1]
  have hpair : (rebuilds L).Pairwise fun a b => ltSet a b ∧ ¬ ltSet b a := by
    rw [rebuilds_eq_map, pairwise_map]
    refine hasc.imp_of_mem fun {a b} ha hb hab => ?_
    have hba : compareTo b a = .gt := by
      rw [compareTo_swap (hN b hb) (hN a ha) (hcl b hb a ha), hab]
      rfl
    simp [ltSet, hcmp a ha b hb, hcmp b hb a ha, hab, hba]
  exact SearchTree.toList_foldl_insertUnique (forall_mem_nil _) hpair

/-- **Decoding gives back a value with the same tree** and with the parts in their places, when no set
inside holds a clash. -/
lemma parts_rebuild (a : Value) (hw : a.everywhere isSendable) (hn : a.noNaN)
    (hc : a.everywhere clashFree) :
    a.rebuild.parts = rebuilds a.parts ∧ tree a.rebuild = tree a ∧ a.rebuild.noNaN := by
  induction a using induction_on_parts with
  | value a ih =>
    rw [noNaN] at hn
    rw [everywhere_iff] at hw hn hc
    have hparts : ∀ b ∈ a.parts, tree b.rebuild = tree b ∧ b.rebuild.noNaN := fun b hb =>
      (ih b hb (hw.2 b hb) (hn.2 b hb) (hc.2 b hb)).2
    have htrees : trees (rebuilds a.parts) = trees a.parts := by
      rw [trees_eq_map, trees_eq_map, rebuilds_eq_map, map_map]
      exact map_congr_left fun b hb => (hparts b hb).1
    have hlen : (rebuilds a.parts).length = a.parts.length := by
      rw [rebuilds_eq_map, length_map]
    have hsame : a.rebuild.typeCode = a.typeCode ∧ a.rebuild.header = a.header ∧
        a.rebuild.parts = rebuilds a.parts ∧ isPlace a.rebuild := by
      cases a with
      | set L =>
        have hins : insertions (rebuilds L) = rebuilds L :=
          insertions_rebuilds hn.2 (of_decide_eq_true hw.1)
            (by simpa [clashFree] using hc.1) hparts
        exact ⟨rfl, rfl, hins, rfl⟩
      | tuple f L => exact ⟨rfl, congrArg (fun n : ℕ => [(n : ℤ)]) hlen, rfl, rfl⟩
      | vector L => exact ⟨rfl, congrArg (fun n : ℕ => [(n : ℤ)]) hlen, rfl, rfl⟩
      | double d => exact ⟨rfl, rfl, rfl, hn.1⟩
      | time t => cases hw.1
      | timeDuration td => cases hw.1
      | _ => exact ⟨rfl, rfl, rfl, rfl⟩
    obtain ⟨htype, hheader, hrebuilds, hplace⟩ := hsame
    refine ⟨hrebuilds, ?_, ?_⟩
    · rw [tree_eq, tree_eq a, htype, hheader, hrebuilds, htrees]
    · rw [noNaN, everywhere_iff, hrebuilds, rebuilds_eq_map, forall_mem_map]
      exact ⟨hplace, fun b hb => (hparts b hb).2⟩

lemma typeCode_rebuild (a : Value) : a.rebuild.typeCode = a.typeCode := by
  cases a <;> rfl

lemma compareTo_rebuild {a : Value} (hw : a.everywhere isSendable) (hn : a.noNaN)
    (hc : a.everywhere clashFree) : compareTo a a.rebuild = .eq :=
  have h := (parts_rebuild a hw hn hc).2
  compareTo_of_tree_eq hn h.2 h.1.symm

lemma reads_xdrUnmarshal {a : Value} (hw : a.everywhere isSendable) (hf : a.everywhere fits) :
    Reads xdrUnmarshal a.wire a.rebuild := fun rest =>
  reads_wire a hw hf (a.wire ++ rest).length (by simp) rest

lemma isFrozen_of_isSendable {a : Value} (hw : a.everywhere isSendable) : a.everywhere isFrozen :=
  everywhere_mono (fun a ha => by cases a <;> first | rfl | exact ha) a hw

lemma mapM_xdrMarshal {as : List Value} (hw : ∀ a ∈ as, a.everywhere isSendable) :
    as.mapM xdrMarshal = some (as.map wire) :=
  mapM_eq_some_map fun a ha => if_pos (isFrozen_of_isSendable (hw a ha))

lemma tuple_xdrMarshal {as : List Value} (hw : ∀ a ∈ as, a.everywhere isSendable) (tupleID : ℕ) :
    Tuple.xdrMarshal ⟨tupleID, as, true⟩ = some (putSize as.length ++ wires as) := by
  have hfrozen : everywheres isFrozen as :=
    everywheres_iff.mpr fun a ha => isFrozen_of_isSendable (hw a ha)
  exact if_pos (by simpa using hfrozen)

lemma reads_tuple {as : List Value} (hw : ∀ a ∈ as, a.everywhere isSendable)
    (hf : ∀ a ∈ as, a.everywhere fits) (hlen : as.length < 2 ^ 32) (newID : ℕ) :
    Reads (Tuple.xdrUnmarshal newID) (putSize as.length ++ wires as) ⟨newID, rebuilds as, false⟩ :=
  reads_counted hlen (fun a ha => reads_xdrUnmarshal (hw a ha) (hf a ha))
    fun fields => (⟨newID, fields, false⟩ : Tuple)

/-- A sequence of values is written, read back to its end, and compares equal; so does a frozen tuple
of them. -/
def RoundTrips (as : List Value) (rest : List UInt8) : Prop :=
  (∃ bss bs, as.mapM xdrMarshal = some bss ∧
    (repeated xdrUnmarshal as.length).run (bss.flatten ++ rest) = some (bs, rest) ∧
    List.Forall₂ (fun a b => typeCode b = typeCode a ∧ compareTo a b = .eq) as bs) ∧
  (as.length < 2 ^ 32 → ∀ tupleID newID, ∃ bs t,
    Tuple.xdrMarshal ⟨tupleID, as, true⟩ = some bs ∧
    (Tuple.xdrUnmarshal newID).run (bs ++ rest) = some (t, rest) ∧
    Tuple.compareTo ⟨tupleID, as, true⟩ t = .eq)

lemma roundTrips_of_isSendable {as : List Value} (hw : ∀ a ∈ as, a.everywhere isSendable)
    (hn : ∀ a ∈ as, a.noNaN) (hf : ∀ a ∈ as, a.everywhere fits)
    (hc : ∀ a ∈ as, a.everywhere clashFree) (rest : List UInt8) : RoundTrips as rest := by
  refine ⟨⟨as.map wire, as.map rebuild, mapM_xdrMarshal hw, ?_, ?_⟩, fun hlen tupleID newID => ?_⟩
  · exact Reads.repeated (fun a ha => reads_xdrUnmarshal (hw a ha) (hf a ha)) rest
  · rw [forall₂_map_right_iff, forall₂_same]
    exact fun a ha => ⟨typeCode_rebuild a, compareTo_rebuild (hw a ha) (hn a ha) (hc a ha)⟩
  · -- the fields of the tuple, seen as one value
    have hw' : (Value.tuple true as).everywhere isSendable := everywhere_iff.mpr ⟨rfl, hw⟩
    have hn' : (Value.tuple true as).noNaN := everywhere_iff.mpr ⟨rfl, hn⟩
    have hc' : (Value.tuple true as).everywhere clashFree := everywhere_iff.mpr ⟨rfl, hc⟩
    exact ⟨putSize as.length ++ wires as, ⟨newID, rebuilds as, false⟩, tuple_xdrMarshal hw tupleID,
      reads_tuple hw hf hlen newID rest, compareTo_rebuild hw' hn' hc'⟩

/-! ## The round trip -/

/-- **The wire format round-trips off the clashing sets.** A sequence of values of the ten types,
well formed and of sizes that fit their words, with no clash between two elements of a set inside,
is marshalled; and whatever follows in the buffer, unmarshalling as many values consumes exactly the
bytes written and gives back values of the same types that compare equal. The same holds of a frozen
tuple with such fields. -/
theorem xdr_round_trip (as : List Value) (hw : ∀ a ∈ as, a.everywhere isWirable)
    (hf : ∀ a ∈ as, a.everywhere fits) (hc : ∀ a ∈ as, a.everywhere clashFree)
    (rest : List UInt8) :
    (∃ bss bs, as.mapM xdrMarshal = some bss ∧
      (repeated xdrUnmarshal as.length).run (bss.flatten ++ rest) = some (bs, rest) ∧
      List.Forall₂ (fun a b => typeCode b = typeCode a ∧ compareTo a b = .eq) as bs) ∧
    (as.length < 2 ^ 32 → ∀ tupleID newID, ∃ bs t,
      Tuple.xdrMarshal ⟨tupleID, as, true⟩ = some bs ∧
      (Tuple.xdrUnmarshal newID).run (bs ++ rest) = some (t, rest) ∧
      Tuple.compareTo ⟨tupleID, as, true⟩ t = .eq) := by
  refine roundTrips_of_isSendable (fun a ha => ?_) (fun a ha => noNaN_of_isWirable (hw a ha)) hf hc
    rest
  exact everywhere_mono isSendable_of_isWirable a (hw a ha)

theorem xdr_round_trip_nested :
    ∃ bss bs, [Value.list [.set [.int64 1, .int64 2], .tuple true [.str [97]]]].mapM xdrMarshal =
        some bss ∧
      (repeated xdrUnmarshal 1).run (bss.flatten ++ [7]) = some (bs, [7]) ∧
      List.Forall₂ (fun a b => typeCode b = typeCode a ∧ compareTo a b = .eq)
        [Value.list [.set [.int64 1, .int64 2], .tuple true [.str [97]]]] bs :=
  (xdr_round_trip [.list [.set [.int64 1, .int64 2], .tuple true [.str [97]]]] (by decide)
    (by decide) (by decide) [7]).1

/-- The set of a string and a list comes back in the other order, and compares unequal: when the
list is inserted it is less than the string, as the string was less than the list. -/
theorem xdr_set_str_list :
    (Value.set [.str [97], .list []]).everywhere isWirable ∧
      (Value.set [.str [97], .list []]).everywhere fits ∧
      xdrMarshal (.set [.str [97], .list []]) = some (wire (.set [.str [97], .list []])) ∧
      xdrUnmarshal.run (wire (.set [.str [97], .list []])) =
        some (.set [.list [], .str [97]], []) ∧
      compareTo (.set [.str [97], .list []]) (.set [.list [], .str [97]]) ≠ .eq :=
  ⟨by decide, by decide, rfl, rfl, by decide⟩

end Value

end P2
