import P2.Value.Basic

/-!
# Casts

The casts of `Value` that the network elements read fields with.
-/

namespace P2.Value

def digitOf (c : UInt8) : Option ℕ :=
  if 48 ≤ c ∧ c ≤ 57 then some (c.toNat - 48)
  else if 97 ≤ c ∧ c ≤ 122 then some (c.toNat - 87)
  else if 65 ≤ c ∧ c ≤ 90 then some (c.toNat - 55)
  else none

def digits (base : ℕ) : List UInt8 → ℕ → ℕ
  | [], n => n
  | c :: cs, n =>
    match digitOf c with
    | some d => if d < base then digits base cs (n * base + d) else n
    | none => n

/-- `strtoll(s, NULL, 0)`: blanks, a sign, then hexadecimal digits after `0x`, octal ones after
`0`, decimal ones otherwise; clamped to the range. -/
def strtoll (s : List UInt8) : Int64 :=
  let s := s.dropWhile fun c => c == 32 || (9 ≤ c && c ≤ 13)
  let signed : Bool × List UInt8 := match s with
    | 45 :: r => (true, r)
    | 43 :: r => (false, r)
    | r => (false, r)
  let n : ℕ := match signed.2 with
    | 48 :: x :: r =>
      -- `0x` without a hexadecimal digit after it is the octal number 0
      if (x == 120 || x == 88) && (r.head?.bind digitOf).any (· < 16) then digits 16 r 0
      else digits 8 (x :: r) 0
    | r => digits (if r.head? == some 48 then 8 else 10) r 0
  Int64.ofInt (max (-2 ^ 63) (min (2 ^ 63 - 1) (if signed.1 then -(n : ℤ) else n)))

/-- The conversion of a double to `int64_t`, towards zero. Out of range the C++ conversion is
undefined. -/
def Double.toInt64 (d : Double) : Option Int64 :=
  let e := d.bits.toNat / 2 ^ 52 % 2 ^ 11
  let m : ℕ := d.bits.toNat % 2 ^ 52 + if e = 0 then 0 else 2 ^ 52
  -- the value is `m * 2 ^ (e - 1075)`; below the normal range it is under 1 and truncates to 0
  let n : ℕ := if 1075 ≤ e then m * 2 ^ (e - 1075) else m / 2 ^ (1075 - e)
  let i : ℤ := if 2 ^ 63 ≤ d.bits.toNat then -(n : ℤ) else n
  if e < 2047 ∧ -2 ^ 63 ≤ i ∧ i < 2 ^ 63 then some (Int64.ofInt i) else none

def castInt64 : Value → Option Int64
  | .int64 i => some i
  | .double d => d.toInt64
  | .null => some 0
  | .str s => some (strtoll s)
  | _ => none

example : [strtoll [48, 49, 48], strtoll [32, 45, 48, 120, 102, 103], strtoll [48, 120],
    strtoll (List.replicate 20 57)] = [8, -15, 0, Int64.maxValue] := by decide

def castOpaque : Value → Option (List UInt8)
  | .opaqueBuf b => some b
  | .str s => some s
  | _ => none

end P2.Value
