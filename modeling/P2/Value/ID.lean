import P2.Lib.Ripple

/-!
# Ring identifiers

`ID` is the 160-bit identifier of `p2core/ID.h`: `WORDS = 5` words of 32 bits, most significant
first. Its operations work word by word, with hand-written carries in 32- and 64-bit wrap-around
arithmetic.

The step lemmas say what one position does to the numbers of its words; the pass lemmas of the
library carry them over the whole identifier: `ring_arithmetic`.
-/

namespace P2.Value

open P2.Lib.Ripple List Nat
open UInt64 (toNat_toUInt32 toNat_and)
open UInt32 (toNat_toUInt64 le_iff_toNat_le)

def WORDS : ℕ := 5

/-- A ring identifier: its words, most significant first. The length is part of the type, as the
array `uint32_t words[WORDS]` of the source has it. -/
structure ID where
  words : List UInt32
  length_words : words.length = WORDS
  deriving DecidableEq

namespace ID

/-- The number an identifier denotes: its words as digits in base `2 ^ 32`. -/
def toNat (a : ID) : ℕ := beNat (2 ^ 32) (a.words.map UInt32.toNat)

lemma word_lt (l : List UInt32) : ∀ d ∈ l.map UInt32.toNat, d < 2 ^ 32 := by
  intro d hd
  obtain ⟨w, -, rfl⟩ := mem_map.mp hd
  exact UInt32.toNat_lt w

lemma beNat_words_lt (l : List UInt32) :
    beNat (2 ^ 32) (l.map UInt32.toNat) < (2 ^ 32) ^ l.length := by
  simpa using beNat_lt _ (word_lt l)

lemma toNat_lt (a : ID) : a.toNat < 2 ^ 160 := by
  have h := beNat_words_lt a.words
  rw [a.length_words] at h
  exact lt_of_lt_of_eq h (by norm_num [WORDS])

lemma toNat_inj {a b : ID} (h : a.toNat = b.toNat) : a = b := by
  have hmap := beNat_inj (word_lt a.words) (word_lt b.words)
    (by rw [length_map, length_map, a.length_words, b.length_words]) h
  have hw : a.words = b.words :=
    List.map_inj_right (fun _ _ hn => UInt32.toNat_inj.mp hn) |>.mp hmap
  cases a; cases b; simp only [mk.injEq]; exact hw

lemma weigh_words (l : List UInt32) : weigh (2 ^ 32) (fun w : UInt32 => (w.toNat : ℤ)) l =
    (beNat (2 ^ 32) (l.map UInt32.toNat) : ℕ) := by
  rw [← weigh_natCast]
  norm_num

/-- A pass over two identifiers, with carries of weight `k`: what its words denote differs from the
inputs by the last carry. -/
lemma toNat_ripple {step : UInt32 × UInt32 → UInt32 → UInt32 × UInt32} {k m : ℤ}
    (hstep : ∀ p c, c.toNat ≤ 1 → (step p c).1.toNat ≤ 1 ∧
      ((step p c).2.toNat : ℤ) + 2 ^ 32 * ((step p c).1.toNat * k) =
        (p.1.toNat * m + p.2.toNat) + c.toNat * k)
    (a b r : ID) (hr : r.words = (ripple step 0 (a.words.zip b.words)).2) :
    ∃ carry : ℤ, (r.toNat : ℤ) + 2 ^ 160 * carry = a.toNat * m + b.toNat := by
  have hlen : a.words.length = b.words.length := by rw [a.length_words, b.length_words]
  have h := ripple_value step (2 ^ 32) (fun w : UInt32 => (w.toNat : ℤ))
    (fun c : UInt32 => (c.toNat : ℤ) * k) (fun p => (p.1.toNat : ℤ) * m + p.2.toNat)
    (fun c => c.toNat ≤ 1) (fun p c hc => (hstep p c hc).1) (fun p c hc => (hstep p c hc).2)
    (c := 0) (by decide) (a.words.zip b.words)
  have hpow : ((2 : ℤ) ^ 32) ^ min WORDS WORDS = 2 ^ 160 := by norm_num [WORDS]
  have h0 : ((0 : UInt32).toNat : ℤ) = 0 := rfl
  rw [weigh_add, weigh_mul_right, weigh_zip_fst _ (fun w : UInt32 => (w.toNat : ℤ)) hlen,
    weigh_zip_snd _ (fun w : UInt32 => (w.toNat : ℤ)) hlen, ← hr, weigh_words, weigh_words,
    weigh_words, length_zip, a.length_words, b.length_words, hpow, h0, zero_mul, add_zero] at h
  exact ⟨_, h⟩

/-! ## Addition -/

/-- The body of the loop of `ID::add` at one word of each summand. -/
def addStep (p : UInt32 × UInt32) (carry : UInt32) : UInt32 × UInt32 :=
  let temp : UInt64 := p.1.toUInt64 + p.2.toUInt64 + carry.toUInt64
  if temp > 0xffffffff then (1, (temp &&& 0xffffffff).toUInt32) else (0, temp.toUInt32)

def add (a other : ID) : ID where
  words := (ripple addStep 0 (a.words.zip other.words)).2
  length_words := by simp [a.length_words, other.length_words]

lemma addStep_temp_toNat (x y c : UInt32) :
    (x.toUInt64 + y.toUInt64 + c.toUInt64).toNat = x.toNat + y.toNat + c.toNat := by
  have hx := UInt32.toNat_lt x
  have hy := UInt32.toNat_lt y
  have hc := UInt32.toNat_lt c
  simp only [UInt64.toNat_add, toNat_toUInt64]
  omega

lemma addStep_spec (p : UInt32 × UInt32) {c : UInt32} (hc : c.toNat ≤ 1) :
    (addStep p c).1.toNat ≤ 1 ∧
      (addStep p c).2.toNat + 2 ^ 32 * (addStep p c).1.toNat =
        p.1.toNat + p.2.toNat + c.toNat := by
  have hx := UInt32.toNat_lt p.1
  have hy := UInt32.toNat_lt p.2
  have ht := addStep_temp_toNat p.1 p.2 c
  unfold addStep
  simp only
  split_ifs with hgt
  · have hgt' : 2 ^ 32 - 1 < p.1.toNat + p.2.toNat + c.toNat := by
      rw [← ht]; exact UInt64.lt_iff_toNat_lt.mp hgt
    have hand : ∀ n : ℕ, n &&& 4294967295 = n % 2 ^ 32 := fun n => and_two_pow_sub_one_eq_mod n 32
    refine ⟨le_rfl, ?_⟩
    simp only [toNat_toUInt32, toNat_and, ht]
    have : (0xffffffff : UInt64).toNat = 4294967295 := rfl
    rw [this, hand]
    have h1 : (1 : UInt32).toNat = 1 := rfl
    rw [h1]
    omega
  · have hle : p.1.toNat + p.2.toNat + c.toNat ≤ 2 ^ 32 - 1 := by
      rw [← ht]
      have := mt UInt64.lt_iff_toNat_lt.mpr hgt
      simpa using this
    simp only [toNat_toUInt32, ht]
    have h0 : (0 : UInt32).toNat = 0 := rfl
    rw [h0]
    omega

/-- **Addition modulo `2 ^ 160`.** -/
theorem add_toNat (a b : ID) : (a.add b).toNat = (a.toNat + b.toNat) % 2 ^ 160 := by
  obtain ⟨carry, h⟩ := toNat_ripple (k := 1) (m := 1) (fun p c hc => by
    have hspec := addStep_spec p hc
    exact ⟨hspec.1, by omega⟩) a b (a.add b) rfl
  have hlt := (a.add b).toNat_lt
  omega

/-! ## Distance -/

/-- The body of the loop of `ID::distance` at one word: `p.1` is the word of this identifier and
`p.2` the word of `to`. The test compares with the 32-bit sum `words[i] + carry`, which wraps to `0`
when the word is all ones and a carry comes in. -/
def distanceStep (p : UInt32 × UInt32) (carry : UInt32) : UInt32 × UInt32 :=
  if p.2 ≥ p.1 + carry then
    (if carry == 1 then (if p.1 + carry == 0 then 1 else 0) else carry, p.2 - p.1 - carry)
  else
    (1, p.2 - p.1 - carry)

/-- The minimum directional distance from this identifier to the given one on the ring. -/
def distance (a dest : ID) : ID where
  words := (ripple distanceStep 0 (a.words.zip dest.words)).2
  length_words := by simp [a.length_words, dest.length_words]

lemma distanceStep_spec (p : UInt32 × UInt32) {c : UInt32} (hc : c.toNat ≤ 1) :
    (distanceStep p c).1.toNat ≤ 1 ∧
      ((distanceStep p c).2.toNat : ℤ) + 2 ^ 32 * -((distanceStep p c).1.toNat : ℤ) =
        ((p.2.toNat : ℤ) - p.1.toNat) + -(c.toNat : ℤ) := by
  have hx := UInt32.toNat_lt p.1
  have hy := UInt32.toNat_lt p.2
  have hdig : (p.2 - p.1 - c).toNat =
      (2 ^ 32 - c.toNat + (2 ^ 32 - p.1.toNat + p.2.toNat) % 2 ^ 32) % 2 ^ 32 := by
    rw [UInt32.toNat_sub, UInt32.toNat_sub]
  have hsum : (p.1 + c).toNat = (p.1.toNat + c.toNat) % 2 ^ 32 := UInt32.toNat_add _ _
  have h1 : (1 : UInt32).toNat = 1 := rfl
  have h0 : (0 : UInt32).toNat = 0 := rfl
  unfold distanceStep
  split_ifs with hge hcarry hwrap
  · -- the sum wrapped: the word was all ones, and the borrow goes on
    have hge' := le_iff_toNat_le.mp hge
    have hc1 : c.toNat = 1 := by rw [eq_of_beq hcarry]; rfl
    have hw : (p.1 + c).toNat = 0 := by rw [eq_of_beq hwrap]; rfl
    refine ⟨le_rfl, ?_⟩
    simp only [hdig, h1]
    omega
  · -- a borrow came in and stops here
    have hge' := le_iff_toNat_le.mp hge
    have hw : (p.1 + c).toNat ≠ 0 := by
      intro h
      exact hwrap (beq_iff_eq.mpr (UInt32.toNat_inj.mp (h.trans h0.symm)))
    refine ⟨Nat.zero_le _, ?_⟩
    simp only [hdig, h0]
    omega
  · -- no borrow in, none out
    have hge' := le_iff_toNat_le.mp hge
    have hc0 : c.toNat = 0 := by
      have hne : c.toNat ≠ 1 := by
        intro h
        exact hcarry (beq_iff_eq.mpr (UInt32.toNat_inj.mp (h.trans h1.symm)))
      omega
    refine ⟨hc, ?_⟩
    simp only [hdig]
    omega
  · -- the word of `to` is too small: a borrow goes out
    have hlt : p.2.toNat < (p.1 + c).toNat := by
      have := mt le_iff_toNat_le.mpr hge
      omega
    refine ⟨le_rfl, ?_⟩
    simp only [hdig, h1]
    omega

/-- **Distance is subtraction modulo `2 ^ 160`.** -/
theorem distance_toNat (a b : ID) :
    ((a.distance b).toNat : ℤ) = ((b.toNat : ℤ) - a.toNat) % 2 ^ 160 := by
  obtain ⟨borrow, h⟩ := toNat_ripple (k := -1) (m := -1) (fun p c hc => by
    have hspec := distanceStep_spec p hc
    exact ⟨hspec.1, by omega⟩) a b (a.distance b) rfl
  have hlt := (a.distance b).toNat_lt
  omega

/-! ## Shifts -/

def ZERO : ID := ⟨replicate WORDS 0, by simp⟩

/-- The body of the short-shift loop of `ID::lshift` at one word. -/
def lshiftStep (shift : UInt32) (w carry : UInt32) : UInt32 × UInt32 :=
  let temp : UInt64 := w.toUInt64
  let temp := temp <<< shift.toUInt64
  let temp := temp ||| carry.toUInt64
  ((temp >>> 32).toUInt32, (temp &&& 0xffffffff).toUInt32)

/-- The long shift of `ID::lshift`: `newID->words[i] = words[i + longShift]` over a zeroed
identifier. -/
def moveUp (a : ID) (longShift : ℕ) (h : longShift ≤ WORDS) : ID where
  words := a.words.drop longShift ++ replicate longShift 0
  length_words := by simp [a.length_words]; omega

/-- The long shift of `ID::rshift`: `newID->words[i] = words[i - longShift]` over a zeroed
identifier. -/
def moveDown (a : ID) (longShift : ℕ) (h : longShift ≤ WORDS) : ID where
  words := replicate longShift 0 ++ a.words.take (WORDS - longShift)
  length_words := by simp [a.length_words]; omega

lemma toNat_shiftRight_5 (s : UInt32) : (s >>> 5).toNat = s.toNat / 32 := by
  rw [UInt32.toNat_shiftRight, shiftRight_eq_div_pow]
  rfl

lemma longShift_le {shift : UInt32} (h : ¬ shift.toNat ≥ WORDS * 32) :
    (shift >>> 5).toNat ≤ WORDS := by
  rw [toNat_shiftRight_5]
  omega

/-- Left shift an ID by a number of bit positions. A shift by exactly 32 stays in the short-shift
loop, with the whole word as carry. -/
def lshift (a : ID) (shift : UInt32) : ID :=
  if shift = 0 then a
  else if h : shift.toNat ≥ WORDS * 32 then ZERO
  else if shift > 32 then
    let newID := a.moveUp (shift >>> 5).toNat (longShift_le h)
    ⟨(ripple (lshiftStep (shift &&& 0x1f)) 0 newID.words).2, by simp [newID.length_words]⟩
  else
    ⟨(ripple (lshiftStep shift) 0 a.words).2, by simp [a.length_words]⟩

/-- The body of the short-shift loop of `ID::rshift` at one word. -/
def rshiftStep (shift : UInt32) (w carry : UInt32) : UInt32 × UInt32 :=
  let temp : UInt64 := w.toUInt64
  -- room in the lower-order word, then the shift: the bits that leave the word stay below
  let temp := temp <<< 32
  let temp := temp >>> shift.toUInt64
  let newWord : UInt32 := ((temp >>> 32) &&& 0xffffffff).toUInt32
  ((temp &&& 0xffffffff).toUInt32, newWord ||| carry)

def rshift (a : ID) (shift : UInt32) : ID :=
  if shift = 0 then a
  else if h : shift.toNat ≥ WORDS * 32 then ZERO
  else if shift > 32 then
    let newID := a.moveDown (shift >>> 5).toNat (longShift_le h)
    ⟨(longDiv (rshiftStep (shift &&& 0x1f)) 0 newID.words).2, by simp [newID.length_words]⟩
  else
    ⟨(longDiv (rshiftStep shift) 0 a.words).2, by simp [a.length_words]⟩

@[simp] lemma ZERO_toNat : ZERO.toNat = 0 := by
  simp [toNat, ZERO]

lemma lshiftStep_spec {s : UInt32} (hs : s.toNat ≤ 32) (w : UInt32) {c : UInt32}
    (hc : c.toNat < 2 ^ s.toNat) :
    (lshiftStep s w c).1.toNat < 2 ^ s.toNat ∧
      (lshiftStep s w c).2.toNat + 2 ^ 32 * (lshiftStep s w c).1.toNat =
        w.toNat * 2 ^ s.toNat + c.toNat := by
  have hw := UInt32.toNat_lt w
  have hpow : 2 ^ s.toNat ≤ 2 ^ 32 := Nat.pow_le_pow_right (by norm_num) hs
  have hbound : w.toNat * 2 ^ s.toNat + c.toNat < 2 ^ 32 * 2 ^ s.toNat := by
    calc w.toNat * 2 ^ s.toNat + c.toNat < w.toNat * 2 ^ s.toNat + 2 ^ s.toNat := by omega
      _ = (w.toNat + 1) * 2 ^ s.toNat := by ring
      _ ≤ 2 ^ 32 * 2 ^ s.toNat := Nat.mul_le_mul_right _ hw
  -- the carry fits below the shifted word, so the bitwise or is a sum
  have htemp : ((w.toUInt64 <<< s.toUInt64) ||| c.toUInt64).toNat =
      w.toNat * 2 ^ s.toNat + c.toNat := by
    rw [UInt64.toNat_or, UInt64.toNat_shiftLeft, toNat_toUInt64, toNat_toUInt64,
      toNat_toUInt64, mod_eq_of_lt (by omega : s.toNat < 64), shiftLeft_eq,
      mod_eq_of_lt (by omega), ← shiftLeft_eq, ← shiftLeft_add_eq_or_of_lt hc,
      shiftLeft_eq]
  unfold lshiftStep
  simp only
  have hhi : (((w.toUInt64 <<< s.toUInt64) ||| c.toUInt64) >>> 32).toUInt32.toNat =
      (w.toNat * 2 ^ s.toNat + c.toNat) / 2 ^ 32 := by
    rw [toNat_toUInt32, UInt64.toNat_shiftRight, htemp, shiftRight_eq_div_pow]
    have h32 : (32 : UInt64).toNat % 64 = 32 := rfl
    rw [h32]
    exact mod_eq_of_lt (by omega)
  have hlo : (((w.toUInt64 <<< s.toUInt64) ||| c.toUInt64) &&& 0xffffffff).toUInt32.toNat =
      (w.toNat * 2 ^ s.toNat + c.toNat) % 2 ^ 32 := by
    rw [toNat_toUInt32, toNat_and, htemp]
    have hm : (0xffffffff : UInt64).toNat = 2 ^ 32 - 1 := rfl
    rw [hm, and_two_pow_sub_one_eq_mod, mod_mod]
  refine ⟨?_, ?_⟩
  · rw [hhi]
    exact Nat.div_lt_of_lt_mul hbound
  · rw [hhi, hlo, add_comm]
    exact div_add_mod _ _

lemma beNat_lshift {s : UInt32} (hs : s.toNat ≤ 32) (ws : List UInt32) :
    beNat (2 ^ 32) ((ripple (lshiftStep s) 0 ws).2.map UInt32.toNat) =
      beNat (2 ^ 32) (ws.map UInt32.toNat) * 2 ^ s.toNat % (2 ^ 32) ^ ws.length := by
  have h := ripple_value (lshiftStep s) (2 ^ 32) (fun w : UInt32 => (w.toNat : ℤ))
    (fun c : UInt32 => (c.toNat : ℤ)) (fun w => (w.toNat : ℤ) * 2 ^ s.toNat)
    (fun c => c.toNat < 2 ^ s.toNat) (fun w c hc => (lshiftStep_spec hs w hc).1)
    (fun w c hc => by exact_mod_cast (lshiftStep_spec hs w hc).2) (c := 0)
    (by exact Nat.two_pow_pos _) ws
  rw [weigh_mul_right, weigh_words, weigh_words] at h
  have hlt := beNat_words_lt (ripple (lshiftStep s) 0 ws).2
  rw [ripple_length] at hlt
  have hnat : beNat (2 ^ 32) ((ripple (lshiftStep s) 0 ws).2.map UInt32.toNat) +
      (2 ^ 32) ^ ws.length * (ripple (lshiftStep s) 0 ws).1.toNat =
        beNat (2 ^ 32) (ws.map UInt32.toNat) * 2 ^ s.toNat := by
    exact_mod_cast h
  rw [← hnat, add_mul_mod_self_left, mod_eq_of_lt hlt]

lemma moveUp_toNat (a : ID) (k : ℕ) (hk : k ≤ WORDS) :
    (a.moveUp k hk).toNat = a.toNat * (2 ^ 32) ^ k % 2 ^ 160 := by
  have hsplit : a.toNat = beNat (2 ^ 32) ((a.words.take k).map UInt32.toNat) *
      (2 ^ 32) ^ (WORDS - k) + beNat (2 ^ 32) ((a.words.drop k).map UInt32.toNat) := by
    conv_lhs => rw [toNat, ← take_append_drop k a.words, map_append, beNat_append]
    simp [a.length_words]
  have hup : (a.moveUp k hk).toNat =
      beNat (2 ^ 32) ((a.words.drop k).map UInt32.toNat) * (2 ^ 32) ^ k := by
    rw [toNat, moveUp, map_append, beNat_append]
    simp
  have hpow : (2 ^ 32) ^ (WORDS - k) * (2 ^ 32) ^ k = 2 ^ 160 := by
    rw [← pow_add, Nat.sub_add_cancel hk]; norm_num [WORDS]
  have hlt := (a.moveUp k hk).toNat_lt
  rw [hsplit, add_mul, mul_assoc, hpow, add_comm, add_mul_mod_self_right, ← hup, mod_eq_of_lt hlt]

lemma toNat_and_31 (s : UInt32) : (s &&& 0x1f).toNat = s.toNat % 32 := by
  exact and_two_pow_sub_one_eq_mod _ 5

lemma toNat_le_32 {s : UInt32} (h : ¬ s > 32) : s.toNat ≤ 32 :=
  Nat.not_lt.mp fun hlt => h (UInt32.lt_iff_toNat_lt.mpr hlt)

/-- **Left shift multiplies by `2 ^ s` modulo `2 ^ 160`.** -/
theorem lshift_toNat (a : ID) (s : UInt32) :
    (a.lshift s).toNat = a.toNat * 2 ^ s.toNat % 2 ^ 160 := by
  have ha := a.toNat_lt
  unfold lshift
  split_ifs with h0 h160 h32
  · subst h0
    rw [show (0 : UInt32).toNat = 0 from rfl, pow_zero, mul_one, mod_eq_of_lt ha]
  · -- every bit leaves the identifier
    obtain ⟨k, hk⟩ := Nat.exists_eq_add_of_le (show 160 ≤ s.toNat from h160)
    rw [ZERO_toNat, hk, pow_add, mul_left_comm, mul_mod_right]
  · have hlow := toNat_and_31 s
    have hlong := toNat_shiftRight_5 s
    have hshort := beNat_lshift (s := s &&& 0x1f) (by rw [hlow]; omega)
      (a.moveUp (s >>> 5).toNat (longShift_le h160)).words
    have hmove := a.moveUp_toNat (s >>> 5).toNat (longShift_le h160)
    change beNat (2 ^ 32) _ = _
    rw [hshort]
    change (a.moveUp (s >>> 5).toNat (longShift_le h160)).toNat * _ % _ = _
    have hpow : (2 ^ 32) ^ (a.moveUp (s >>> 5).toNat (longShift_le h160)).words.length =
        2 ^ 160 := by rw [length_words]; norm_num [WORDS]
    have hexp : (2 ^ 32) ^ (s.toNat / 32) * 2 ^ (s.toNat % 32) = 2 ^ s.toNat := by
      rw [← pow_mul, ← pow_add, div_add_mod]
    rw [hmove, hpow, mod_mul_mod, hlow, hlong, mul_assoc, hexp]
  · change beNat (2 ^ 32) _ = _
    rw [beNat_lshift (toNat_le_32 h32), a.length_words]
    norm_num [WORDS, toNat]

/-- One word of a short right shift. What is handed down is the remainder of the words so far,
moved to the top of the next word. -/
lemma rshiftStep_spec {s : UInt32} (hs : s.toNat ≤ 32) (w : UInt32) {c : UInt32} {r : ℕ}
    (hc : c.toNat = r * 2 ^ (32 - s.toNat)) :
    (rshiftStep s w c).1.toNat = w.toNat % 2 ^ s.toNat * 2 ^ (32 - s.toNat) ∧
      (rshiftStep s w c).2.toNat = w.toNat / 2 ^ s.toNat + c.toNat := by
  have hw := UInt32.toNat_lt w
  have hsplit : 2 ^ s.toNat * 2 ^ (32 - s.toNat) = 2 ^ 32 := by
    rw [← pow_add, Nat.add_sub_cancel' hs]
  have hposs : 0 < 2 ^ s.toNat := Nat.two_pow_pos _
  have hpost : 0 < 2 ^ (32 - s.toNat) := Nat.two_pow_pos _
  -- the shifted word, as a number: `w` at the top of 64 bits, divided by `2 ^ s`
  have htemp : ((w.toUInt64 <<< 32) >>> s.toUInt64).toNat = w.toNat * 2 ^ (32 - s.toNat) := by
    have h32 : (32 : UInt64).toNat % 64 = 32 := rfl
    rw [UInt64.toNat_shiftRight, UInt64.toNat_shiftLeft, toNat_toUInt64,
      toNat_toUInt64, h32, mod_eq_of_lt (by omega : s.toNat < 64), shiftLeft_eq,
      mod_eq_of_lt (by omega), shiftRight_eq_div_pow, ← hsplit, mul_comm (2 ^ s.toNat),
      ← mul_assoc, Nat.mul_div_cancel _ hposs]
  have hquot : w.toNat * 2 ^ (32 - s.toNat) / 2 ^ 32 = w.toNat / 2 ^ s.toNat := by
    rw [← hsplit, Nat.mul_div_mul_right _ _ hpost]
  have hrem : w.toNat * 2 ^ (32 - s.toNat) % 2 ^ 32 =
      w.toNat % 2 ^ s.toNat * 2 ^ (32 - s.toNat) := by
    rw [← hsplit, mul_mod_mul_right]
  have hm : (0xffffffff : UInt64).toNat = 2 ^ 32 - 1 := rfl
  have hnew : ((((w.toUInt64 <<< 32) >>> s.toUInt64) >>> 32) &&& 0xffffffff).toUInt32.toNat =
      w.toNat / 2 ^ s.toNat := by
    have h32 : (32 : UInt64).toNat % 64 = 32 := rfl
    rw [toNat_toUInt32, toNat_and, UInt64.toNat_shiftRight, htemp, h32,
      shiftRight_eq_div_pow, hquot, hm, and_two_pow_sub_one_eq_mod, mod_mod]
    exact mod_eq_of_lt (lt_of_le_of_lt (Nat.div_le_self _ _) hw)
  unfold rshiftStep
  refine ⟨?_, ?_⟩
  · rw [toNat_toUInt32, toNat_and, htemp, hm, and_two_pow_sub_one_eq_mod, mod_mod, hrem]
  · -- the carry sits above the bits the word keeps, so the bitwise or is a sum
    have hlow : w.toNat / 2 ^ s.toNat < 2 ^ (32 - s.toNat) := by
      rw [Nat.div_lt_iff_lt_mul hposs, mul_comm, hsplit]
      exact hw
    rw [UInt32.toNat_or, hnew, hc, lor_comm, ← shiftLeft_eq,
      ← shiftLeft_add_eq_or_of_lt hlow, add_comm]

lemma beNat_rshift {s : UInt32} (hs : s.toNat ≤ 32) (ws : List UInt32) :
    beNat (2 ^ 32) ((longDiv (rshiftStep s) 0 ws).2.map UInt32.toNat) =
      beNat (2 ^ 32) (ws.map UInt32.toNat) / 2 ^ s.toNat := by
  have hsplit : 2 ^ s.toNat * 2 ^ (32 - s.toNat) = 2 ^ 32 := by
    rw [← pow_add, Nat.add_sub_cancel' hs]
  have hpost : 0 < 2 ^ (32 - s.toNat) := Nat.two_pow_pos _
  -- a carry stands for the remainder `carry / 2 ^ (32 - s)`
  let P : UInt32 → Prop := fun c => ∃ r < 2 ^ s.toNat, c.toNat = r * 2 ^ (32 - s.toNat)
  have hout : ∀ w c, P c → (rshiftStep s w c).1.toNat =
      w.toNat % 2 ^ s.toNat * 2 ^ (32 - s.toNat) := by
    rintro w c ⟨r, -, hc⟩
    exact (rshiftStep_spec hs w hc).1
  have h := longDiv_value (rshiftStep s) (2 ^ 32) (2 ^ s.toNat) UInt32.toNat
    (fun c => c.toNat / 2 ^ (32 - s.toNat)) UInt32.toNat P
    (fun w c hc => ⟨w.toNat % 2 ^ s.toNat, mod_lt _ (Nat.two_pow_pos _), hout w c hc⟩)
    (by
      rintro c ⟨r, hr, hc⟩
      simpa [hc, Nat.mul_div_cancel _ hpost] using hr)
    (by
      rintro w c ⟨r, -, hc⟩
      obtain ⟨h1, h2⟩ := rshiftStep_spec hs w hc
      simp only [h1, h2, hc, Nat.mul_div_cancel _ hpost]
      have := div_add_mod w.toNat (2 ^ s.toNat)
      calc r * 2 ^ 32 + w.toNat
          = r * (2 ^ s.toNat * 2 ^ (32 - s.toNat)) +
              (2 ^ s.toNat * (w.toNat / 2 ^ s.toNat) + w.toNat % 2 ^ s.toNat) := by
            rw [hsplit, this]
        _ = 2 ^ s.toNat * (w.toNat / 2 ^ s.toNat + r * 2 ^ (32 - s.toNat)) +
              w.toNat % 2 ^ s.toNat := by ring)
    (c := 0) ⟨0, Nat.two_pow_pos _, by simp⟩ ws
  rw [h]
  simp

lemma moveDown_toNat (a : ID) (k : ℕ) (hk : k ≤ WORDS) :
    (a.moveDown k hk).toNat = a.toNat / (2 ^ 32) ^ k := by
  have hsplit : a.toNat = beNat (2 ^ 32) ((a.words.take (WORDS - k)).map UInt32.toNat) *
      (2 ^ 32) ^ k + beNat (2 ^ 32) ((a.words.drop (WORDS - k)).map UInt32.toNat) := by
    conv_lhs =>
      rw [toNat, ← take_append_drop (WORDS - k) a.words, map_append, beNat_append]
    simp [a.length_words, Nat.sub_sub_self hk]
  have hdown : (a.moveDown k hk).toNat =
      beNat (2 ^ 32) ((a.words.take (WORDS - k)).map UInt32.toNat) := by
    rw [toNat, moveDown, map_append, beNat_append]
    simp
  have hlt := beNat_words_lt (a.words.drop (WORDS - k))
  rw [length_drop, a.length_words, Nat.sub_sub_self hk] at hlt
  rw [hsplit, hdown, mul_comm, mul_add_div (by positivity), div_eq_of_lt hlt, add_zero]

/-- **Right shift divides by `2 ^ s`, rounding down.** -/
theorem rshift_toNat (a : ID) (s : UInt32) : (a.rshift s).toNat = a.toNat / 2 ^ s.toNat := by
  unfold rshift
  split_ifs with h0 h160 h32
  · subst h0
    rw [show (0 : UInt32).toNat = 0 from rfl, pow_zero, Nat.div_one]
  · have hlt : a.toNat < 2 ^ s.toNat :=
      lt_of_lt_of_le a.toNat_lt (Nat.pow_le_pow_right (by norm_num) h160)
    rw [ZERO_toNat, div_eq_of_lt hlt]
  · have hlow := toNat_and_31 s
    have hlong := toNat_shiftRight_5 s
    have hshort := beNat_rshift (s := s &&& 0x1f) (by rw [hlow]; omega)
      (a.moveDown (s >>> 5).toNat (longShift_le h160)).words
    change beNat (2 ^ 32) _ = _
    rw [hshort]
    change (a.moveDown (s >>> 5).toNat (longShift_le h160)).toNat / _ = _
    rw [moveDown_toNat, Nat.div_div_eq_div_mul, hlow, hlong, ← pow_mul, ← pow_add, div_add_mod]
  · change beNat (2 ^ 32) _ = _
    rw [beNat_rshift (toNat_le_32 h32), toNat]

/-! ## The ring -/

/-- **Ring arithmetic.** The word loops of `ID.C` compute in the integers modulo `2 ^ 160`:
addition, directed distance, multiplication and division by a power of two, for every shift; and
going from `a` the distance from `a` to `b` leads to `b`. -/
theorem ring_arithmetic (a b : ID) (s : UInt32) :
    (a.add b).toNat = (a.toNat + b.toNat) % 2 ^ 160 ∧
      ((a.distance b).toNat : ℤ) = ((b.toNat : ℤ) - a.toNat) % 2 ^ 160 ∧
      (a.lshift s).toNat = a.toNat * 2 ^ s.toNat % 2 ^ 160 ∧
      (a.rshift s).toNat = a.toNat / 2 ^ s.toNat ∧
      a.add (a.distance b) = b := by
  refine ⟨a.add_toNat b, a.distance_toNat b, a.lshift_toNat s, a.rshift_toNat s, ?_⟩
  apply toNat_inj
  have hd := a.distance_toNat b
  have hb := b.toNat_lt
  rw [add_toNat]
  omega

end ID

end P2.Value
