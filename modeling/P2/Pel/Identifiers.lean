import Mathlib.Data.List.TakeWhile
import Mathlib.Data.Nat.ModEq
import P2.Pel.Oper

/-!
# Identifiers from text and from numbers

How a text of hexadecimal digits and an integer become an identifier: `idOfString_iff`,
`castID_iff`.
-/

namespace P2.Pel

open P2.Value P2.Lib.Ripple P2.Lib.Exec List Nat

/-! ## Hexadecimal texts -/

def isXDigit (c : UInt8) : Bool := (digitOf c).any (· < 16)

def hexDigitValue (c : UInt8) : ℕ := (digitOf c).getD 0

def hexValue (s : List UInt8) : ℕ := beNat 16 (s.map hexDigitValue)

section HexValue

variable {c : UInt8} {s t : List UInt8}

lemma isXDigit_iff : isXDigit c ↔ digitOf c = some (hexDigitValue c) ∧ hexDigitValue c < 16 := by
  unfold isXDigit hexDigitValue
  cases digitOf c with
  | none => simp
  | some d => simp

lemma hexValue_append (s t : List UInt8) :
    hexValue (s ++ t) = hexValue s * 16 ^ t.length + hexValue t := by
  unfold hexValue
  rw [map_append, beNat_append, length_map]

lemma hexValue_lt (hs : ∀ c ∈ s, isXDigit c) : hexValue s < 16 ^ s.length := by
  have h := beNat_lt (B := 16) (s.map hexDigitValue) (by
    intro d hd
    obtain ⟨c, hc, rfl⟩ := mem_map.mp hd
    exact (isXDigit_iff.mp (hs c hc)).2)
  rwa [length_map] at h

lemma hexValue_zeros (n : ℕ) : hexValue (replicate n 48) = 0 := by
  unfold hexValue
  rw [map_replicate]
  exact beNat_replicate_zero 16 n

lemma hexValue_zeros_append (n : ℕ) (s : List UInt8) :
    hexValue (replicate n 48 ++ s) = hexValue s := by
  rw [hexValue_append, hexValue_zeros, zero_mul, zero_add]

lemma isXDigit_zero : isXDigit 48 := rfl

lemma le_of_isXDigit (hc : isXDigit c) : 48 ≤ c := by
  by_contra hlt
  have hnone : digitOf c = none := by
    unfold digitOf
    rw [if_neg fun h => hlt h.1, if_neg fun h => hlt (UInt8.le_trans (by decide) h.1),
      if_neg fun h => hlt (UInt8.le_trans (by decide) h.1)]
  unfold isXDigit at hc
  rw [hnone] at hc
  cases hc

lemma ne_of_isXDigit (hc : isXDigit c) :
    c ≠ 0 ∧ c ≠ 32 ∧ ¬ (9 ≤ c ∧ c ≤ 13) ∧ c ≠ 45 ∧ c ≠ 43 ∧ c ≠ 120 ∧ c ≠ 88 := by
  have hle := le_of_isXDigit hc
  refine ⟨?_, ?_, fun h => absurd (UInt8.le_trans hle h.2) (by decide), ?_, ?_, ?_, ?_⟩
  all_goals
    rintro rfl
    cases hc

end HexValue

/-! ## The constructor -/

section Constructor

variable {s : List UInt8}

lemma hexNumber_of_hex (hs : ∀ c ∈ s, isXDigit c) (n : ℕ) :
    hexNumber s n = (n * 16 ^ s.length + hexValue s, []) := by
  induction s generalizing n with
  | nil => simp [hexNumber, hexValue]
  | cons c s ih =>
    rw [forall_mem_cons] at hs
    obtain ⟨hdigit, hlt⟩ := isXDigit_iff.mp hs.1
    have hvalue : hexValue (c :: s) = hexDigitValue c * 16 ^ s.length + hexValue s := by
      unfold hexValue
      rw [map_cons, beNat_cons, length_map]
    simp only [hexNumber, hdigit, if_pos hlt]
    rw [ih hs.2, hvalue, length_cons]
    ring_nf

lemma strtoull16_of_hex (hne : s ≠ []) (hs : ∀ c ∈ s, isXDigit c) :
    strtoull16 s = (hexValue s, []) := by
  obtain ⟨c, cs, rfl⟩ := exists_cons_of_ne_nil hne
  rw [forall_mem_cons] at hs
  obtain ⟨-, hblank, hspace, hminus, hplus, -⟩ := ne_of_isXDigit hs.1
  have hdrop : (c :: cs).dropWhile (fun c => c == 32 || (9 ≤ c && c ≤ 13)) = c :: cs := by
    simpa [hblank] using hspace
  unfold strtoull16
  simp only [hdrop]
  have hread : hexNumber (c :: cs) 0 = (hexValue (c :: cs), []) := by
    rw [hexNumber_of_hex (forall_mem_cons.mpr hs), zero_mul, zero_add]
  have hhead : Option.any (fun x => decide (x < 16)) (digitOf c) := hs.1
  simp only [hminus, hplus, List.cons.injEq, false_and, imp_self, implies_true]
  split
  next x r heq =>
    -- the character behind a leading zero is a digit too, and so not the `x` of a radix
    obtain ⟨rfl, rfl⟩ := List.cons.inj heq
    obtain ⟨-, -, -, -, -, hx, hX⟩ := ne_of_isXDigit (hs.2 x mem_cons_self)
    simp [hx, hX, hread, digitOf]
  next =>
    simp [hhead, hread]

lemma hexWord_of_hex (hne : s ≠ []) (hs : ∀ c ∈ s, isXDigit c) (n : ℕ) :
    hexWord (n + 1) s = (UInt32.ofNat (hexValue s), true) := by
  unfold hexWord
  rw [strtoull16_of_hex hne hs]

lemma hexWords_value (n : ℕ) (hlength : s.length = 8 * n) (hs : ∀ c ∈ s, isXDigit c) :
    beNat (2 ^ 32) ((hexWords n s).map UInt32.toNat) = hexValue s := by
  induction n generalizing s with
  | zero =>
    rw [length_eq_zero_iff.mp hlength]
    rfl
  | succ n ih =>
    have hlast : (s.drop (8 * n)).length = 8 := by
      rw [length_drop]
      omega
    have hlastHex : ∀ c ∈ s.drop (8 * n), isXDigit c := fun c hc => hs c (mem_of_mem_drop hc)
    have hnul : (s.drop (8 * n)).takeWhile (· != 0) = s.drop (8 * n) := by
      apply takeWhile_eq_self_iff.mpr
      intro c hc
      simpa using (ne_of_isXDigit (hlastHex c hc)).1
    have hlt := hexValue_lt hlastHex
    rw [hlast] at hlt
    have hword : (UInt32.ofNat (hexValue (s.drop (8 * n)))).toNat = hexValue (s.drop (8 * n)) := by
      rw [UInt32.toNat_ofNat', mod_eq_of_lt (by omega)]
    have hfirst := ih (s := s.take (8 * n)) (by rw [length_take]; omega)
      fun c hc => hs c (mem_of_mem_take hc)
    unfold hexWords
    rw [hnul, hexWord_of_hex (ne_nil_of_length_pos (by omega)) hlastHex]
    simp only [if_true, map_append, map_cons, map_nil]
    rw [beNat_append, hfirst, hword]
    conv_rhs => rw [← take_append_drop (8 * n) s, hexValue_append, hlast]
    simp [beNat_cons]

/-- **What the constructor makes of a text.** The number, modulo `2 ^ 160`, of the digits before the
position that the length gives as an `unsigned`. -/
lemma toNat_idOfString (hs : ∀ c ∈ s, isXDigit c) :
    (idOfString s).toNat = hexValue (s.take (s.length % 2 ^ 32)) % 2 ^ 160 := by
  have hpow : (16 : ℕ) ^ 40 = 2 ^ 160 := by norm_num
  have hle : s.length % 2 ^ 32 ≤ s.length := mod_le _ _
  generalize hposition : s.length % 2 ^ 32 = position at hle ⊢
  have hwords : (idOfString s).toNat = beNat (2 ^ 32) ((hexWords WORDS
      ((if WORDS * 8 < position then s.drop (position - WORDS * 8)
        else replicate (WORDS * 8 - position) 48 ++ s).take (WORDS * 8))).map UInt32.toNat) := by
    subst hposition
    rfl
  rw [hwords]
  split_ifs with hlong
  · have hlong' : 40 < position := hlong
    -- the digits that are kept, and those in front of them
    have hkept : s.take position = s.take (position - 40) ++ (s.drop (position - 40)).take 40 := by
      rw [← take_add]
      congr 1
      omega
    have hlength : ((s.drop (position - 40)).take 40).length = 40 := by
      rw [length_take, length_drop]
      omega
    have hhex : ∀ c ∈ (s.drop (position - 40)).take 40, isXDigit c := fun c hc =>
      hs c (mem_of_mem_drop (mem_of_mem_take hc))
    have hlt := hexValue_lt hhex
    rw [hlength, hpow] at hlt
    rw [hkept, hexValue_append, hlength, hpow, mul_add_mod', mod_eq_of_lt hlt]
    exact hexWords_value WORDS hlength hhex
  · have hshort : position ≤ 40 := Nat.le_of_not_lt hlong
    have hpadded : (replicate (WORDS * 8 - position) 48 ++ s).take (WORDS * 8) =
        replicate (WORDS * 8 - position) 48 ++ s.take position := by
      rw [take_append, take_of_length_le (by simp), length_replicate]
      congr 2
      show 40 - (40 - position) = position
      omega
    have hhex : ∀ c ∈ s.take position, isXDigit c := fun c hc => hs c (mem_of_mem_take hc)
    have hlt := hexValue_lt hhex
    rw [hpadded, hexWords_value, hexValue_zeros_append, mod_eq_of_lt]
    · refine hlt.trans_le ?_
      rw [← hpow]
      apply Nat.pow_le_pow_right (by norm_num)
      rw [length_take]
      omega
    · rw [length_append, length_replicate, length_take]
      omega
    · intro c hc
      rcases mem_append.mp hc with hc | hc
      · rw [eq_of_mem_replicate hc]
        exact isXDigit_zero
      · exact hhex c hc

end Constructor

/-! ## Identifiers as text -/

/-- `ID::toConfString`, with the body of `ID::toString`. -/
def toConfString (i : Value.ID) : List UInt8 := idText i

lemma digitOf_hexDigit : ∀ d < 16, digitOf (hexDigit d) = some d := by decide

lemma hex_spec (width n : ℕ) : (hex width n).length = width ∧ (∀ c ∈ hex width n, isXDigit c) ∧
    hexValue (hex width n) = n % 16 ^ width := by
  induction width generalizing n with
  | zero => simp [hex, hexValue, mod_one]
  | succ width ih =>
    obtain ⟨hlength, hdigits, hvalue⟩ := ih (n / 16)
    have hdigit := digitOf_hexDigit (n % 16) (mod_lt _ (by norm_num))
    have hlast : hexDigitValue (hexDigit (n % 16)) = n % 16 := by
      unfold hexDigitValue
      rw [hdigit]
      rfl
    unfold hex
    refine ⟨by simp [hlength], ?_, ?_⟩
    · intro c hc
      rcases mem_append.mp hc with hc | hc
      · exact hdigits c hc
      · rw [mem_singleton.mp hc]
        apply isXDigit_iff.mpr
        rw [hlast]
        exact ⟨hdigit, mod_lt _ (by norm_num)⟩
    · rw [hexValue_append, hvalue]
      have hone : hexValue [hexDigit (n % 16)] = n % 16 := by
        simp [hexValue, beNat_cons, hlast]
      rw [hone, length_singleton, pow_one, pow_succ, mul_comm (16 ^ width), mod_mul]
      ring

lemma hexText_spec (words : List UInt32) :
    (words.flatMap fun w => hex 8 w.toNat).length = 8 * words.length ∧
      (∀ c ∈ words.flatMap fun w => hex 8 w.toNat, isXDigit c) ∧
      hexValue (words.flatMap fun w => hex 8 w.toNat) = beNat (2 ^ 32) (words.map UInt32.toNat) := by
  induction words with
  | nil => simp [hexValue]
  | cons w words ih =>
    obtain ⟨hlength, hdigits, hvalue⟩ := ih
    obtain ⟨hlength', hdigits', hvalue'⟩ := hex_spec 8 w.toNat
    have hword : w.toNat % 16 ^ 8 = w.toNat := mod_eq_of_lt (UInt32.toNat_lt w)
    have hpow : (16 : ℕ) ^ (8 * words.length) = (2 ^ 32) ^ words.length := by
      rw [pow_mul]
      norm_num
    rw [flatMap_cons]
    refine ⟨?_, ?_, ?_⟩
    · rw [length_append, hlength, hlength', length_cons]
      ring
    · intro c hc
      rcases mem_append.mp hc with hc | hc
      · exact hdigits' c hc
      · exact hdigits c hc
    · rw [hexValue_append, hvalue, hvalue', hword, hlength, hpow, map_cons, beNat_cons, length_map]

lemma idOfString_toConfString (x : Value.ID) :
    idOfString ((toConfString x).drop 2).dropLast = x := by
  have hstrip : ((toConfString x).drop 2).dropLast = x.words.flatMap fun w => hex 8 w.toNat := by
    exact dropLast_concat
  obtain ⟨hlength, hdigits, hvalue⟩ := hexText_spec x.words
  rw [x.length_words] at hlength
  rw [hstrip]
  apply Value.ID.toNat_inj
  rw [toNat_idOfString hdigits, hlength, take_of_length_le (by rw [hlength]; decide), hvalue]
  exact mod_eq_of_lt x.toNat_lt

/-- **Hexadecimal texts as identifiers.** A text of hexadecimal digits becomes the identifier of its
number modulo `2 ^ 160` if its length fits an `unsigned`, and otherwise only if the digits up to the
truncated length denote the same number. What `toConfString` writes between `0x` and `I` is read
back.
Hyps: the text has digits only -/
theorem idOfString_iff (s : List UInt8) (hs : ∀ c ∈ s, isXDigit c) :
    ((idOfString s).toNat = hexValue s % 2 ^ 160 ↔ s.length < 2 ^ 32 ∨
      hexValue (s.take (s.length % 2 ^ 32)) ≡ hexValue s [MOD 2 ^ 160]) ∧
    ∀ x : Value.ID, idOfString ((toConfString x).drop 2).dropLast = x := by
  refine ⟨?_, ?_⟩
  · rw [toNat_idOfString hs]
    refine ⟨Or.inr, ?_⟩
    rintro (hlength | hsame)
    · rw [Nat.mod_eq_of_lt hlength, take_length]
    · exact hsame
  · exact idOfString_toConfString

theorem idOfString_iff_2A : (idOfString [50, 65]).toNat = 42 :=
  ((idOfString_iff [50, 65] (all_eq_true.mp rfl)).1.mpr (Or.inl (by decide))).trans rfl

lemma isXDigit_one_zeros (n : ℕ) : ∀ c ∈ 49 :: replicate n 48, isXDigit c := by
  intro c hc
  rcases mem_cons.mp hc with rfl | hc
  · rfl
  · rw [eq_of_mem_replicate hc]
    exact isXDigit_zero

lemma idOfString_one_zeros {n : ℕ} (hn : 40 ≤ n) (hwrap : n % 2 ^ 32 = 0) :
    (idOfString (49 :: replicate n 48)).toNat = 1 ∧
      hexValue (49 :: replicate n 48) % 2 ^ 160 = 0 := by
  have hlength : (49 :: replicate n (48 : UInt8)).length % 2 ^ 32 = 1 := by
    rw [length_cons, length_replicate]
    omega
  refine ⟨?_, ?_⟩
  · rw [toNat_idOfString (isXDigit_one_zeros n), hlength]
    rfl
  · have hvalue : hexValue (49 :: replicate n 48) = 16 ^ n := by
      have happend := hexValue_append [49] (replicate n 48)
      exact happend.trans (by simp [hexValue, beNat_cons, hexDigitValue, digitOf])
    have hdvd : 2 ^ 160 ∣ 16 ^ n := by
      have hpow : (2 : ℕ) ^ 160 = 16 ^ 40 := by norm_num
      rw [hpow]
      exact pow_dvd_pow 16 hn
    rw [hvalue]
    exact mod_eq_zero_of_dvd hdvd

/-- A one followed by `2 ^ 32` zeros: the length is taken for 1, and the identifier is 1 where the
last forty digits are zeros. -/
theorem idOfString_long : ∃ s, s ≠ [] ∧ (∀ c ∈ s, isXDigit c) ∧
    (idOfString s).toNat = 1 ∧ hexValue s % 2 ^ 160 = 0 := by
  exact ⟨49 :: replicate (2 ^ 32) 48, cons_ne_nil _ _, isXDigit_one_zeros _,
    idOfString_one_zeros (by norm_num) (by norm_num)⟩

/-! ## Integers as identifiers -/

lemma toNat_idOfWord (w : UInt32) : (idOfWord w).toNat = w.toNat := by
  simp [idOfWord, Value.ID.toNat, beNat_cons]

section Integers

variable {n : Int64}

lemma toNat_toUInt32 (hn : 0 ≤ n) : n.toUInt64.toUInt32.toNat = n.toInt.toNat % 2 ^ 32 := by
  have hnonneg : 0 ≤ n.toBitVec.toInt := Int64.le_iff_toInt_le.mp hn
  have hbits : n.toBitVec.toInt = n.toBitVec.toNat :=
    BitVec.toInt_eq_toNat_of_lt (by have := BitVec.toInt_eq_toNat_cond n.toBitVec; omega)
  have hnat : n.toUInt64.toNat = n.toInt.toNat := congrArg Int.toNat hbits.symm
  rw [UInt64.toNat_toUInt32, hnat]

lemma castID_int64 (hn : 0 ≤ n) :
    castID (some (.int64 n)) = .ok (idOfWord n.toUInt64.toUInt32) := by
  exact if_neg (Int64.not_lt.mpr hn)

lemma opr_id_int64 (host : Host) (hn : 0 ≤ n) (x : Value.ID) (s : State) :
    Opr.plus host (some (.id x)) (some (.int64 n)) s =
        .ok (some (.id (x.add (idOfWord n.toUInt64.toUInt32)))) s ∧
      Opr.lshift (some (.id x)) (some (.int64 n)) s =
        .ok (some (.id (x.lshift n.toUInt64.toUInt32))) s ∧
      Opr.rshift (some (.id x)) (some (.int64 n)) s =
        .ok (some (.id (x.rshift n.toUInt64.toUInt32))) s := by
  refine ⟨?_, rfl, rfl⟩
  have hclass : rowOf (some (.id x)) = some .id := rfl
  unfold Opr.plus
  rw [dispatch_eq hclass (Option.some_ne_none _)]
  simp only [_plus, idOp, read]
  rw [castID_int64 hn]
  rfl

end Integers

/-- **Integers as identifiers.** A non-negative integer keeps its value as an identifier, as a
summand of one and as a shift count exactly if it is below `2 ^ 32`.
Hyps: the integer is not negative -/
theorem castID_iff (host : Host) (n : Int64) (hn : 0 ≤ n) (x : Value.ID) (s : State) :
    ((∃ i, castID (some (.int64 n)) = .ok i ∧ i.toNat = n.toInt.toNat) ∧
      (∃ i, Opr.plus host (some (.id x)) (some (.int64 n)) s = .ok (some (.id i)) s ∧
        i.toNat = (x.toNat + n.toInt.toNat) % 2 ^ 160) ∧
      (∃ i, Opr.lshift (some (.id x)) (some (.int64 n)) s = .ok (some (.id i)) s ∧
        i.toNat = x.toNat * 2 ^ n.toInt.toNat % 2 ^ 160) ∧
      ∃ i, Opr.rshift (some (.id x)) (some (.int64 n)) s = .ok (some (.id i)) s ∧
        i.toNat = x.toNat / 2 ^ n.toInt.toNat) ↔
    n.toInt < 2 ^ 32 := by
  obtain ⟨hplus, hlshift, hrshift⟩ := opr_id_int64 host hn x s
  have hword := toNat_toUInt32 hn
  constructor
  · rintro ⟨⟨i, hcast, hi⟩, -⟩
    rw [castID_int64 hn] at hcast
    rw [← Except.ok.inj hcast, toNat_idOfWord, hword] at hi
    omega
  · intro hsmall
    have hvalue : n.toUInt64.toUInt32.toNat = n.toInt.toNat := by
      omega
    refine ⟨⟨_, castID_int64 hn, ?_⟩, ⟨_, hplus, ?_⟩, ⟨_, hlshift, ?_⟩, ⟨_, hrshift, ?_⟩⟩
    · rw [toNat_idOfWord, hvalue]
    · rw [Value.ID.add_toNat, toNat_idOfWord, hvalue]
    · rw [Value.ID.lshift_toNat, hvalue]
    · rw [Value.ID.rshift_toNat, hvalue]

def emptyState : State := ⟨⟨[], [], [], [], []⟩, [], .PE_SUCCESS, none, 0⟩

theorem castID_iff_five : ∃ i, Opr.plus sampleHost (some (.id Value.ID.ONE)) (some (.int64 5))
    emptyState = .ok (some (.id i)) emptyState ∧ i.toNat = 6 :=
  ((castID_iff sampleHost 5 (by decide) Value.ID.ONE emptyState).mpr (by decide)).2.1

/-- The integer `2 ^ 32` becomes the identifier 0, adding it changes nothing, and so does shifting
by it. -/
theorem castID_truncates :
    castID (some (.int64 4294967296)) = .ok (idOfWord 0) ∧
      Opr.plus sampleHost (some (.id Value.ID.ONE)) (some (.int64 4294967296)) emptyState =
        .ok (some (.id Value.ID.ONE)) emptyState ∧
      Opr.lshift (some (.id Value.ID.ONE)) (some (.int64 4294967296)) emptyState =
        .ok (some (.id Value.ID.ONE)) emptyState ∧
      Opr.rshift (some (.id Value.ID.ONE)) (some (.int64 4294967296)) emptyState =
        .ok (some (.id Value.ID.ONE)) emptyState :=
  ⟨rfl, rfl, rfl, rfl⟩

end P2.Pel
