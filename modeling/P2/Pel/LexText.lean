import Mathlib.Data.List.Forall2
import Mathlib.Data.List.TakeWhile
import Mathlib.Tactic.FinCases
import Mathlib.Tactic.IntervalCases
import P2.Pel.Lexer

/-!
# Compiling a text word by word

A generator of programs writes mnemonics, fields and integers with a blank between two of them:
`compile_joined_iff`.
-/

namespace P2.Pel

open P2.Value P2.Lib List LexRule

/-! ## Numerals -/

def numeral (n : ℕ) : List UInt8 := (Nat.toDigits 10 n).map fun c => UInt8.ofNat c.toNat

section Numerals

variable {n : ℕ} {c : Char}

lemma toNat_ofNat_of_isDigit (hc : c.isDigit = true) :
    (UInt8.ofNat c.toNat).toNat = c.toNat ∧ 48 ≤ c.toNat ∧ c.toNat ≤ 57 := by
  obtain ⟨hlow, hhigh⟩ := Char.isDigit_iff_toNat.mp hc
  have hlow : 48 ≤ c.toNat := hlow
  have hhigh : c.toNat ≤ 57 := hhigh
  refine ⟨?_, hlow, hhigh⟩
  rw [UInt8.toNat_ofNat']
  omega

lemma isDigit_ofNat (hc : c.isDigit = true) : isDigit (UInt8.ofNat c.toNat) = true := by
  obtain ⟨heq, hlow, hhigh⟩ := toNat_ofNat_of_isDigit hc
  unfold isDigit
  rw [Bool.and_eq_true, decide_eq_true_eq, decide_eq_true_eq, UInt8.le_iff_toNat_le,
    UInt8.le_iff_toNat_le, heq]
  exact ⟨hlow, hhigh⟩

lemma digitOf_ofNat (hc : c.isDigit = true) :
    digitOf (UInt8.ofNat c.toNat) = some (c.toNat - 48) := by
  obtain ⟨heq, hlow, hhigh⟩ := toNat_ofNat_of_isDigit hc
  unfold digitOf
  rw [if_pos, heq]
  rw [UInt8.le_iff_toNat_le, UInt8.le_iff_toNat_le, heq]
  exact ⟨hlow, hhigh⟩

lemma numeral_all_isDigit : ∀ b ∈ numeral n, isDigit b = true := by
  intro b hb
  obtain ⟨c, hc, rfl⟩ := mem_map.mp hb
  exact isDigit_ofNat (Nat.isDigit_of_mem_toDigits (by decide) le_rfl hc)

lemma numeral_eq_if : numeral n = if n < 10 then [UInt8.ofNat (Nat.digitChar n).toNat]
    else numeral (n / 10) ++ [UInt8.ofNat (Nat.digitChar (n % 10)).toNat] := by
  unfold numeral
  rw [Nat.toDigits_eq_if (by decide)]
  split_ifs
  · rfl
  · rw [map_append]
    rfl

lemma digits_ofNat {cs : List Char} (hcs : ∀ c ∈ cs, c.isDigit = true) {n : ℕ} :
    digits 10 (cs.map fun c => UInt8.ofNat c.toNat) n = Nat.ofDigitChars 10 cs n := by
  induction cs generalizing n with
  | nil => rfl
  | cons c cs ih =>
    obtain ⟨-, hlow, hhigh⟩ := toNat_ofNat_of_isDigit (hcs c mem_cons_self)
    rw [map_cons, digits, digitOf_ofNat (hcs c mem_cons_self)]
    simp only
    rw [if_pos (by omega), ih fun c hc => hcs c (mem_cons_of_mem _ hc), Nat.mul_comm n]
    rfl

lemma digits_numeral : digits 10 (numeral n) 0 = n := by
  unfold numeral
  rw [digits_ofNat fun c hc => Nat.isDigit_of_mem_toDigits (by decide) le_rfl hc,
    Nat.ofDigitChars_toDigits (by decide) le_rfl]

lemma numeral_head (n : ℕ) : ∃ d s, numeral n = d :: s ∧ isDigit d = true ∧ (d = 48 → s = []) := by
  -- a numeral grows at its end, so its head is that of the number divided by ten
  induction n using Nat.strong_induction_on with
  | _ n ih =>
    have hall : ∀ b ∈ numeral n, isDigit b = true := numeral_all_isDigit
    rw [numeral_eq_if] at hall ⊢
    split_ifs at hall ⊢ with hn
    · exact ⟨_, [], rfl, hall _ mem_cons_self, fun _ => rfl⟩
    · obtain ⟨d, s, heq, hd, hzero⟩ := ih (n / 10) (by omega)
      refine ⟨d, s ++ [UInt8.ofNat (Nat.digitChar (n % 10)).toNat], by rw [heq]; rfl, hd, ?_⟩
      rintro rfl
      have hvalue : digits 10 (numeral (n / 10)) 0 = n / 10 := digits_numeral
      rw [heq, hzero rfl, show digits 10 [48] 0 = 0 from rfl] at hvalue
      omega

lemma mem_of_isDigit {d : UInt8} (hd : isDigit d = true) :
    d ∈ ([48, 49, 50, 51, 52, 53, 54, 55, 56, 57] : List UInt8) := by
  unfold isDigit at hd
  rw [Bool.and_eq_true, decide_eq_true_eq, decide_eq_true_eq, UInt8.le_iff_toNat_le,
    UInt8.le_iff_toNat_le] at hd
  obtain ⟨hlow, hhigh⟩ := hd
  have hlow : 48 ≤ d.toNat := hlow
  have hhigh : d.toNat ≤ 57 := hhigh
  rw [← UInt8.ofNat_toNat (x := d)]
  interval_cases d.toNat <;> decide

lemma strtoll_numeral :
    strtoll (numeral n) = Int64.ofInt (max (-2 ^ 63) (min (2 ^ 63 - 1) (n : ℤ))) ∧
    strtoll (45 :: numeral n) = Int64.ofInt (max (-2 ^ 63) (min (2 ^ 63 - 1) (-(n : ℤ)))) := by
  obtain ⟨d, s, heq, hd, hzero⟩ := numeral_head n
  have hvalue := digits_numeral (n := n)
  rw [heq] at hvalue ⊢
  -- only behind a leading zero would the digits be octal
  have hmem := mem_of_isDigit hd
  rw [mem_cons] at hmem
  rcases hmem with rfl | hmem
  · obtain rfl := hzero rfl
    subst hvalue
    decide
  · rw [← hvalue]
    fin_cases hmem <;> exact ⟨rfl, rfl⟩

lemma decimal_eq (i : Int64) :
    decimal i = (if i < 0 then [45] else []) ++ numeral i.toInt.natAbs := rfl

lemma strtoll_decimal (i : Int64) : strtoll (decimal i) = i := by
  have hlow := i.le_toInt
  have hhigh := i.toInt_lt
  obtain ⟨hpos, hneg⟩ := strtoll_numeral (n := i.toInt.natAbs)
  rw [decimal_eq]
  split_ifs with hi
  · rw [Int64.lt_iff_toInt_lt] at hi
    have hi : i.toInt < 0 := hi
    rw [singleton_append, hneg, show -(i.toInt.natAbs : ℤ) = i.toInt by omega,
      min_eq_right (by omega), max_eq_right (by omega), Int64.ofInt_toInt]
  · rw [Int64.lt_iff_toInt_lt] at hi
    have hi : ¬ i.toInt < 0 := hi
    rw [nil_append, hpos, show (i.toInt.natAbs : ℤ) = i.toInt by omega,
      min_eq_right (by omega), max_eq_right (by omega), Int64.ofInt_toInt]

lemma toNat_strtoll_numeral (hn : n < 65536) : (strtoll (numeral n)).toUInt64.toNat = n := by
  rw [strtoll_numeral.1, min_eq_right (by omega), max_eq_right (by omega)]
  have hint : (Int64.ofInt (n : ℤ)).toUInt64 = UInt64.ofNat n := Int64.toUInt64_ofNat'
  rw [hint, UInt64.toNat_ofNat']
  omega

end Numerals

/-! ## Words -/

/-- What a generator writes: the mnemonic of an opcode, a field, an integer. -/
inductive Word where
  | mnemonic (code : ℕ)
  | field (n : ℕ)
  | integer (i : Int64)

def Word.text : Word → List UInt8
  | .mnemonic code => ((jump_table[code]?).map fun e => ascii e.opcode).getD []
  | .field n => 36 :: numeral n
  | .integer i => decimal i

def Word.token : Word → Token
  | .mnemonic code => .opcode code
  | .field n => .load n
  | .integer i => .const (.obj (.int64 i))

/-- The mnemonic is one of the table, the number of the field fits into an instruction. -/
def Word.Valid : Word → Prop
  | .mnemonic code => ∃ e, jump_table[code]? = some e ∧ e.opcode ≠ ""
  | .field n => n < 65536
  | .integer _ => True

/-- What the rules that match beyond the end of a word need to know about it. -/
structure Fits (w : List UInt8) : Prop where
  ne_nil : w ≠ []
  solid : ∀ c ∈ w, isSpace c = false ∧ c ≠ 0
  head : ∀ c ∈ w.head?, c ∉ ([34, 35, 39, 123] : List UInt8)
  slash : w.head? = some 47 → w = [47]
  less : w.head? = some 60 → (62 : UInt8) ∉ w

def fits (w : List UInt8) : Bool :=
  w != [] && (w.all fun c => !isSpace c && c != 0) &&
    (w.head?.all fun c => !([34, 35, 39, 123] : List UInt8).contains c) &&
    (w.head? != some 47 || w == [47]) && (w.head? != some 60 || !w.contains 62)

lemma fits_iff {w : List UInt8} : fits w = true ↔ Fits w := by
  unfold fits
  simp only [Bool.and_eq_true, all_eq_true, Option.all_eq_true, Bool.not_eq_true', bne_iff_ne,
    Bool.or_eq_true, beq_iff_eq, contains_eq_mem, decide_eq_false_iff_not, or_iff_not_imp_left,
    not_not]
  exact ⟨fun ⟨⟨⟨⟨hne, hsolid⟩, hhead⟩, hslash⟩, hless⟩ => ⟨hne, hsolid, hhead, hslash, hless⟩,
    fun h => ⟨⟨⟨⟨h.ne_nil, h.solid⟩, h.head⟩, h.slash⟩, h.less⟩⟩

section Table

lemma checked_jump_table :
    (jump_table.zipIdx.all fun (e, code) => e.opcode.isEmpty || (fits (ascii e.opcode) &&
      (lexRules.dropLast.all fun rule => !rule.matchesWord (ascii e.opcode)) &&
      mnemonicCode (ascii e.opcode) == some code)) = true := by
  decide +kernel

lemma fits_jump_table {code : ℕ} {e : JumpTableEnt} (he : jump_table[code]? = some e)
    (hne : e.opcode ≠ "") : Fits (ascii e.opcode) ∧
      (∀ rule ∈ lexRules.dropLast, rule.matchesWord (ascii e.opcode) = false) ∧
      mnemonicCode (ascii e.opcode) = some code := by
  have hcheck := all_eq_true.mp checked_jump_table (e, code)
    (mk_mem_zipIdx_iff_getElem?.mpr he)
  simp only [Bool.or_eq_true, String.isEmpty_iff, Bool.and_eq_true, fits_iff, all_eq_true,
    Bool.not_eq_true', beq_iff_eq, and_assoc] at hcheck
  exact hcheck.resolve_left hne

lemma wordRule_mnemonic {w : List UInt8}
    (hw : ∀ rule ∈ lexRules.dropLast, rule.matchesWord w = false) :
    wordRule w = some .mnemonic := by
  refine List.find?_eq_some_iff_append.mpr ⟨rfl, lexRules.dropLast, [], rfl, fun rule hrule => ?_⟩
  rw [hw rule hrule]
  rfl

end Table

section Spans

variable {w rest : List UInt8}

lemma unspanned_of_fits (hfits : Fits w) (hend : WordEnd rest)
    (hless : w.head? = some 60 → (62 : UInt8) ∉ rest) : Unspanned (w ++ rest) := by
  obtain ⟨hne, hsolid, hhead, hslash, hinside⟩ := hfits
  obtain ⟨c, s, rfl⟩ := exists_cons_of_ne_nil hne
  have hblank := isBlank_of_isSpace (hsolid c mem_cons_self).1
  have hplain := hhead c rfl
  -- a slash stands alone, so nothing that begins a comment follows it
  have hcomment {x : UInt8} {t : List UInt8} (hx : x ≠ 32) : (c :: s) ++ rest ≠ 47 :: x :: t := by
    intro heq
    obtain ⟨rfl, htail⟩ := cons.inj heq
    obtain ⟨-, rfl⟩ := cons.inj (hslash rfl)
    rcases hend with rfl | ⟨r, rfl⟩
    · exact cons_ne_nil x t htail.symm
    · exact hx (cons.inj htail).1.symm
  have hquoted {x : UInt8} {t : List UInt8} (hx : x ∈ ([34, 35, 39, 123] : List UInt8)) :
      (c :: s) ++ rest ≠ x :: t := by
    intro heq
    obtain ⟨rfl, -⟩ := cons.inj heq
    exact hplain hx
  intro bol rule hrule
  cases rule with
  | blanks =>
    simp only [matchLength]
    rw [cons_append, takeWhile_cons_of_neg (by rw [hblank]; decide)]
    rfl
  | lineComment | comment =>
    simp only [matchLength]
    split
    · exact absurd ‹_› (hcomment (by decide))
    · rfl
  | vector =>
    simp only [matchLength]
    split
    · rename_i t heq
      obtain ⟨rfl, rfl⟩ := cons.inj heq
      unfold toLast
      rw [if_neg]
      · rfl
      · intro hmem
        rcases mem_append.mp ((takeWhile_sublist _).mem hmem) with hmem | hmem
        · exact hinside rfl (mem_cons_of_mem _ hmem)
        · exact hless rfl hmem
    · rfl
  | directive | escapedCharacter | character | doubleQuoted | singleQuoted | matrix =>
    simp only [matchLength]
    split
    · exact absurd ‹_› (hquoted (by decide))
    · rfl
  | unsignedInteger | integer | identifier | double | null | field | mnemonic => rfl

end Spans

namespace Word

variable {host : Host} {w : Word}

lemma solid_of_isDigit {c : UInt8} (hc : isDigit c = true) : isSpace c = false ∧ c ≠ 0 := by
  have hmem := mem_of_isDigit hc
  fin_cases hmem <;> decide

lemma fits_numeral (n : ℕ) : Fits (numeral n) := by
  obtain ⟨d, s, heq, hd, -⟩ := numeral_head n
  refine ⟨by rw [heq]; exact cons_ne_nil d s,
    fun c hc => solid_of_isDigit (numeral_all_isDigit c hc), ?_, ?_, ?_⟩
  · rw [heq]
    rintro c ⟨⟩
    have hmem := mem_of_isDigit hd
    fin_cases hmem <;> decide
  all_goals
    rw [heq]
    rintro ⟨⟩
    cases hd

lemma fits_cons {c : UInt8} {s : List UInt8} (hs : Fits s) (hc : isSpace c = false ∧ c ≠ 0)
    (hhead : c ∉ ([34, 35, 39, 123, 47, 60] : List UInt8)) : Fits (c :: s) := by
  refine ⟨cons_ne_nil c s, ?_, ?_, ?_, ?_⟩
  · intro x hx
    rcases mem_cons.mp hx with rfl | hx
    · exact hc
    · exact hs.solid x hx
  · rintro x ⟨⟩
    exact fun hmem => hhead (mem_append_left [47, 60] hmem)
  · rintro ⟨⟩
    exact absurd (by decide) hhead
  · rintro ⟨⟩
    exact absurd (by decide) hhead

lemma text_mnemonic {code : ℕ} {e : JumpTableEnt} (he : jump_table[code]? = some e) :
    (mnemonic code).text = ascii e.opcode := by
  simp [text, he]

lemma fits_text (hw : w.Valid) : Fits w.text := by
  cases w with
  | mnemonic code =>
    obtain ⟨e, he, hne⟩ := hw
    rw [text_mnemonic he]
    exact (fits_jump_table he hne).1
  | field n => exact fits_cons (fits_numeral n) (by decide) (by decide)
  | integer i =>
    show Fits (decimal i)
    rw [decimal_eq]
    split_ifs
    · exact fits_cons (fits_numeral _) (by decide) (by decide)
    · exact fits_numeral _

lemma isDigits_numeral (n : ℕ) : isDigits (numeral n) = true := by
  unfold isDigits
  rw [Bool.and_eq_true, bne_iff_ne, all_eq_true]
  exact ⟨(fits_numeral n).ne_nil, fun c hc => numeral_all_isDigit c hc⟩

lemma getLast?_beq_eq_false {x : UInt8} {s : List UInt8} (hx : x ∉ s) :
    (s.getLast? == some x) = false := by
  rw [beq_eq_false_iff_ne]
  exact fun heq => hx (mem_of_getLast? heq)

lemma notMem_numeral {x : UInt8} {n : ℕ} (hx : isDigit x = false) : x ∉ numeral n := by
  intro hmem
  rw [numeral_all_isDigit x hmem] at hx
  cases hx

lemma wordRule_integer (i : Int64) : wordRule (decimal i) = some .integer := by
  have hlast : ((decimal i).getLast? == some 85) = false := by
    refine getLast?_beq_eq_false fun hmem => ?_
    rw [decimal_eq, mem_append] at hmem
    rcases hmem with hmem | hmem
    · split_ifs at hmem
      · exact absurd hmem (by decide)
      · exact not_mem_nil hmem
    · exact notMem_numeral (by decide) hmem
  have hunsigned : unsigned (decimal i) = numeral i.toInt.natAbs := by
    rw [decimal_eq]
    split_ifs
    · rfl
    · obtain ⟨d, s, heq, hd, -⟩ := numeral_head i.toInt.natAbs
      have hmem := mem_of_isDigit hd
      rw [nil_append, heq]
      fin_cases hmem <;> rfl
  refine List.find?_eq_some_iff_append.mpr ⟨?_, [.blanks, .lineComment, .directive, .comment,
    .escapedCharacter, .character, .unsignedInteger], _, rfl, ?_⟩
  · simp [matchesWord, hunsigned, isNumber, isDigits_numeral]
  · simp only [forall_mem_cons]
    refine ⟨rfl, rfl, rfl, rfl, rfl, rfl, ?_, forall_mem_nil _⟩
    simp [matchesWord, hlast]

lemma wordRule_field (n : ℕ) : wordRule (36 :: numeral n) = some .field := by
  have hlast {x : UInt8} (hx : isDigit x = false) (hne : x ≠ 36) :
      ((36 :: numeral n).getLast? == some x) = false :=
    getLast?_beq_eq_false fun hmem => by
      rcases mem_cons.mp hmem with rfl | hmem
      · exact hne rfl
      · exact notMem_numeral hx hmem
  refine List.find?_eq_some_iff_append.mpr ⟨isDigits_numeral n, [.blanks, .lineComment, .directive,
    .comment, .escapedCharacter, .character, .unsignedInteger, .integer, .identifier, .double,
    .doubleQuoted, .singleQuoted, .null], _, rfl, ?_⟩
  simp only [forall_mem_cons]
  refine ⟨rfl, rfl, rfl, rfl, rfl, rfl, ?_, ?_, ?_, rfl, rfl, rfl, ?_, forall_mem_nil _⟩
  · simp [matchesWord, hlast (x := 85) (by decide) (by decide)]
  · rfl
  · simp [matchesWord, hlast (x := 73) (by decide) (by decide)]
  · rfl

lemma wordTokens_text (hw : w.Valid) : wordTokens host w.text = some [w.token] := by
  cases w with
  | mnemonic code =>
    obtain ⟨e, he, hne⟩ := hw
    obtain ⟨-, hrules, hcode⟩ := fits_jump_table he hne
    unfold wordTokens
    rw [text_mnemonic he, wordRule_mnemonic hrules]
    simp only [action, hcode, Option.bind_eq_bind, Option.bind_some]
    rfl
  | field n =>
    show (wordRule (36 :: numeral n)).bind (action host (36 :: numeral n)) = _
    rw [wordRule_field, Option.bind_some, action, tail_cons, toNat_strtoll_numeral hw]
    rfl
  | integer i =>
    show (wordRule (decimal i)).bind (action host (decimal i)) = _
    rw [wordRule_integer, Option.bind_some, action, strtoll_decimal]
    rfl

end Word

/-! ## Sequences of words -/

def joined (ws : List Word) : List UInt8 := [32].intercalate (ws.map Word.text)

def following : List Word → List UInt8
  | [] => []
  | w :: ws => 32 :: joined (w :: ws)

section Sequences

variable {host : Host} {w : Word} {ws : List Word} {Q : Option (List Token) → Prop}

lemma joined_cons : joined (w :: ws) = w.text ++ following ws := by
  cases ws with
  | nil => simp [joined, following]
  | cons v ws =>
    show [32].intercalate (w.text :: v.text :: ws.map Word.text) = _
    rw [intercalate_cons_cons, append_assoc]
    rfl

lemma wordEnd_following : WordEnd (following ws) := by
  cases ws with
  | nil => exact .inl rfl
  | cons v ws => exact .inr ⟨_, rfl⟩

lemma lexes_following (hws : Lexes host (joined ws) Q) : Lexes host (following ws) Q := by
  cases ws with
  | nil => exact hws
  | cons v ws => exact hws

lemma mem_following {c : UInt8} (hc : c ≠ 32) :
    c ∈ following ws ↔ ∃ v ∈ ws, c ∈ v.text := by
  induction ws with
  | nil => simp [following]
  | cons v ws ih =>
    rw [following, mem_cons, joined_cons, mem_append, ih]
    simp [hc]

lemma lexes_cons (hw : w.Valid) (hless : w.text.head? = some 60 → ∀ v ∈ ws, (62 : UInt8) ∉ v.text)
    (hws : Lexes host (joined ws) Q) :
    Lexes host (joined (w :: ws)) fun read => ∃ more, Q more ∧ read = more.map (w.token :: ·) := by
  have hfits := Word.fits_text hw
  rw [joined_cons]
  refine lexes_word hfits.ne_nil (fun c hc => (hfits.solid c hc).1) wordEnd_following
    (unspanned_of_fits hfits wordEnd_following fun hhead hmem => ?_) (Word.wordTokens_text hw)
    (lexes_following hws)
  obtain ⟨v, hv, hmem⟩ := (mem_following (by decide)).mp hmem
  exact hless hhead v hv hmem

def Unbracketed (ws : List Word) : Prop :=
  ws.Pairwise fun w v => w.text.head? = some 60 → (62 : UInt8) ∉ v.text

lemma lexes_joined (hvalid : ∀ w ∈ ws, w.Valid) (hws : Unbracketed ws) :
    Lexes host (joined ws) (· = some (ws.map Word.token)) := by
  induction ws with
  | nil => exact lexes_nil
  | cons w ws ih =>
    obtain ⟨hw, hvalid⟩ := forall_mem_cons.mp hvalid
    obtain ⟨hless, hws⟩ := pairwise_cons.mp hws
    intro n hn bol
    obtain ⟨more, rfl, hread⟩ :=
      lexes_cons hw (fun hhead v hv => hless v hv hhead) (ih hvalid hws) n hn bol
    exact hread

lemma lexes_append {before : List Word} (hvalid : ∀ w ∈ before, w.Valid)
    (hbefore : ∀ w ∈ before, w.text.head? ≠ some 60) (hws : Lexes host (joined ws) Q) :
    Lexes host (joined (before ++ ws)) fun read =>
      ∃ more, Q more ∧ read = more.map (before.map Word.token ++ ·) := by
  induction before with
  | nil => exact fun n hn bol => ⟨_, hws n hn bol, Option.map_id'.symm⟩
  | cons w before ih =>
    obtain ⟨hw, hvalid⟩ := forall_mem_cons.mp hvalid
    obtain ⟨hhead, hbefore⟩ := forall_mem_cons.mp hbefore
    intro n hn bol
    obtain ⟨-, ⟨more, hmore, rfl⟩, hread⟩ :=
      lexes_cons hw (fun h => absurd h hhead) (ih hvalid hbefore) n hn bol
    refine ⟨more, hmore, hread.trans ?_⟩
    rw [Option.map_map]
    rfl

lemma takeWhile_bne {c : UInt8} {s : List UInt8} (hc : c ∉ s) : s.takeWhile (· != c) = s := by
  rw [takeWhile_eq_self_iff]
  intro x hx
  rw [bne_iff_ne]
  exact fun h => hc (h ▸ hx)

lemma toLast_append {c : UInt8} {s rest : List UInt8} (hline : (10 : UInt8) ∉ s ++ rest)
    (hc : c ∈ rest) : ∃ k, toLast c (s ++ rest) = some k ∧ s.length < k := by
  unfold toLast
  simp only [takeWhile_bne hline]
  refine ⟨_, if_pos (mem_append_right s hc), ?_⟩
  have hidx := idxOf_lt_length_of_mem (mem_reverse.mpr hc)
  rw [reverse_append, idxOf_append_of_mem (mem_reverse.mpr hc), length_append]
  rw [length_reverse] at hidx
  omega

lemma solid_joined (hvalid : ∀ w ∈ ws, w.Valid) :
    ∀ c ∈ joined ws, c = 32 ∨ isSpace c = false ∧ c ≠ 0 := by
  induction ws with
  | nil => exact forall_mem_nil _
  | cons w ws ih =>
    obtain ⟨hw, hvalid⟩ := forall_mem_cons.mp hvalid
    intro c hc
    rw [joined_cons, mem_append] at hc
    by_cases hblank : c = 32
    · exact .inl hblank
    · rcases hc with hc | hc
      · exact .inr ((Word.fits_text hw).solid c hc)
      · obtain ⟨v, hv, hc⟩ := (mem_following hblank).mp hc
        exact .inr ((Word.fits_text (hvalid v hv)).solid c hc)

lemma exists_entry (hw : w.Valid) (hhead : w.text.head? = some 60) :
    ∃ code e, w = .mnemonic code ∧ jump_table[code]? = some e ∧ e.opcode ≠ "" := by
  cases w with
  | mnemonic code =>
    obtain ⟨e, he, hne⟩ := hw
    exact ⟨code, e, rfl, he, hne⟩
  | field n => cases hhead
  | integer i =>
    have hhead : (decimal i).head? = some 60 := hhead
    rw [decimal_eq] at hhead
    split_ifs at hhead
    · cases hhead
    · obtain ⟨d, s, heq, hd, -⟩ := numeral_head i.toInt.natAbs
      rw [nil_append, heq] at hhead
      cases hhead
      cases hd

lemma longest_vector {s rest : List UInt8} {k : ℕ} {bol : Bool}
    (hrules : ∀ rule ∈ lexRules.dropLast, rule.matchesWord (60 :: s) = false)
    (hfront : frontWord (60 :: (s ++ rest)) = 60 :: s) (hk : toLast 62 (s ++ rest) = some k)
    (hlt : s.length < k) :
    longest (matchLength bol (60 :: (s ++ rest))) lexRules = some .vector := by
  have hvector : LexRule.vector.matchLength bol (60 :: (s ++ rest)) = k + 1 := by
    simp [matchLength, hk]
  have hmnemonic : LexRule.mnemonic.matchLength bol (60 :: (s ++ rest)) = s.length + 1 := by
    simp [matchLength, matchesWord, hfront]
  have hother : ∀ rule ∈ lexRules.dropLast.dropLast,
      rule.matchLength bol (60 :: (s ++ rest)) = 0 := by
    intro rule hrule
    have hword := hrules rule ((dropLast_sublist _).mem hrule)
    cases rule with
    | unsignedInteger | integer | identifier | double | null | field =>
      simp [matchLength, hfront, hword]
    | blanks | lineComment | comment | escapedCharacter | character | doubleQuoted
    | singleQuoted | matrix => rfl
    | directive => cases bol <;> rfl
    | vector | mnemonic => exact absurd hrule (by decide)
  rw [longest_eq_find? (n := k + 1)]
  · refine List.find?_eq_some_iff_append.mpr
      ⟨by rw [hvector, beq_self_eq_true], lexRules.dropLast.dropLast, [.mnemonic], rfl, ?_⟩
    intro rule hrule
    rw [hother rule hrule]
    rfl
  · intro rule hrule
    have hsplit : rule ∈ lexRules.dropLast.dropLast ++ [.vector, .mnemonic] := hrule
    rcases mem_append.mp hsplit with hrule | hrule
    · rw [hother rule hrule]
      exact Nat.zero_le _
    · rw [mem_pair] at hrule
      rcases hrule with rfl | rfl
      · exact hvector.le
      · omega
  · exact ⟨.vector, by decide, hvector⟩

lemma lexes_vector (hvalid : ∀ v ∈ w :: ws, v.Valid) (hhead : w.text.head? = some 60)
    (hmem : ∃ v ∈ ws, (62 : UInt8) ∈ v.text) :
    Lexes host (joined (w :: ws)) fun read =>
      ∀ tokens, read = some tokens → ∃ l more, tokens = .const l :: more := by
  have hsolid := solid_joined hvalid
  obtain ⟨code, e, rfl, he, hne⟩ := exists_entry (hvalid _ mem_cons_self) hhead
  obtain ⟨hfits, hrules, -⟩ := fits_jump_table he hne
  rw [joined_cons, Word.text_mnemonic he] at hsolid ⊢
  rw [Word.text_mnemonic he] at hhead
  obtain ⟨s, hs⟩ := head?_eq_some_iff.mp hhead
  rw [hs] at hfits hrules hsolid ⊢
  have hfront : frontWord ((60 :: s) ++ following ws) = 60 :: s :=
    frontWord_append (fun c hc => (hfits.solid c hc).1) wordEnd_following
  have hline : (10 : UInt8) ∉ s ++ following ws := by
    intro hten
    rcases hsolid 10 (mem_cons_of_mem _ hten) with h | ⟨h, -⟩
    · cases h
    · cases h
  obtain ⟨k, hk, hlt⟩ := toLast_append hline ((mem_following (by decide)).mpr hmem)
  have hvector (bol : Bool) := @longest_vector s (following ws) k bol hrules hfront hk hlt
  have hlength (bol : Bool) :
      LexRule.vector.matchLength bol (60 :: (s ++ following ws)) = k + 1 := by
    simp [matchLength, hk]
  intro n hn bol tokens hread
  rw [cons_append] at hn hread
  rw [dropWhile_cons_of_neg (by decide)] at hn hread
  obtain ⟨n, rfl⟩ := Nat.exists_eq_succ_of_ne_zero (Nat.ne_zero_of_lt hn)
  rw [lexFrom_succ (cons_ne_nil _ _) (hvector bol) (by rw [hlength]; omega) (by decide)]
    at hread
  simp only [action, Option.bind_eq_bind, Option.bind_some] at hread
  obtain ⟨more, -, hread⟩ := Option.bind_eq_some_iff.mp hread
  exact ⟨_, more, (Option.some.inj hread).symm⟩

end Sequences

/-! ## Compiled programs -/

/-- What the virtual machine finds in an instruction: the opcode of the mnemonic; the loading of the
field; the loading of a constant that is the integer. -/
def Word.LoadedBy (const_pool : List Literal) (inst : UInt32) : Word → Prop
  | .mnemonic code => (inst &&& 0xFFFF).toNat = code
  | .field n => (inst &&& 0xFFFF).toNat = 4 ∧ (inst >>> 16).toNat = n
  | .integer i => (inst &&& 0xFFFF).toNat = 3 ∧
      const_pool[(inst >>> 16).toNat]? = some (.obj (.int64 i))

def Assembles (ws : List Word) (p : Program) : Prop :=
  List.Forall₂ (fun w inst => w.LoadedBy p.const_pool inst) ws p.ops

def Word.isConstant : Word → Bool
  | .integer _ => true
  | _ => false

section Programs

variable {host : Host} {w : Word} {ws : List Word} {Q : Option (List Token) → Prop}

lemma toNat_instruction (argument opcode : ℕ) :
    (instruction argument opcode).toNat = argument % 65536 * 65536 + opcode % 65536 := by
  unfold instruction
  rw [UInt32.toNat_ofNat']
  omega

lemma opcode_instruction {argument opcode : ℕ} (hopcode : opcode < 65536) :
    (instruction argument opcode &&& 0xFFFF).toNat = opcode := by
  rw [UInt32.toNat_and, toNat_instruction, show UInt32.toNat 0xFFFF = 2 ^ 16 - 1 from rfl,
    Nat.and_two_pow_sub_one_eq_mod]
  omega

lemma argument_instruction {argument opcode : ℕ} (hargument : argument < 65536) :
    (instruction argument opcode >>> 16).toNat = argument := by
  rw [UInt32.toNat_shiftRight, toNat_instruction, show UInt32.toNat 16 % 32 = 16 from rfl,
    Nat.shiftRight_eq_div_pow]
  omega

lemma loadedBy_append {const_pool : List Literal} {inst : UInt32} (more : List Literal)
    (hw : w.LoadedBy const_pool inst) : w.LoadedBy (const_pool ++ more) inst := by
  cases w with
  | mnemonic code => exact hw
  | field n => exact hw
  | integer i =>
    obtain ⟨hcode, hget⟩ := hw
    refine ⟨hcode, ?_⟩
    rw [List.getElem?_append_left (List.getElem?_eq_some_iff.mp hget).1, hget]

lemma add_token {p : Program} (hw : w.Valid)
    (hcount : p.const_pool.length + [w].countP Word.isConstant ≤ 65536) :
    ∃ inst pool, p.add w.token = ⟨p.ops ++ [inst], p.const_pool ++ pool⟩ ∧
      pool.length = [w].countP Word.isConstant ∧ w.LoadedBy (p.const_pool ++ pool) inst := by
  cases w with
  | mnemonic code =>
    obtain ⟨e, he, -⟩ := hw
    have hcode := (List.getElem?_eq_some_iff.mp he).1
    rw [length_jump_table] at hcode
    refine ⟨instruction 0 code, [], by rw [append_nil]; rfl, rfl, ?_⟩
    exact opcode_instruction (hcode.trans (by decide))
  | field n =>
    refine ⟨instruction n 4, [], by rw [append_nil]; rfl, rfl, ?_⟩
    exact ⟨opcode_instruction (by decide), argument_instruction hw⟩
  | integer i =>
    have hlen : p.const_pool.length < 65536 := hcount
    refine ⟨instruction p.const_pool.length 3, [.obj (.int64 i)], rfl, rfl,
      opcode_instruction (by decide), ?_⟩
    rw [argument_instruction hlen, List.getElem?_append_right le_rfl, Nat.sub_self]
    rfl

lemma assembles_from {p : Program} (hvalid : ∀ w ∈ ws, w.Valid)
    (hcount : p.const_pool.length + ws.countP Word.isConstant ≤ 65536) :
    ∃ ops pool, (ws.map Word.token).foldl Program.add p = ⟨p.ops ++ ops, p.const_pool ++ pool⟩ ∧
      Forall₂ (fun w inst => w.LoadedBy (p.const_pool ++ pool) inst) ws ops := by
  induction ws generalizing p with
  | nil => exact ⟨[], [], by rw [append_nil, append_nil]; rfl, .nil⟩
  | cons w ws ih =>
    obtain ⟨hw, hvalid⟩ := forall_mem_cons.mp hvalid
    rw [← singleton_append, countP_append] at hcount
    obtain ⟨inst, pool, hadd, hpool, hloaded⟩ := @add_token w p hw (by omega)
    obtain ⟨ops, pool', hfold, hws⟩ := @ih ⟨p.ops ++ [inst], p.const_pool ++ pool⟩ hvalid
      (by rw [length_append]; omega)
    simp only [append_assoc] at hfold hws
    refine ⟨inst :: ops, pool ++ pool', ?_, .cons ?_ hws⟩
    · rw [map_cons, foldl_cons, hadd, hfold]
      rfl
    · rw [← append_assoc]
      exact loadedBy_append pool' hloaded

lemma exists_ops_foldl (tokens : List Token) (p : Program) :
    ∃ ops, (tokens.foldl Program.add p).ops = p.ops ++ ops ∧ ops.length = tokens.length := by
  induction tokens generalizing p with
  | nil => exact ⟨[], (append_nil _).symm, rfl⟩
  | cons t tokens ih =>
    obtain ⟨ops, hops, hlen⟩ := ih (p.add t)
    have hadd : ∃ inst, (p.add t).ops = p.ops ++ [inst] := by
      cases t <;> exact ⟨_, rfl⟩
    obtain ⟨inst, hadd⟩ := hadd
    refine ⟨inst :: ops, ?_, congrArg (· + 1) hlen⟩
    rw [foldl_cons, hops, hadd, append_assoc]
    rfl

lemma compile_of_lexes {text : List UInt8} (hzero : (0 : UInt8) ∉ text)
    (hblank : text.dropWhile isBlank = text) (htext : Lexes host text Q) :
    ∃ read, Q read ∧
      compile host text = read.map fun tokens => tokens.foldl Program.add ⟨[], []⟩ := by
  refine ⟨_, htext text.length (by rw [hblank]) true, ?_⟩
  unfold compile
  rw [takeWhile_bne hzero, hblank, Option.map_eq_bind]
  rfl

lemma compile_joined (hvalid : ∀ w ∈ ws, w.Valid) (hws : Lexes host (joined ws) Q) :
    ∃ read, Q read ∧
      compile host (joined ws) = read.map fun tokens => tokens.foldl Program.add ⟨[], []⟩ := by
  refine compile_of_lexes (fun hmem => ?_) ?_ hws
  · rcases solid_joined hvalid 0 hmem with h | ⟨-, h⟩
    · cases h
    · exact h rfl
  · cases ws with
    | nil => rfl
    | cons w ws =>
      have hfits := Word.fits_text (hvalid w mem_cons_self)
      obtain ⟨c, s, hs⟩ := exists_cons_of_ne_nil hfits.ne_nil
      have hc := hfits.solid c (by rw [hs]; exact mem_cons_self)
      rw [joined_cons, hs, cons_append,
        dropWhile_cons_of_neg (by rw [isBlank_of_isSpace hc.1]; decide)]

lemma unbracketed_or (ws : List Word) : Unbracketed ws ∨
    ∃ before w after, ws = before ++ w :: after ∧ (∀ v ∈ before, v.text.head? ≠ some 60) ∧
      w.text.head? = some 60 ∧ ∃ v ∈ after, (62 : UInt8) ∈ v.text := by
  induction ws with
  | nil => exact .inl .nil
  | cons w ws ih =>
    by_cases hhead : w.text.head? = some 60
    · by_cases hmem : ∃ v ∈ ws, (62 : UInt8) ∈ v.text
      · exact .inr ⟨[], w, ws, rfl, forall_mem_nil _, hhead, hmem⟩
      · push Not at hmem
        refine .inl (pairwise_cons.mpr ⟨fun v hv _ => hmem v hv, ?_⟩)
        exact pairwise_of_forall_mem_list fun _ _ v hv _ => hmem v hv
    · rcases ih with hws | ⟨before, v, after, rfl, hbefore, hv⟩
      · exact .inl (pairwise_cons.mpr ⟨fun v _ h => absurd h hhead, hws⟩)
      · exact .inr ⟨w :: before, v, after, rfl, forall_mem_cons.mpr ⟨hhead, hbefore⟩, hv⟩

lemma not_assembles_of_bracket {before after : List Word} {p : Program}
    (hvalid : ∀ v ∈ before ++ w :: after, v.Valid)
    (hbefore : ∀ v ∈ before, v.text.head? ≠ some 60) (hhead : w.text.head? = some 60)
    (hmem : ∃ v ∈ after, (62 : UInt8) ∈ v.text)
    (hp : compile host (joined (before ++ w :: after)) = some p) :
    ¬ Assembles (before ++ w :: after) p := by
  intro hassembles
  have hlexes := @lexes_append host _ _ before
    (fun v hv => hvalid v (mem_append_left _ hv)) hbefore
    (lexes_vector (fun v hv => hvalid v (mem_append_right _ hv)) hhead hmem)
  obtain ⟨-, ⟨read, hread, rfl⟩, hcompile⟩ := compile_joined hvalid hlexes
  rw [hcompile, Option.map_map, Option.map_eq_some_iff] at hp
  obtain ⟨tokens, hsome, rfl⟩ := hp
  obtain ⟨l, more, rfl⟩ := hread tokens hsome
  obtain ⟨code, e, rfl, he, hne⟩ := exists_entry (hvalid w (mem_append_right _ mem_cons_self)) hhead
  -- the instruction at the place of the word loads a constant
  obtain ⟨ops, hops, hlen⟩ := exists_ops_foldl (before.map Word.token) ⟨[], []⟩
  obtain ⟨ops', hops', -⟩ := exists_ops_foldl more
    (((before.map Word.token).foldl Program.add ⟨[], []⟩).add (.const l))
  rw [length_map] at hlen
  unfold Assembles at hassembles
  rw [Function.comp_apply, foldl_append, foldl_cons, hops'] at hassembles
  simp only [Program.add, hops, nil_append, append_assoc, singleton_append]
    at hassembles
  obtain ⟨-, hget⟩ := forall₂_iff_get.mp hassembles
  have hword := hget before.length (by simp) (by simp [hlen])
  rw [get_eq_getElem, get_eq_getElem, getElem_append_right le_rfl,
    getElem_append_right hlen.le] at hword
  simp only [hlen, Nat.sub_self, getElem_cons_zero] at hword
  have hcode : code = 3 := hword.symm.trans (opcode_instruction (by decide))
  subst hcode
  obtain rfl : e = ⟨"", 0, .PUSH_CONST⟩ := (Option.some.inj he).symm
  exact hne rfl

end Programs

/-- **A text compiles word by word exactly if it has no brackets.**
Hyps: fewer constants than an instruction can number -/
theorem compile_joined_iff (host : Host) (ws : List Word) (hvalid : ∀ w ∈ ws, w.Valid)
    (hcount : ws.countP Word.isConstant < 65536) :
    (∃ p, compile host (joined ws) = some p ∧ Assembles ws p) ↔ Unbracketed ws := by
  constructor
  · rintro ⟨p, hp, hassembles⟩
    rcases unbracketed_or ws with hws | ⟨before, w, after, rfl, hbefore, hhead, hmem⟩
    · exact hws
    · exact absurd hassembles (not_assembles_of_bracket hvalid hbefore hhead hmem hp)
  · intro hws
    obtain ⟨read, rfl, hcompile⟩ := compile_joined hvalid (@lexes_joined host ws hvalid hws)
    obtain ⟨ops, pool, hfold, hloaded⟩ := @assembles_from ws ⟨[], []⟩ hvalid
      (by rw [length_nil]; omega)
    rw [Option.map_some, hfold] at hcompile
    exact ⟨_, hcompile, hloaded⟩

def sumWords : List Word := [.field 1, .integer (-3), .mnemonic 139, .field 2, .mnemonic 144]

theorem compile_joined_sumWords :
    ∃ p, compile sampleHost (joined sumWords) = some p ∧ Assembles sumWords p := by
  refine (compile_joined_iff sampleHost sumWords ?_ (by decide)).mpr ?_
  · simp only [sumWords, forall_mem_cons]
    exact ⟨show 1 < 65536 by decide, trivial, ⟨_, rfl, by decide⟩, show 2 < 65536 by decide,
      ⟨_, rfl, by decide⟩, forall_mem_nil _⟩
  · unfold Unbracketed
    decide

def bracketWords : List Word :=
  [.field 1, .field 2, .mnemonic 144, .field 3, .field 4, .mnemonic 146, .mnemonic 43]

/-- What stands between `<` and `>` is read as the elements of a vector, so that seven words become four
instructions. -/
theorem compile_joined_bracketWords :
    (∀ w ∈ bracketWords, w.Valid) ∧
      (compile sampleHost (joined bracketWords)).map Program.ops =
        some [instruction 1 4, instruction 2 4, instruction 0 3, instruction 0 43] ∧
      ¬ ∃ p, compile sampleHost (joined bracketWords) = some p ∧ Assembles bracketWords p := by
  have hops : (compile sampleHost (joined bracketWords)).map Program.ops =
      some [instruction 1 4, instruction 2 4, instruction 0 3, instruction 0 43] := by
    rfl
  refine ⟨?_, hops, ?_⟩
  · simp only [bracketWords, forall_mem_cons]
    exact ⟨show 1 < 65536 by decide, show 2 < 65536 by decide, ⟨_, rfl, by decide⟩,
      show 3 < 65536 by decide, show 4 < 65536 by decide, ⟨_, rfl, by decide⟩, ⟨_, rfl, by decide⟩,
      forall_mem_nil _⟩
  · rintro ⟨p, hp, hassembles⟩
    have hlen := List.Forall₂.length_eq hassembles
    rw [hp, Option.map_some, Option.some.injEq] at hops
    rw [hops] at hlen
    exact absurd hlen (by decide)

end P2.Pel
