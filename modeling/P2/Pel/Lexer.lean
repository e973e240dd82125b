import Mathlib.Data.List.Find
import P2.Lib.Longest
import P2.Pel.Opcode

/-!
# The lexer of the expression language

The rules of `pel_lexer.lex`, which compile the text of a program into instructions and constants.
-/

namespace P2.Pel

open P2.Value P2.Lib List Option

/-! ## Characters -/

def isSpace (c : UInt8) : Bool := c == 32 || (9 ≤ c && c ≤ 13)

def isBlank (c : UInt8) : Bool := c == 32 || c == 9 || c == 13 || c == 10

def isDigit (c : UInt8) : Bool := 48 ≤ c && c ≤ 57

def isHexDigit (c : UInt8) : Bool := isDigit c || (97 ≤ c && c ≤ 102) || (65 ≤ c && c ≤ 70)

/-! ## Words -/

def isDigits (w : List UInt8) : Bool := w != [] && w.all isDigit

def isHexNumber : List UInt8 → Bool
  | 48 :: x :: w => (x == 120 || x == 88) && w != [] && w.all isHexDigit
  | _ => false

def isNumber (w : List UInt8) : Bool := isDigits w || isHexNumber w

def unsigned : List UInt8 → List UInt8
  | 45 :: w => w
  | w => w

def isExponent : List UInt8 → Bool
  | e :: s :: w =>
    (e == 101 || e == 69) && if s == 43 || s == 45 then isDigits w else isDigits (s :: w)
  | _ => false

def isDecimal (w : List UInt8) : Bool :=
  w.takeWhile isDigit != [] &&
    match w.dropWhile isDigit with
    | 46 :: r => r.takeWhile isDigit != [] && (r.dropWhile isDigit == [] || isExponent (r.dropWhile isDigit))
    | r => isExponent r

/-! ## Rules -/

inductive LexRule where
  | blanks | lineComment | directive | comment | escapedCharacter | character | unsignedInteger
  | integer | identifier | double | doubleQuoted | singleQuoted | null | field | matrix | vector
  | mnemonic
  deriving DecidableEq

def lexRules : List LexRule :=
  [.blanks, .lineComment, .directive, .comment, .escapedCharacter, .character, .unsignedInteger,
    .integer, .identifier, .double, .doubleQuoted, .singleQuoted, .null, .field, .matrix, .vector,
    .mnemonic]

def toLineEnd (s : List UInt8) : Option ℕ :=
  let n := (s.takeWhile (· != 10)).length
  if n < s.length then some (n + 1) else none

/-- What is left of a quoted string behind its opening quote: characters other than those excluded,
pairs of a backslash and any character, the closing quote. -/
def quotedLength (excluded : UInt8 → Bool) (quote : UInt8) : List UInt8 → Option ℕ
  | [] => none
  | 92 :: s =>
    match s with
    | [] => none
    | _ :: s => (quotedLength excluded quote s).map (· + 2)
  | c :: s =>
    if c == quote then some 1
    else if c == 10 || excluded c then none
    else (quotedLength excluded quote s).map (· + 1)

def toLast (close : UInt8) (s : List UInt8) : Option ℕ :=
  let line := s.takeWhile (· != 10)
  if close ∈ line then some (line.length - line.reverse.idxOf close) else none

def frontWord (text : List UInt8) : List UInt8 := text.takeWhile fun c => !isSpace c

/-- Whether a rule that matches no white space matches a whole word. -/
def LexRule.matchesWord (w : List UInt8) : LexRule → Bool
  | .unsignedInteger => w.getLast? == some 85 && isNumber w.dropLast
  | .integer => isNumber (unsigned w)
  | .identifier => w.getLast? == some 73 && isHexNumber w.dropLast
  | .double => isDecimal (unsigned w)
  | .null => w == ascii "null" || w == ascii "NULL"
  | .field =>
    match w with
    | 36 :: w => isDigits w
    | _ => false
  | .mnemonic => true
  | _ => false

/-- How much of a text a rule matches, nothing where it does not match. `bol` tells that the text is at
the beginning of a line. A rule that matches no white space counts only where it matches the whole
word: a shorter match does not win against that of `mnemonic`. -/
def LexRule.matchLength (bol : Bool) (text : List UInt8) : LexRule → ℕ
  | .blanks => (text.takeWhile isBlank).length
  | .lineComment =>
    match text with
    | 47 :: 47 :: s => ((toLineEnd s).map (· + 2)).getD 0
    | _ => 0
  | .directive =>
    match bol, text with
    | true, 35 :: 33 :: s => ((toLineEnd s).map (· + 2)).getD 0
    | _, _ => 0
  | .comment =>
    match text with
    | 47 :: 42 :: _ => 2
    | _ => 0
  | .escapedCharacter =>
    match text with
    | 39 :: 92 :: c :: 39 :: _ => if c == 10 then 0 else 4
    | _ => 0
  | .character =>
    match text with
    | 39 :: c :: 39 :: _ => if c == 92 then 0 else 3
    | _ => 0
  | .doubleQuoted =>
    match text with
    | 34 :: s => ((quotedLength (fun _ => false) 34 s).map (· + 1)).getD 0
    | _ => 0
  | .singleQuoted =>
    match text with
    | 39 :: s => ((quotedLength (· == 34) 39 s).map (· + 1)).getD 0
    | _ => 0
  | .matrix =>
    match text with
    | 123 :: s => ((toLast 125 s).map (· + 1)).getD 0
    | _ => 0
  | .vector =>
    match text with
    | 60 :: s => ((toLast 62 s).map (· + 1)).getD 0
    | _ => 0
  | rule => if rule.matchesWord (frontWord text) then (frontWord text).length else 0

/-! ## Actions -/

inductive Literal where
  | obj (o : Obj)
  | vector (elements : List Obj)
  | matrix (columns : ℕ) (rows : List (List Obj))

inductive Token where
  | const (l : Literal)
  | load (f : ℕ)
  | opcode (code : ℕ)

/-- The character behind a backslash. A line end leaves the character that was written last. -/
def escape (last x : UInt8) : UInt8 :=
  if x == 10 then last else if x == 110 then 10 else if x == 114 then 13 else if x == 116 then 9 else x

/-- The characters of a string literal, without its quotes. -/
def unescape : UInt8 → List UInt8 → List UInt8
  | _, [] => []
  | last, 92 :: s =>
    match s with
    | [] => [92]
    | x :: s => escape last x :: unescape (escape last x) s
  | _, c :: s => c :: unescape c s

def strtoull (s : List UInt8) : Int64 :=
  let s := s.dropWhile fun c => c == 32 || (9 ≤ c && c ≤ 13)
  let signed : Bool × List UInt8 := match s with
    | 45 :: r => (true, r)
    | 43 :: r => (false, r)
    | r => (false, r)
  let n : ℕ := match signed.2 with
    | 48 :: x :: r =>
      if (x == 120 || x == 88) && (r.head?.bind digitOf).any (· < 16) then digits 16 r 0
      else digits 8 (x :: r) 0
    | r => digits (if r.head? == some 48 then 8 else 10) r 0
  Int64.ofInt (if 2 ^ 64 ≤ n then -1 else if signed.1 then -(n : ℤ) else n)

/-- The parts between the occurrences of a character, without empty ones. -/
def strtok (delim : UInt8) (s : List UInt8) : List (List UInt8) :=
  (s.splitOn delim).filter (· != [])

section Actions

variable (host : Host)

def parseVector (vec : List UInt8) : List Obj :=
  (strtok 44 vec).map fun tok =>
    if 46 ∈ tok then .double (host.strtod tok) else .int64 (strtoull tok)

/-- The first character of each row is skipped. A row that is shorter than the first one is read beyond
its end. -/
def parseMatrix (mat : List UInt8) : Option Literal :=
  let rows := (strtok 37 mat).map fun tok => parseVector host tok.tail
  let arity := (rows.head?.map List.length).getD 0
  if rows.all fun row => arity ≤ row.length then
    some (.matrix arity (rows.map fun row => row.take arity))
  else none

def mnemonicCode (w : List UInt8) : Option ℕ := jump_table.findIdx? fun e => ascii e.opcode == w

def isHuge (d : Double) : Bool := d.magnitude == 0x7ff0000000000000

/-- What a rule does with the text it matched, nothing where the program cannot go on. -/
def LexRule.action (yytext : List UInt8) : LexRule → Option (List Token)
  | .blanks | .lineComment | .directive | .comment => some []
  | .escapedCharacter =>
    let c := yytext.getD 2 0
    let v : UInt8 := if c == 110 then 10 else if c == 114 then 13 else if c == 116 then 9
      else if c == 102 then 12 else c
    some [.const (.obj (.int64 v.toInt8.toInt64))]
  | .character => some [.const (.obj (.int64 (yytext.getD 1 0).toInt8.toInt64))]
  | .unsignedInteger => some [.const (.obj (.int64 (strtoull yytext)))]
  | .integer => some [.const (.obj (.int64 (strtoll yytext)))]
  | .identifier => some [.const (.obj (.id (idOfString (yytext.drop 2).dropLast)))]
  | .double =>
    let v := host.strtod yytext
    some (if isHuge v then [] else [.const (.obj (.double v))])
  | .doubleQuoted | .singleQuoted =>
    some [.const (.obj (.str (unescape 0 yytext.tail.dropLast)))]
  | .null => some [.const (.obj .null)]
  | .field => some [.load (strtoll yytext.tail).toUInt64.toNat]
  | .matrix => (parseMatrix host yytext.tail).map fun m => [.const m]
  | .vector => some [.const (.vector (parseVector host yytext.tail))]
  | .mnemonic => some ((mnemonicCode yytext).map Token.opcode).toList

def skipComment : ℕ → Bool → Bool → List UInt8 → List UInt8
  | 0, _, _, s => s
  | _, _, _, [] => []
  | depth + 1, star, slash, c :: s =>
    let depth' := if c == 42 && slash then depth + 2 else if c == 47 && star then depth else depth + 1
    skipComment depth' (c == 42) (c == 47) s

/-- The loop of the lexer. The rule for mnemonics matches the empty text too, in front of a white space
that is no blank; then the loop does not go on. -/
def lexFrom : ℕ → Bool → List UInt8 → Option (List Token)
  | 0, _, text => if text = [] then some [] else none
  | n + 1, bol, text => do
    if text = [] then return []
    let rule ← longest (LexRule.matchLength bol text) lexRules
    let k := rule.matchLength bol text
    if k = 0 then none
    else
      let yytext := text.take k
      let rest := if rule = .comment then skipComment 1 false false (text.drop k) else text.drop k
      let tokens ← rule.action host yytext
      let more ← lexFrom n ((text.take (text.length - rest.length)).getLast? == some 10) rest
      return tokens ++ more

end Actions

/-! ## Programs -/

structure Program where
  ops : List UInt32
  const_pool : List Literal

def instruction (argument opcode : ℕ) : UInt32 := UInt32.ofNat (argument % 65536 * 65536 + opcode % 65536)

def Program.add (p : Program) : Token → Program
  | .const l => ⟨p.ops ++ [instruction p.const_pool.length 3], p.const_pool ++ [l]⟩
  | .load f => ⟨p.ops ++ [instruction f 4], p.const_pool⟩
  | .opcode code => ⟨p.ops ++ [instruction 0 code], p.const_pool⟩

def compile (host : Host) (prog : List UInt8) : Option Program := do
  let text := prog.takeWhile (· != 0)
  let tokens ← lexFrom host text.length true text
  return tokens.foldl Program.add ⟨[], []⟩

/-! ## Reading words -/

section Words

variable {host : Host} {w rest text : List UInt8} {tokens : List Token} {bol : Bool}

/-- What the lexer makes of the text behind its blanks, wherever the text stands. -/
def Lexes (host : Host) (text : List UInt8) (Q : Option (List Token) → Prop) : Prop :=
  ∀ n, (text.dropWhile isBlank).length ≤ n → ∀ bol, Q (lexFrom host n bol (text.dropWhile isBlank))

lemma lexFrom_nil {n : ℕ} : lexFrom host n bol [] = some [] := by
  cases n <;> rfl

lemma lexes_nil : Lexes host [] (· = some []) := fun _ _ _ => lexFrom_nil

lemma lexFrom_succ {n : ℕ} {rule : LexRule} (htext : text ≠ [])
    (hrule : longest (LexRule.matchLength bol text) lexRules = some rule)
    (hlength : rule.matchLength bol text ≠ 0) (hcomment : rule ≠ .comment) :
    lexFrom host (n + 1) bol text = (do
      let k := rule.matchLength bol text
      let tokens ← rule.action host (text.take k)
      let more ← lexFrom host n
        ((text.take (text.length - (text.drop k).length)).getLast? == some 10) (text.drop k)
      return tokens ++ more) := by
  rw [lexFrom, if_neg htext, hrule]
  simp [if_neg hlength, if_neg hcomment]

def wordRule (w : List UInt8) : Option LexRule := lexRules.find? (LexRule.matchesWord w)

def wordTokens (host : Host) (w : List UInt8) : Option (List Token) := do
  let rule ← wordRule w
  rule.action host w

def Unspanned (text : List UInt8) : Prop :=
  ∀ bol, ∀ rule ∈ lexRules, rule.matchLength bol text =
    if rule.matchesWord (frontWord text) then (frontWord text).length else 0

lemma isBlank_of_isSpace {c : UInt8} (hc : isSpace c = false) : isBlank c = false := by
  unfold isSpace at hc
  unfold isBlank
  rw [Bool.or_eq_false_iff] at hc
  obtain ⟨hblank, hcontrol⟩ := hc
  rw [hblank, Bool.false_or, Bool.or_eq_false_iff, Bool.or_eq_false_iff]
  refine ⟨⟨?_, ?_⟩, ?_⟩ <;> rw [beq_eq_false_iff_ne] <;> rintro rfl <;>
    cases hcontrol

def WordEnd (rest : List UInt8) : Prop := rest = [] ∨ ∃ r, rest = 32 :: r

lemma frontWord_append (hw : ∀ c ∈ w, isSpace c = false) (hend : WordEnd rest) :
    frontWord (w ++ rest) = w := by
  unfold frontWord
  rw [takeWhile_append_of_pos fun c hc => by rw [hw c hc]; rfl]
  rcases hend with rfl | ⟨r, rfl⟩
  · exact append_nil w
  · rw [takeWhile_cons_of_neg (by decide), append_nil]

lemma matchesWord_mnemonic : LexRule.mnemonic.matchesWord w = true := rfl

lemma longest_word (hne : w ≠ []) (hfront : frontWord text = w) (hspan : Unspanned text) :
    longest (LexRule.matchLength bol text) lexRules = wordRule w := by
  have hlen : ∀ rule ∈ lexRules, rule.matchLength bol text =
      if rule.matchesWord w then w.length else 0 := by
    intro rule hrule
    rw [hspan bol rule hrule, hfront]
  rw [longest_eq_find? (n := w.length)]
  · refine List.find?_congr fun rule hrule => ?_
    rw [hlen rule hrule]
    have hpos := length_pos_iff.mpr hne
    cases rule.matchesWord w with
    | true => simp
    | false =>
      simp only [Bool.false_eq_true, if_false, beq_eq_false_iff_ne]
      omega
  · intro rule hrule
    rw [hlen rule hrule]
    split_ifs
    · exact le_rfl
    · exact Nat.zero_le _
  · refine ⟨.mnemonic, by decide, ?_⟩
    rw [hlen .mnemonic (by decide), if_pos matchesWord_mnemonic]

lemma longest_blank :
    longest (LexRule.matchLength bol (32 :: rest)) lexRules = some .blanks := by
  have hother : ∀ rule ∈ lexRules.tail, rule.matchLength bol (32 :: rest) = 0 := by
    simp only [lexRules, tail_cons, forall_mem_cons]
    refine ⟨rfl, ?_, rfl, rfl, rfl, rfl, rfl, rfl, rfl, rfl, rfl, rfl, rfl, rfl, rfl, rfl, ?_⟩
    · cases bol <;> rfl
    · exact forall_mem_nil _
  rw [longest_eq_find? (n := LexRule.blanks.matchLength bol (32 :: rest))]
  · simp [lexRules]
  · intro rule hrule
    rcases mem_cons.mp (show rule ∈ LexRule.blanks :: lexRules.tail from hrule) with rfl | hrule
    · exact le_rfl
    · rw [hother rule hrule]
      exact Nat.zero_le _
  · exact ⟨.blanks, by decide, rfl⟩

lemma lexFrom_blank {n : ℕ} : ∃ bol', lexFrom host (n + 1) bol (32 :: rest) =
    lexFrom host n bol' (rest.dropWhile isBlank) := by
  have hlen : LexRule.blanks.matchLength bol (32 :: rest) = (rest.takeWhile isBlank).length + 1 := rfl
  have hdrop : (32 :: rest).drop ((rest.takeWhile isBlank).length + 1) = rest.dropWhile isBlank := by
    have hleft : (rest.takeWhile isBlank ++ rest.dropWhile isBlank).drop
        (rest.takeWhile isBlank).length = rest.dropWhile isBlank := drop_left
    rw [takeWhile_append_dropWhile] at hleft
    exact hleft
  rw [lexFrom_succ (cons_ne_nil 32 rest) longest_blank (by rw [hlen]; omega) (by decide)]
  simp only [hlen, hdrop, LexRule.action, bind_eq_bind, bind_some, nil_append]
  exact ⟨_, bind_fun_some _⟩

lemma lexFrom_wordEnd {n : ℕ} {Q : Option (List Token) → Prop} (hend : WordEnd rest)
    (hrest : Lexes host rest Q) (hn : rest.length ≤ n) : Q (lexFrom host n bol rest) := by
  rcases hend with rfl | ⟨r, rfl⟩
  · exact hrest n hn bol
  · obtain ⟨n, rfl⟩ := Nat.exists_eq_succ_of_ne_zero (Nat.ne_zero_of_lt hn)
    have hdrop := (dropWhile_sublist isBlank (l := r)).length_le
    rw [length_cons] at hn
    obtain ⟨bol', hblank⟩ := @lexFrom_blank host r bol n
    rw [hblank]
    exact hrest n (by rw [dropWhile_cons_of_pos (by decide)]; omega) bol'

lemma lexes_front {rule : LexRule} {first : List Token} {Q : Option (List Token) → Prop}
    (hne : w ≠ []) (hhead : ∀ c ∈ w.head?, isBlank c = false) (hend : WordEnd rest)
    (hrule : ∀ bol, longest (LexRule.matchLength bol (w ++ rest)) lexRules = some rule)
    (hlen : ∀ bol, rule.matchLength bol (w ++ rest) = w.length) (hcomment : rule ≠ .comment)
    (hfirst : rule.action host w = some first) (hrest : Lexes host rest Q) :
    Lexes host (w ++ rest) fun read => ∃ more, Q more ∧ read = more.map (first ++ ·) := by
  have hblank : (w ++ rest).dropWhile isBlank = w ++ rest := by
    obtain ⟨c, w, rfl⟩ := exists_cons_of_ne_nil hne
    exact dropWhile_cons_of_neg (by rw [hhead c rfl]; decide)
  intro n hn bol
  rw [hblank] at hn ⊢
  rw [length_append] at hn
  have hpos := length_pos_iff.mpr hne
  obtain ⟨n, rfl⟩ := Nat.exists_eq_succ_of_ne_zero (by omega : n ≠ 0)
  rw [lexFrom_succ (append_ne_nil_of_left_ne_nil hne _) (hrule bol) (by rw [hlen]; omega) hcomment]
  simp only [hlen, take_left, drop_left, hfirst, bind_eq_bind, bind_some]
  have hmore (bol' : Bool) : Q (lexFrom host n bol' rest) := lexFrom_wordEnd hend hrest (by omega)
  exact ⟨_, hmore _, Option.map_eq_bind.symm⟩

lemma lexes_word {first : List Token} {Q : Option (List Token) → Prop} (hne : w ≠ [])
    (hw : ∀ c ∈ w, isSpace c = false) (hend : WordEnd rest) (hspan : Unspanned (w ++ rest))
    (hfirst : wordTokens host w = some first) (hrest : Lexes host rest Q) :
    Lexes host (w ++ rest) fun read => ∃ more, Q more ∧ read = more.map (first ++ ·) := by
  have hfront := frontWord_append hw hend
  obtain ⟨rule, hrule, haction⟩ := bind_eq_some_iff.mp hfirst
  have hmatches : rule.matchesWord w = true := List.find?_some hrule
  refine lexes_front hne (fun c hc => isBlank_of_isSpace (hw c (mem_of_mem_head? hc))) hend
    (fun bol => (longest_word hne hfront hspan).trans hrule) (fun bol => ?_) ?_ haction hrest
  · rw [hspan bol rule (List.mem_of_find?_eq_some hrule), hfront, if_pos hmatches]
  · rintro rfl
    cases hmatches

end Words

end P2.Pel
