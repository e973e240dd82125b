import P2.Pel.Plain
import P2.Planner.RulePel

/-!
# The code of expressions computes their value

`yields_words` by induction on the expression, `execute_words` for the program.
-/

namespace P2.Planner

open P2.Value P2.Overlog P2.Pel P2.Lib.Exec List Option

/-! ## Evaluation -/

/-- The expressions in question, with all variables among the names. -/
inductive Simple (names : List Name) : Expr → Prop
  | var (name : Name) (locspec : Bool) (pos : ℕ) (hpos : fieldPosition names name = some pos) :
      Simple names (.var name locspec)
  | integer (i : Int64) : Simple names (.val (.int64 i))
  | not {lhs : Expr} (hlhs : Simple names lhs) : Simple names (.not lhs)
  | bool (oper : BoolOper) {lhs rhs : Expr} (hlhs : Simple names lhs) (hrhs : Simple names rhs) :
      Simple names (.bool oper lhs rhs)
  | range (type : Interval) {target lhs rhs : Expr} (htarget : Simple names target)
      (hlhs : Simple names lhs) (hrhs : Simple names rhs) :
      Simple names (.range type target lhs rhs)
  | math (oper : MathOper) (hoper : oper ≠ .APPEND) {lhs rhs : Expr} (hlhs : Simple names lhs)
      (hrhs : Simple names rhs) : Simple names (.math oper lhs rhs)

section Evaluation

variable (host : Host)

def oprMath : MathOper → Ptr → Ptr → VM Ptr
  | .LSHIFT => Opr.lshift
  | .RSHIFT => Opr.rshift
  | .PLUS => Opr.plus host
  | .MINUS => Opr.minus host
  | .TIMES => Opr.times host
  | .DIVIDE => Opr.divide host
  | .MODULUS => Opr.mod
  | .BIT_XOR => Opr.bxor host
  | .BIT_AND => Opr.band host
  | .BIT_OR => Opr.bor host
  | .APPEND => fun _ _ => noSup

def oprRange : Interval → Ptr → Ptr → Ptr → VM Bool
  | .RANGEOO => Opr.inOO host
  | .RANGEOC => Opr.inOC host
  | .RANGECO => Opr.inCO host
  | .RANGECC => Opr.inCC host

/-- The value of a binary operator; division and modulus by zero fail. -/
def evalMath (oper : MathOper) (a b : Ptr) : Except Trouble Ptr :=
  if (oper = .DIVIDE ∨ oper = .MODULUS) ∧ b = some (.int64 0) then .error (.throws .divisionByZero)
  else oprValue (oprMath host oper a b)

/-- Comparisons cast both sides to the type of the first, connectives cast both to integers. -/
def evalBool (oper : BoolOper) (a b : Ptr) : Except Trouble Ptr :=
  match oper with
  | .AND => do .ok (boolPtr ((← castInt64 a) != 0 && (← castInt64 b) != 0))
  | .OR => do .ok (boolPtr ((← castInt64 a) != 0 || (← castInt64 b) != 0))
  | .EQ => boolPtr <$> equal host a b
  | .NEQ => (fun t => boolPtr (!t)) <$> equal host a b
  | .GT => (fun o => boolPtr (o == .gt)) <$> compared host a b
  | .LT => (fun o => boolPtr (o == .lt)) <$> compared host a b
  | .LTE => (fun o => boolPtr (o != .gt)) <$> compared host a b
  | .GTE => (fun o => boolPtr (o != .lt)) <$> compared host a b

variable (names : List Name) (fields : List Ptr)

/-- The value of an expression on a tuple: the field with a number is that of the name before it, since
the first one is the name of the table. -/
def eval : Expr → Except Trouble Ptr
  | .var name _ => .ok (((fieldPosition names name).bind fun pos => fields[pos + 1]?).getD none)
  | .val (.int64 i) => .ok (some (.int64 i))
  | .not lhs => do .ok (boolPtr ((← castInt64 (← eval lhs)) == 0))
  | .bool oper lhs rhs => do evalBool host oper (← eval lhs) (← eval rhs)
  | .range type target lhs rhs => do
    let x ← eval target
    let a ← eval lhs
    let b ← eval rhs
    boolPtr <$> oprValue (oprRange host type x a b)
  | .math oper lhs rhs => do evalMath host oper (← eval lhs) (← eval rhs)
  | _ => .error (.throws .library)

end Evaluation

/-! ## Code -/

def opWord (op : Op) : Word := .mnemonic (jump_table.findIdx fun e => e.fn == op)

def mathOp : MathOper → Op
  | .LSHIFT => .ASL
  | .RSHIFT => .ASR
  | .PLUS => .PLUS
  | .MINUS => .MINUS
  | .TIMES => .MUL
  | .DIVIDE => .DIV
  | .MODULUS => .MOD
  | .BIT_XOR => .BIT_XOR
  | .BIT_AND => .BIT_AND
  | .BIT_OR => .BIT_OR
  | .APPEND => .APPEND

def boolOps : BoolOper → List Op
  | .AND => [.AND]
  | .OR => [.OR]
  | .EQ => [.EQ]
  | .NEQ => [.EQ, .NOT]
  | .GT => [.GT]
  | .LT => [.LT]
  | .LTE => [.LTE]
  | .GTE => [.GTE]

def rangeOp : Interval → Op
  | .RANGEOO => .INOO
  | .RANGEOC => .INOC
  | .RANGECO => .INCO
  | .RANGECC => .INCC

def words (names : List Name) : Expr → List Word
  | .var name _ => [.field ((fieldPosition names name).getD 0 + 1)]
  | .val (.int64 i) => [.integer i]
  | .not lhs => words names lhs ++ [opWord .NOT]
  | .bool oper lhs rhs => words names lhs ++ words names rhs ++ (boolOps oper).map opWord
  | .range type target lhs rhs =>
    words names target ++ words names lhs ++ words names rhs ++ [opWord (rangeOp type)]
  | .math oper lhs rhs => words names lhs ++ words names rhs ++ [opWord (mathOp oper)]
  | _ => []

section Code

variable {text : Expr → Name} {names : List Name} {e : Expr}

lemma text_opWord :
    (opWord .NOT).text = ascii "not" ∧
    (∀ oper, ((boolOps oper).map opWord).map Word.text = (boolMnemonics oper).map ascii) ∧
    (∀ type, (opWord (rangeOp type)).text = ascii (rangeMnemonic type)) ∧
    ∀ oper, (opWord (mathOp oper)).text = ascii (mathMnemonic oper) := by
  refine ⟨by decide +kernel, fun oper => ?_, fun type => ?_, fun oper => ?_⟩
  · cases oper <;> decide +kernel
  · cases type <;> decide +kernel
  · cases oper <;> decide +kernel

lemma expr2Pel_eq (he : Simple names e) :
    expr2Pel text names e = some ((words names e).map Word.text) := by
  obtain ⟨hnot, hbool, hrange, hmath⟩ := text_opWord
  induction he with
  | var name locspec pos hpos =>
    rw [expr2Pel, words, varPiece, hpos]
    rfl
  | integer i => rfl
  | not hlhs ih =>
    rw [expr2Pel, ih, words, map_append, map_singleton, hnot]
    rfl
  | bool oper hlhs hrhs ihl ihr =>
    rw [expr2Pel, ihl, ihr, words, map_append, map_append, hbool]
    rfl
  | range type htarget hlhs hrhs iht ihl ihr =>
    rw [expr2Pel, iht, ihl, ihr, words, map_append, map_append, map_append, map_singleton, hrange]
    rfl
  | math oper hoper hlhs hrhs ihl ihr =>
    rw [expr2Pel, ihl, ihr, words, map_append, map_append, map_singleton, hmath]
    rfl

end Code

/-! ## Runs -/

/-- A machine that may run the code: the operand is a tuple of plain values behind the name of its
table, one for each name, and the constants of the program are in the pool. -/
structure Prepared (env : Env) (names : List Name) (fields : List Ptr) (const_pool : List Literal)
    (h : Heap) : Prop where
  operand : (h.tuple env.operand).fields = fields
  plain : ∀ pos < names.length, ∃ v, fields[pos + 1]? = some v ∧ Plain v
  constants : ∀ (k : ℕ) (o : Obj), const_pool[k]? = some (.obj o) →
    (h.tuple env.constPool).fields[k]? = some (some o)
  sound : sound env.host h (some (.tuple (some env.operand)))

section Runs

variable {env : Env} {names : List Name} {fields : List Ptr} {const_pool : List Literal} {s : State}
  {e : Expr} {ops : List UInt32} {op : Op} {st : List Ptr} {r : Except Trouble Ptr} {a b : Ptr}

def arityOf (op : Op) : Option (ℕ × Op) :=
  (jump_table[jump_table.findIdx fun e => e.fn == op]?).map fun e => (e.arity, e.fn)

abbrev Loaded (const_pool : List Literal) (ws : List Word) (ops : List UInt32) : Prop :=
  Forall₂ (fun w inst => Word.LoadedBy const_pool inst w) ws ops

lemma yields_opWord {n : ℕ} (hop : arityOf op = some (n, op))
    (hops : Loaded const_pool [opWord op] ops) (hn : n ≤ s.st.length)
    (herror : s.error = .PE_SUCCESS) (hprepared : Prepared env names fields const_pool s.heap)
    (hbody : ∀ inst, Performs (op.fn env inst) s st r) : Yields env ops s st r := by
  obtain ⟨inst, _, hinst, hnil, rfl⟩ := forall₂_cons_left_iff.mp hops
  cases hnil
  have hcode : (inst &&& 0xFFFF).toNat = jump_table.findIdx fun e => e.fn == op := hinst
  obtain ⟨entry, hentry, heq⟩ := map_eq_some_iff.mp hop
  obtain ⟨rfl, rfl⟩ := Prod.mk.inj heq
  exact yields_instruction (by rw [hcode, hentry]) hn herror hprepared.sound (hbody inst)

lemma exists_of_forall₂_append {ws ws' : List Word} (h : Loaded const_pool (ws ++ ws') ops) :
    ∃ ops1 ops2, Loaded const_pool ws ops1 ∧ Loaded const_pool ws' ops2 ∧ ops = ops1 ++ ops2 := by
  induction ws generalizing ops with
  | nil => exact ⟨[], ops, .nil, h, rfl⟩
  | cons w ws ih =>
    obtain ⟨inst, rest, hinst, hrest, rfl⟩ := forall₂_cons_left_iff.mp h
    obtain ⟨ops1, ops2, h1, h2, rfl⟩ := ih hrest
    exact ⟨inst :: ops1, ops2, .cons hinst h1, h2, rfl⟩

lemma plainly_oprMath {oper : MathOper} (host : Host) (hoper : oper ≠ .APPEND) (ha : Plain a)
    (hb : Plain b) (hzero : ¬ ((oper = .DIVIDE ∨ oper = .MODULUS) ∧ b = some (.int64 0))) :
    Plainly Plain (oprMath host oper a b) := by
  obtain ⟨hlshift, hrshift, hplus, hminus, htimes, hband, hbor, hbxor⟩ :=
    @plainly_arith host a b ha hb
  cases oper with
  | LSHIFT => exact hlshift
  | RSHIFT => exact hrshift
  | PLUS => exact hplus
  | MINUS => exact hminus
  | TIMES => exact htimes
  | BIT_AND => exact hband
  | BIT_OR => exact hbor
  | BIT_XOR => exact hbxor
  | DIVIDE => exact plainly_divide host ha hb fun h => hzero ⟨.inl rfl, h⟩
  | MODULUS => exact plainly_mod ha hb
  | APPEND => exact absurd rfl hoper

lemma plain_evalMath {oper : MathOper} {host : Host} {v : Ptr} (hoper : oper ≠ .APPEND)
    (ha : Plain a) (hb : Plain b) (hv : evalMath host oper a b = .ok v) : Plain v := by
  unfold evalMath at hv
  split_ifs at hv with hzero
  exact (plainly_oprMath host hoper ha hb hzero).good v hv

lemma yields_math {oper : MathOper} (hoper : oper ≠ .APPEND) (ha : Plain a) (hb : Plain b)
    (hops : Loaded const_pool [opWord (mathOp oper)] ops) (herror : s.error = .PE_SUCCESS)
    (hprepared : Prepared env names fields const_pool s.heap) :
    Yields env ops { s with st := b :: a :: st } st (evalMath env.host oper a b) := by
  have harity : arityOf (mathOp oper) = some (2, mathOp oper) := by
    cases oper <;> decide +kernel
  refine yields_opWord harity hops (Nat.le_add_left 2 st.length) herror hprepared fun inst => ?_
  have hplainly := plainly_oprMath env.host hoper ha hb
  unfold evalMath
  cases oper with
  | LSHIFT | RSHIFT | PLUS | MINUS | TIMES | BIT_AND | BIT_OR | BIT_XOR =>
    have hplainly := hplainly (by rintro ⟨h | h, -⟩ <;> cases h)
    rw [if_neg (by rintro ⟨h | h, -⟩ <;> cases h)]
    exact performs_binaryOp hplainly.answers hplainly.catchable
  | DIVIDE =>
    simp only [true_or, true_and]
    exact performs_div ha hb herror
  | MODULUS =>
    simp only [or_true, true_and]
    exact performs_mod ha hb herror
  | APPEND => exact absurd rfl hoper

lemma yields_not (ha : a ≠ none) (hops : Loaded const_pool [opWord .NOT] ops)
    (herror : s.error = .PE_SUCCESS) (hprepared : Prepared env names fields const_pool s.heap) :
    Yields env ops { s with st := a :: st } st
      ((fun i => boolPtr (i == 0)) <$> castInt64 a) :=
  yields_opWord (show arityOf .NOT = some (1, .NOT) by decide +kernel) hops
    (Nat.le_add_left 1 st.length) herror hprepared fun _ =>
      performs_not rfl (catchable_of_fine (fine_castInt64 ha))

lemma yields_range {type : Interval} {x : Ptr} (hx : Plain x) (ha : Plain a) (hb : Plain b)
    (hops : Loaded const_pool [opWord (rangeOp type)] ops) (herror : s.error = .PE_SUCCESS)
    (hprepared : Prepared env names fields const_pool s.heap) :
    Yields env ops { s with st := b :: a :: x :: st } st
      (boolPtr <$> oprValue (oprRange env.host type x a b)) := by
  obtain ⟨hOO, hOC, hCO, hCC⟩ := @plainly_interval env.host a b x hx ha hb
  have hinterval {f : Ptr → Ptr → Ptr → VM Bool} (hf : Plainly (fun _ => True) (f x a b)) :
      Performs (intervalOp f) { s with st := b :: a :: x :: st } st
        (boolPtr <$> oprValue (f x a b)) :=
    performs_intervalOp hf.answers hf.catchable
  have harity : arityOf (rangeOp type) = some (3, rangeOp type) := by
    cases type <;> decide +kernel
  refine yields_opWord harity hops (Nat.le_add_left 3 st.length) herror hprepared fun inst => ?_
  cases type with
  | RANGEOO => exact hinterval hOO
  | RANGEOC => exact hinterval hOC
  | RANGECO => exact hinterval hCO
  | RANGECC => exact hinterval hCC

lemma yields_bool {oper : BoolOper} (ha : Plain a) (hb : Plain b)
    (hops : Loaded const_pool ((boolOps oper).map opWord) ops)
    (herror : s.error = .PE_SUCCESS) (hprepared : Prepared env names fields const_pool s.heap) :
    Yields env ops { s with st := b :: a :: st } st (evalBool env.host oper a b) := by
  obtain ⟨hlt, hlte, hgt, hgte⟩ := @answers_order env.host a b ha hb
  have hone {op : Op} {ops : List UInt32} {r : Except Trouble Ptr}
      (hop : arityOf op = some (2, op)) (hops : Loaded const_pool [opWord op] ops)
      (hbody : ∀ inst, Performs (op.fn env inst) { s with st := b :: a :: st } st r) :
      Yields env ops { s with st := b :: a :: st } st r :=
    yields_opWord hop hops (Nat.le_add_left 2 st.length) herror hprepared hbody
  have hcompare {f : Ptr → Ptr → VM Bool} {test : Ordering → Bool}
      (hf : Answers (f a b) (test <$> compared env.host a b)) :
      Performs (compareOp f) { s with st := b :: a :: st } st
        ((fun o => boolPtr (test o)) <$> compared env.host a b) := by
    have hperforms : Performs (compareOp f) { s with st := b :: a :: st } st
        (boolPtr <$> test <$> compared env.host a b) :=
      performs_compareOp hf (catchable_of_fine (fine_compared ha hb).map)
    rwa [← LawfulFunctor.comp_map] at hperforms
  have hequal {ops : List UInt32} (hops : Loaded const_pool [opWord .EQ] ops) :
      Yields env ops { s with st := b :: a :: st } st (boolPtr <$> equal env.host a b) :=
    hone (by decide +kernel) hops fun _ =>
      performs_compareOp (answers_eq ha hb) (catchable_of_fine (fine_equal ha hb))
  cases oper with
  | AND =>
    exact hone (by decide +kernel) hops fun _ =>
      performs_connective (f := fun v1 v2 => v1 != 0 && v2 != 0) ha.ne_none hb.ne_none
  | OR =>
    exact hone (by decide +kernel) hops fun _ =>
      performs_connective (f := fun v1 v2 => v1 != 0 || v2 != 0) ha.ne_none hb.ne_none
  | EQ => exact hequal hops
  | NEQ =>
    obtain ⟨inst, rest, hinst, hrest, rfl⟩ := forall₂_cons_left_iff.mp hops
    have hneq : evalBool env.host .NEQ a b =
        (boolPtr <$> equal env.host a b) >>= fun v =>
          (fun i => boolPtr (i == 0)) <$> castInt64 v := by
      show (fun t => boolPtr (!t)) <$> equal env.host a b = _
      cases equal env.host a b with
      | ok t => cases t <;> rfl
      | error e => rfl
    rw [hneq]
    refine (hequal (.cons hinst .nil)).bind fun v hv => yields_not ?_ hrest herror hprepared
    rintro rfl
    cases hr : equal env.host a b with
    | ok t => rw [hr] at hv; cases hv
    | error e => rw [hr] at hv; cases hv
  | GT => exact hone (by decide +kernel) hops fun _ => hcompare hgt
  | LT => exact hone (by decide +kernel) hops fun _ => hcompare hlt
  | LTE => exact hone (by decide +kernel) hops fun _ => hcompare hlte
  | GTE => exact hone (by decide +kernel) hops fun _ => hcompare hgte

lemma fieldPosition_lt {name : Name} {pos : ℕ} (hpos : fieldPosition names name = some pos) :
    pos < names.length :=
  (findIdx?_eq_some_iff_getElem.mp hpos).1

lemma plain_of_map {α : Type} {x : Except Trouble α} {f : α → Bool} {v : Ptr}
    (hv : (fun y => boolPtr (f y)) <$> x = .ok v) : Plain v := by
  cases x with
  | ok y => cases hv; trivial
  | error e => cases hv

lemma plain_eval (hprepared : Prepared env names fields const_pool s.heap) (he : Simple names e)
    {v : Ptr} (hv : eval env.host names fields e = .ok v) : Plain v := by
  induction he generalizing v with
  | var name locspec pos hpos =>
    obtain ⟨w, hw, hplain⟩ := hprepared.plain pos (fieldPosition_lt hpos)
    rw [eval, hpos, bind_some, hw] at hv
    cases hv
    exact hplain
  | integer i => cases hv; trivial
  | not hlhs ih =>
    obtain ⟨a, -, hv⟩ := exists_of_bind_ok hv
    exact plain_of_map (f := fun i : Int64 => i == 0) (x := castInt64 a) hv
  | bool oper hlhs hrhs ihl ihr =>
    obtain ⟨a, -, hv⟩ := exists_of_bind_ok hv
    obtain ⟨b, -, hv⟩ := exists_of_bind_ok hv
    cases oper with
    | AND | OR =>
      obtain ⟨i, -, hv⟩ := exists_of_bind_ok hv
      obtain ⟨j, -, hv⟩ := exists_of_bind_ok hv
      cases hv
      trivial
    | EQ | NEQ | GT | LT | LTE | GTE => exact plain_of_map hv
  | range type htarget hlhs hrhs iht ihl ihr =>
    obtain ⟨x, -, hv⟩ := exists_of_bind_ok hv
    obtain ⟨a, -, hv⟩ := exists_of_bind_ok hv
    obtain ⟨b, -, hv⟩ := exists_of_bind_ok hv
    exact plain_of_map (f := id) hv
  | math oper hoper hlhs hrhs ihl ihr =>
    obtain ⟨a, ha, hv⟩ := exists_of_bind_ok hv
    obtain ⟨b, hb, hv⟩ := exists_of_bind_ok hv
    exact plain_evalMath hoper (ihl ha) (ihr hb) hv

/-- **The code of an expression computes its value on any stack.** -/
theorem yields_words (he : Simple names e) (hops : Loaded const_pool (words names e) ops)
    (herror : s.error = .PE_SUCCESS) (hprepared : Prepared env names fields const_pool s.heap) :
    Yields env ops s s.st (eval env.host names fields e) := by
  induction he generalizing ops s with
  | var name locspec pos hpos =>
    obtain ⟨inst, _, ⟨hcode, hfield⟩, hnil, rfl⟩ := forall₂_cons_left_iff.mp hops
    cases hnil
    obtain ⟨w, hw, -⟩ := hprepared.plain pos (fieldPosition_lt hpos)
    rw [hpos, getD_some] at hfield
    rw [eval, hpos, bind_some, hw]
    have hentry : jump_table[(inst &&& 0xFFFF).toNat]? = some ⟨"", 0, .PUSH_FIELD⟩ := by
      rw [hcode]
      rfl
    refine yields_instruction hentry (Nat.zero_le _) herror hprepared.sound (performs_pushFrom ?_)
    rw [hprepared.operand, hfield, hw]
    rfl
  | integer i =>
    obtain ⟨inst, _, ⟨hcode, hconst⟩, hnil, rfl⟩ := forall₂_cons_left_iff.mp hops
    cases hnil
    have hentry : jump_table[(inst &&& 0xFFFF).toNat]? = some ⟨"", 0, .PUSH_CONST⟩ := by
      rw [hcode]
      rfl
    exact yields_instruction hentry (Nat.zero_le _) herror hprepared.sound
      (performs_pushFrom (hprepared.constants _ _ hconst))
  | @not lhs hlhs ih =>
    obtain ⟨ops1, ops2, h1, h2, rfl⟩ := exists_of_forall₂_append hops
    refine (ih h1 herror hprepared).bind fun a ha => ?_
    exact yields_not (plain_eval hprepared hlhs ha).ne_none h2 herror hprepared
  | @bool oper lhs rhs hlhs hrhs ihl ihr =>
    obtain ⟨ops12, ops3, h12, h3, rfl⟩ := exists_of_forall₂_append hops
    obtain ⟨ops1, ops2, h1, h2, rfl⟩ := exists_of_forall₂_append h12
    rw [append_assoc]
    refine (ihl h1 herror hprepared).bind fun a ha => ?_
    refine (ihr (s := { s with st := a :: s.st }) h2 herror hprepared).bind fun b hb => ?_
    exact yields_bool (plain_eval hprepared hlhs ha) (plain_eval hprepared hrhs hb) h3 herror
      hprepared
  | @range type target lhs rhs htarget hlhs hrhs iht ihl ihr =>
    obtain ⟨ops123, ops4, h123, h4, rfl⟩ := exists_of_forall₂_append hops
    obtain ⟨ops12, ops3, h12, h3, rfl⟩ := exists_of_forall₂_append h123
    obtain ⟨ops1, ops2, h1, h2, rfl⟩ := exists_of_forall₂_append h12
    rw [append_assoc, append_assoc]
    refine (iht h1 herror hprepared).bind fun x hx => ?_
    refine (ihl (s := { s with st := x :: s.st }) h2 herror hprepared).bind fun a ha => ?_
    refine (ihr (s := { s with st := a :: x :: s.st }) h3 herror hprepared).bind fun b hb => ?_
    exact yields_range (plain_eval hprepared htarget hx) (plain_eval hprepared hlhs ha)
      (plain_eval hprepared hrhs hb) h4 herror hprepared
  | @math oper hoper lhs rhs hlhs hrhs ihl ihr =>
    obtain ⟨ops12, ops3, h12, h3, rfl⟩ := exists_of_forall₂_append hops
    obtain ⟨ops1, ops2, h1, h2, rfl⟩ := exists_of_forall₂_append h12
    rw [append_assoc]
    refine (ihl h1 herror hprepared).bind fun a ha => ?_
    refine (ihr (s := { s with st := a :: s.st }) h2 herror hprepared).bind fun b hb => ?_
    exact yields_math hoper (plain_eval hprepared hlhs ha) (plain_eval hprepared hrhs hb) h3 herror
      hprepared

/-- The only fault is a trap of integer division. -/
def OnlyTraps (r : Except Trouble Ptr) : Prop := ∀ f, r = .error (.faults f) → f = .arithmetic

lemma onlyTraps_of_catchable (hr : Catchable r) : OnlyTraps r := by
  intro f hf
  rcases hr _ hf with (h | h) | h <;> cases h
  rfl

lemma OnlyTraps.bind {f : Ptr → Except Trouble Ptr} (hr : OnlyTraps r)
    (hf : ∀ v, r = .ok v → OnlyTraps (f v)) : OnlyTraps (r >>= f) := by
  cases r with
  | ok v => exact hf v rfl
  | error e =>
    rintro x ⟨⟩
    exact hr x rfl

lemma onlyTraps_eval (hprepared : Prepared env names fields const_pool s.heap)
    (he : Simple names e) : OnlyTraps (eval env.host names fields e) := by
  induction he with
  | var name locspec pos hpos => rintro _ ⟨⟩
  | integer i => rintro _ ⟨⟩
  | @not lhs hlhs ih =>
    refine ih.bind fun a ha => onlyTraps_of_catchable (catchable_of_fine ?_)
    exact (fine_castInt64 (plain_eval hprepared hlhs ha).ne_none).bind fun _ _ => fine_ok _
  | @bool oper lhs rhs hlhs hrhs ihl ihr =>
    refine ihl.bind fun a ha => ihr.bind fun b hb =>
      onlyTraps_of_catchable (catchable_of_fine ?_)
    have ha := plain_eval hprepared hlhs ha
    have hb := plain_eval hprepared hrhs hb
    cases oper with
    | AND | OR =>
      exact (fine_castInt64 ha.ne_none).bind fun _ _ =>
        (fine_castInt64 hb.ne_none).bind fun _ _ => fine_ok _
    | EQ | NEQ => exact (fine_equal ha hb).map
    | GT | LT | LTE | GTE => exact (fine_compared ha hb).map
  | @range type target lhs rhs htarget hlhs hrhs iht ihl ihr =>
    refine iht.bind fun x hx => ihl.bind fun a ha => ihr.bind fun b hb =>
      onlyTraps_of_catchable ?_
    obtain ⟨hOO, hOC, hCO, hCC⟩ := @plainly_interval env.host a b x (plain_eval hprepared htarget hx)
      (plain_eval hprepared hlhs ha) (plain_eval hprepared hrhs hb)
    cases type with
    | RANGEOO => exact hOO.catchable.map
    | RANGEOC => exact hOC.catchable.map
    | RANGECO => exact hCO.catchable.map
    | RANGECC => exact hCC.catchable.map
  | @math oper hoper lhs rhs hlhs hrhs ihl ihr =>
    refine ihl.bind fun a ha => ihr.bind fun b hb => ?_
    unfold evalMath
    split_ifs with hzero
    · rintro _ ⟨⟩
    · exact onlyTraps_of_catchable (plainly_oprMath env.host hoper
        (plain_eval hprepared hlhs ha) (plain_eval hprepared hrhs hb) hzero).catchable

/-- The operand is a tuple laid out by the names: the name of the table, then a plain value for each
name. -/
structure LaidOut (env : Env) (names : List Name) (fields : List Ptr) (h : Heap) : Prop where
  operand : (h.tuple env.operand).fields = fields
  table : ∃ table values, fields = some (.str table) :: values ∧ values.length = names.length ∧
    ∀ v ∈ values, Plain v

def Installed (env : Env) (const_pool : List Literal) (h : Heap) : Prop :=
  ∀ (k : ℕ) (o : Obj), const_pool[k]? = some (.obj o) →
    (h.tuple env.constPool).fields[k]? = some (some o)

lemma prepared_of_laidOut {h : Heap} (hlaid : LaidOut env names fields h)
    (hinstalled : Installed env const_pool h) (hdepth : 0 < env.host.callDepth) :
    Prepared env names fields const_pool h := by
  obtain ⟨hoperand, table, values, rfl, hlength, hplain⟩ := hlaid
  refine ⟨hoperand, fun pos hpos => ?_, hinstalled, ?_⟩
  · rw [← hlength] at hpos
    exact ⟨_, List.getElem?_eq_getElem hpos, hplain _ (getElem_mem hpos)⟩
  · obtain ⟨n, hn⟩ := Nat.exists_eq_succ_of_ne_zero hdepth.ne'
    have hroom : env.host.room = n + 1 + 1 := by rw [Host.room, hn]
    unfold P2.Pel.sound
    rw [hroom]
    refine nested_succ.mpr ⟨rfl, rfl, fun p hp => ?_⟩
    have hp : p ∈ (h.tuple env.operand).fields := hp
    rw [hoperand] at hp
    rcases mem_cons.mp hp with rfl | hp
    · exact nested_succ.mpr ⟨rfl, rfl, forall_mem_nil _⟩
    · rcases (hplain p hp).cases with ⟨i, rfl⟩ | ⟨i, rfl⟩
      · exact nested_succ.mpr ⟨rfl, rfl, forall_mem_nil _⟩
      · exact nested_succ.mpr ⟨rfl, rfl, forall_mem_nil _⟩

end Runs

/-- **Expressions are compiled correctly.** What the planner writes for an expression is the words
of its code. A program with an instruction for each of them, run on any stack, leaves the value of
the expression on that stack and changes nothing else, or returns an error where the evaluation
fails. Neither comes to an end where integer division traps, which is the quotient or remainder of
the least integer by minus one.
Hyps: the call stack has room for writing a tuple -/
theorem execute_words (env : Env) (text : Expr → Name) (names : List Name) (fields : List Ptr)
    (e : Expr) (he : Simple names e) (p : Program) (hp : Assembles (words names e) p) (s : State)
    (hlaid : LaidOut env names fields s.heap) (hinstalled : Installed env p.const_pool s.heap)
    (hdepth : 0 < env.host.callDepth) :
    expr2Pel text names e = some ((words names e).map Word.text) ∧
    match eval env.host names fields e with
    | .ok v => execute env p.ops s =
        .ok .PE_SUCCESS { s with st := v :: s.st, error := .PE_SUCCESS, result := none }
    | .error (.throws _) => ∃ code t, execute env p.ops s = .ok code t ∧ code ≠ .PE_SUCCESS
    | .error (.faults f) => f = .arithmetic ∧ ∃ t, execute env p.ops s = .error (.faults f) t := by
  refine ⟨expr2Pel_eq he, ?_⟩
  have hprepared := prepared_of_laidOut hlaid hinstalled hdepth
  have hrun : execute env p.ops s =
      executeFrom env (p.ops ++ []) { s with error := .PE_SUCCESS, result := none } := by
    rw [append_nil]
    rfl
  have hyields := yields_words (s := { s with error := .PE_SUCCESS, result := none }) he hp rfl
    hprepared
  have htraps := onlyTraps_eval hprepared he
  rw [hrun]
  cases hr : eval env.host names fields e with
  | ok v =>
    rw [hr] at hyields
    exact hyields []
  | error x =>
    rw [hr] at hyields htraps
    cases x with
    | throws x =>
      obtain ⟨code, t, hcode, hrun⟩ := hyields
      exact ⟨code, t, hrun [], hcode⟩
    | faults f =>
      obtain ⟨t, hrun⟩ := hyields
      exact ⟨htraps f rfl, t, hrun []⟩

/-- A machine with the constant `7` and a tuple with one field, `5`. -/
def sampleMachine : State where
  heap := ⟨[⟨[some (.int64 7)], true⟩, ⟨[some (.str []), some (.int64 5)], true⟩], [], [], [], []⟩
  st := [some .null]
  error := .PE_SUCCESS
  result := none
  queries := 0

def sampleLess : Expr := .bool .LT (.var [65] false) (.val (.int64 7))

def sampleProgram : Program := ⟨[instruction 1 4, instruction 0 3, instruction 0 144], [.obj (.int64 7)]⟩

theorem execute_words_sampleLess :
    execute ⟨sampleHost, 0, 1⟩ sampleProgram.ops sampleMachine =
      .ok .PE_SUCCESS { sampleMachine with st := [some (.int64 1), some .null] } := by
  have hrun := (execute_words ⟨sampleHost, 0, 1⟩ (fun _ => []) [[65]]
    [some (.str []), some (.int64 5)] sampleLess
    (.bool .LT (.var [65] false 0 (by decide)) (.integer 7)) sampleProgram ?_ sampleMachine ?_ ?_
    (by decide)).2
  · exact hrun
  · have hless : (instruction 0 144 &&& 0xFFFF).toNat = jump_table.findIdx fun e => e.fn == .LT := by
      decide +kernel
    exact .cons ⟨by decide, by decide⟩ (.cons ⟨by decide, rfl⟩ (.cons hless .nil))
  · exact ⟨rfl, [], [some (.int64 5)], rfl, rfl, by simp [Plain]⟩
  · intro k o hk
    cases k with
    | zero =>
      cases hk
      rfl
    | succ k => cases hk

end P2.Planner
