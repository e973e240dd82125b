import P2.Pel.Comparison

/-!
# The larger and the smaller of two values

`max` and `min` take their operands from the stack in the order in which they are popped, and ask
the operator `<=` for them, which compares its second operand with its first one. The opcode `<=`
asks the operator `>=`, for the operands in the order in which they were pushed: `maxMinAgree_iff`.
-/

namespace P2.Pel

open P2.Value P2.Lib.Exec Option

/-! ## Programs over two fields -/

def pushed (env : Env) (prog : List UInt8) (s : State) : Option Ptr := do
  let program ← compile env.host prog
  match execute env program.ops s with
  | .ok .PE_SUCCESS t => t.st.head?
  | _ => none

/-- Two values of one of the types integer, string, identifier and time. -/
def OneKind (a b : Obj) : Prop :=
  a.typeCode = b.typeCode ∧ a.typeCode ∈ [.INT64, .STR, .ID, .TIME]

instance (a b : Obj) : Decidable (OneKind a b) := inferInstanceAs (Decidable (_ ∧ _))

structure Operands (env : Env) (s : State) (a b : Obj) : Prop where
  first : (s.heap.tuple env.operand).fields[1]? = some (some a)
  second : (s.heap.tuple env.operand).fields[2]? = some (some b)

def Same (env : Env) (s : State) (p q : Ptr) : Prop :=
  compareTo s.heap env.host.room p q = .ok .eq

/-- `max` pushes the second value where `<=` pushes true and the first one otherwise, `min` the other
way round, up to equality by `compareTo`. -/
def MaxMinAgree (env : Env) (s : State) (a b : Obj) : Prop :=
  ∃ below larger smaller,
    pushed env (ascii "$1 $2 <=") s = some (boolPtr below) ∧
    pushed env (ascii "$1 $2 max") s = some larger ∧
    pushed env (ascii "$1 $2 min") s = some smaller ∧
    Same env s larger (some (if below then b else a)) ∧
    Same env s smaller (some (if below then a else b))

variable {env : Env} {s : State} {a b : Obj}

/-! ## Values of one type -/

/-- How two values of one type compare; of other types it is not used. -/
def ordered : Obj → Obj → Ordering
  | .int64 i, .int64 j => ofTests (i < j) (i > j)
  | .str t, .str u => compare t u
  | .id x, .id y => compare x.words y.words
  | .time t, .time u => ofTests (t.lt u) (u.lt t)
  | _, _ => .eq

lemma OneKind.cases (h : OneKind a b) :
    (∃ i j, a = .int64 i ∧ b = .int64 j) ∨ (∃ t u, a = .str t ∧ b = .str u) ∨
      (∃ x y, a = .id x ∧ b = .id y) ∨ ∃ t u, a = .time t ∧ b = .time u := by
  obtain ⟨hsame, hmem⟩ := h
  cases a <;> cases b <;> simp_all [Obj.typeCode]

lemma OneKind.symm (h : OneKind a b) : OneKind b a := ⟨h.1.symm, h.1 ▸ h.2⟩

lemma OneKind.same_iff (h : OneKind a b) : Same env s (some a) (some b) ↔ ordered a b = .eq := by
  have heq : compareTo s.heap env.host.room (some a) (some b) = .ok (ordered a b) := by
    rcases h.cases with ⟨i, j, rfl, rfl⟩ | ⟨t, u, rfl, rfl⟩ | ⟨x, y, rfl, rfl⟩ | ⟨t, u, rfl, rfl⟩ <;> rfl
  unfold Same
  rw [heq, Except.ok.injEq]

lemma ordered_swap (h : OneKind a b) : ordered b a = (ordered a b).swap := by
  rcases h.cases with ⟨i, j, rfl, rfl⟩ | ⟨t, u, rfl, rfl⟩ | ⟨x, y, rfl, rfl⟩ | ⟨t, u, rfl, rfl⟩
  · exact ofTests_swap i j
  · show compare u t = (compare t u).swap
    exact Std.OrientedOrd.eq_swap
  · exact Std.OrientedOrd.eq_swap
  · cases t <;> cases u <;> simp only [ordered, TimeRep.lt] <;> try rfl
    rename_i m n
    rw [ofTests_eq_compare, ofTests_eq_compare]
    exact Std.OrientedOrd.eq_swap

lemma answers_lte_gte (host : Host) (h : OneKind a b) :
    Answers (Opr.lte host (some a) (some b)) (.ok (ordered b a != .gt)) ∧
      Answers (Opr.gte host (some a) (some b)) (.ok (ordered b a != .lt)) := by
  rcases h.cases with ⟨i, j, rfl, rfl⟩ | ⟨t, u, rfl, rfl⟩ | ⟨x, y, rfl, rfl⟩ | ⟨t, u, rfl, rfl⟩ <;>
    exact ⟨fun _ => rfl, fun _ => rfl⟩

/-! ## The three programs -/

lemma pushed_of_performs {prog : List UInt8} {code : ℕ} {entry : JumpTableEnt} {v : Ptr}
    (hcompile : compile env.host prog =
      some ⟨[instruction 1 4, instruction 2 4, instruction 0 code], []⟩)
    (hcode : code < 65536) (hentry : jump_table[code]? = some entry) (harity : entry.arity = 2)
    (hab : Operands env s a b)
    (hbody : ∀ (s : State) (st : List Ptr) (inst : UInt32),
      Performs (entry.fn.fn env inst) { s with st := some b :: some a :: st } st (.ok v)) :
    pushed env prog s = some v := by
  have hfield : ∀ {k : ℕ} {p : Ptr} {t : State} (ops : List UInt32), k < 65536 →
      (t.heap.tuple env.operand).fields[k]? = some p → t.error = .PE_SUCCESS →
      executeFrom env (instruction k 4 :: ops) t = executeFrom env ops { t with st := p :: t.st } := by
    intro k p t ops hk hp herror
    have hload : (instruction k 4 &&& 0xFFFF).toNat = 4 := opcode_instruction (by decide)
    refine executeFrom_cons_of_body (by rw [hload]; rfl) (Nat.zero_le _) ?_ herror
    exact performs_pushFrom (by rw [argument_instruction hk]; exact hp)
  have hop : jump_table[(instruction 0 code &&& 0xFFFF).toNat]? = some entry := by
    rw [opcode_instruction hcode, hentry]
  have hrun : execute env [instruction 1 4, instruction 2 4, instruction 0 code] s =
      .ok .PE_SUCCESS { s with st := v :: s.st, error := .PE_SUCCESS, result := none } := by
    let t : State := { s with error := .PE_SUCCESS, result := none }
    have hfirst := hfield (t := t) [instruction 2 4, instruction 0 code] (by decide) hab.first rfl
    have hsecond := hfield (t := { t with st := some a :: t.st }) [instruction 0 code] (by decide)
      hab.second rfl
    refine hfirst.trans (hsecond.trans ?_)
    exact executeFrom_cons_of_body hop (harity.trans_le (Nat.le_add_left _ _)) (hbody t s.st _) rfl
  unfold pushed
  rw [hcompile]
  simp [hrun]

/-- **The three programs.** `<=` pushes whether the first value is not above the second one. Where
it is not, `max` pushes the first value and `min` the second one. -/
lemma pushed_lte_max_min (hkind : OneKind a b) (hab : Operands env s a b) :
    pushed env (ascii "$1 $2 <=") s = some (boolPtr (ordered a b != .gt)) ∧
      pushed env (ascii "$1 $2 max") s = some (some (if ordered a b != .gt then a else b)) ∧
      pushed env (ascii "$1 $2 min") s = some (some (if ordered a b != .gt then b else a)) := by
  obtain ⟨-, hgte⟩ := answers_lte_gte env.host hkind
  obtain ⟨hlte, -⟩ := answers_lte_gte env.host hkind.symm
  have hflip : (ordered b a != .lt) = (ordered a b != .gt) := by
    rw [ordered_swap hkind]
    cases ordered a b <;> rfl
  rw [hflip] at hgte
  refine ⟨?_, ?_, ?_⟩
  · exact pushed_of_performs rfl (by decide) rfl rfl hab fun s st _ =>
      performs_compareOp (f := Opr.gte env.host) hgte (fun _ he => by cases he)
  · refine pushed_of_performs rfl (by decide) rfl rfl hab fun s st _ => ?_
    refine (bind_eq_of_ok (hlte { s with st := st })).trans ?_
    cases ordered a b != .gt <;> rfl
  · refine pushed_of_performs rfl (by decide) rfl rfl hab fun s st _ => ?_
    refine (bind_eq_of_ok (hlte { s with st := st })).trans ?_
    cases ordered a b != .gt <;> rfl

lemma boolPtr_inj {x y : Bool} (h : boolPtr x = boolPtr y) : x = y := by
  cases x <;> cases y <;> first | rfl | cases h

/-- **`max` and `min` go by `<=` exactly for values that compare equal.** For all others `max` gives
the smaller value and `min` the larger one.
Hyps: `hkind` — two values of one of the types integer, string, identifier and time -/
theorem maxMinAgree_iff (env : Env) (s : State) (a b : Obj) (hkind : OneKind a b)
    (hab : Operands env s a b) : MaxMinAgree env s a b ↔ Same env s (some a) (some b) := by
  obtain ⟨hlte, hmax, hmin⟩ := pushed_lte_max_min hkind hab
  unfold MaxMinAgree
  rw [hlte, hmax, hmin]
  have hswap : Same env s (some b) (some a) ↔ Same env s (some a) (some b) := by
    rw [hkind.symm.same_iff, hkind.same_iff, ordered_swap hkind]
    cases ordered a b <;> simp
  constructor
  · rintro ⟨below, larger, smaller, hbelow, hlarger, -, hsame, -⟩
    obtain rfl : (ordered a b != .gt) = below := boolPtr_inj (some.inj hbelow)
    obtain rfl := some.inj hlarger
    split_ifs at hsame with hle
    · exact hsame
    · exact hswap.mp hsame
  · intro hsame
    refine ⟨_, _, _, rfl, rfl, rfl, ?_, ?_⟩
    · split_ifs
      · exact hsame
      · exact hswap.mpr hsame
    · split_ifs
      · exact hswap.mpr hsame
      · exact hsame

def pairState (i j : Int64) : State where
  heap := ⟨[⟨[some (.str []), some (.int64 i), some (.int64 j)], true⟩], [], [], [], []⟩
  st := []
  error := .PE_SUCCESS
  result := none
  queries := 0

theorem maxMinAgree_three :
    MaxMinAgree ⟨sampleHost, 0, 0⟩ (pairState 3 3) (.int64 3) (.int64 3) :=
  (maxMinAgree_iff _ _ (.int64 3) (.int64 3) (by decide) ⟨rfl, rfl⟩).mpr rfl

/-- **The maximum of 1 and 2 is 1.** -/
theorem max_pushes_smaller :
    OneKind (.int64 1) (.int64 2) ∧
      Operands ⟨sampleHost, 0, 0⟩ (pairState 1 2) (.int64 1) (.int64 2) ∧
      pushed ⟨sampleHost, 0, 0⟩ (ascii "$1 $2 <=") (pairState 1 2) = some (boolPtr true) ∧
      pushed ⟨sampleHost, 0, 0⟩ (ascii "$1 $2 max") (pairState 1 2) = some (some (.int64 1)) ∧
      pushed ⟨sampleHost, 0, 0⟩ (ascii "$1 $2 min") (pairState 1 2) = some (some (.int64 2)) ∧
      ¬ MaxMinAgree ⟨sampleHost, 0, 0⟩ (pairState 1 2) (.int64 1) (.int64 2) := by
  have hkind : OneKind (.int64 1) (.int64 2) := by decide
  obtain ⟨hlte, hmax, hmin⟩ :=
    @pushed_lte_max_min ⟨sampleHost, 0, 0⟩ (pairState 1 2) _ _ hkind ⟨rfl, rfl⟩
  refine ⟨hkind, ⟨rfl, rfl⟩, hlte, hmax, hmin, ?_⟩
  rintro ⟨below, larger, smaller, hbelow, hlarger, -, hsame, -⟩
  obtain rfl : true = below := boolPtr_inj (some.inj (hlte.symm.trans hbelow))
  obtain rfl := some.inj (hmax.symm.trans hlarger)
  exact absurd (Except.ok.inj hsame) (by decide)

end P2.Pel
