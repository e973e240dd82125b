import P2.Pel.Comparison
import P2.Pel.Safety

/-!
# Division

`DIV` and `MOD` test the divisor with `!=` against the integer zero, in the type of the divisor. The
division then takes place in the type of the dividend: `div_mod_iff`.
-/

namespace P2.Pel

open P2.Value P2.Lib.Exec

/-! ## Operands -/

/-- The types without a row in the operator table. -/
def isArray : Obj → Bool
  | .vector _ | .matrix _ => true
  | _ => false

/-- Whether a value differs from the integer zero after zero was cast to its type. Of the types that
cannot cast an integer no value is found to differ. -/
def differsFromZero (host : Host) : Obj → Bool
  | .null | .tuple _ => true
  | .str t => t != ascii "0"
  | .int64 i => i != 0
  | .double d => (host.ofInt64 0).lt d || d.lt (host.ofInt64 0)
  | .time t => (host.timeOfInt64 0).any fun zero => zero.lt t || t.lt zero
  | .id x => x != idOfWord 0
  | .timeDuration td => (host.durationOfInt64 0).lt td || td.lt (host.durationOfInt64 0)
  | _ => false

/-- A dividend and a divisor that can be divided or refused: neither is an array, an integer is not
divided by what is zero only as an integer, nor the least integer by minus one. A divisor that is zero
or cannot be compared with zero is refused whatever the dividend is. -/
def Divisible (host : Host) (a b : Obj) : Prop :=
  isArray b = false ∧ (differsFromZero host b → isArray a = false ∧
    ∀ i, a = .int64 i → castInt64 (some b) ≠ .ok 0 ∧
      ¬ (i = Int64.minValue ∧ castInt64 (some b) = .ok (-1)))

/-- The instruction pushes a result onto the stack `st`, or it returns an error code. -/
def PushesOrRefuses (env : Env) (inst : UInt32) (s : State) (st : List Ptr) : Prop :=
  ∃ error t, execute_instruction env inst s = .ok error t ∧
    (error = .PE_SUCCESS → ∃ v, t.st = v :: st)

section Division

variable {env : Env} {host : Host} {s : State} {st : List Ptr} {a b : Obj} {inst : UInt32}

/-! ## The test of the divisor -/

lemma ofTests_ne_eq (less greater : Bool) :
    (ofTests less greater != .eq) = (less || greater) := by
  cases less <;> cases greater <;> rfl

lemma neq_array (hb : isArray b) (q : Obj) :
    Opr.neq host (some b) (some q) s = .error (.faults .operTable) s := by
  cases b with
  | vector v => rfl
  | matrix m => rfl
  | _ => cases hb

lemma neq_of_cast {c : OperClass} {zero : Obj} {ord : Ordering} (hrow : rowOf (some b) = some c)
    (hnull : c ≠ .null) (htuple : c ≠ .tuple)
    (hcast : mkCast host c (some (.int64 0)) s = .ok zero s)
    (hcompare : compareTo s.heap host.room (some zero) (some b) = .ok ord) :
    Opr.neq host (some b) (some (.int64 0)) s = .ok (ord != .eq) s := by
  unfold Opr.neq
  rw [dispatch_eq hrow (Option.some_ne_none _), (eq_neq_operCompare host hnull htuple _ _).2]
  exact operCompare_eq_ok _ hrow hcast hcompare

lemma compare_ne_eq_iff {α : Type} [Ord α] [Std.LawfulEqOrd α] (x y : α) :
    (compare x y != .eq) = true ↔ y ≠ x := by
  rw [bne_iff_ne, ne_eq, Std.LawfulEqCmp.compare_eq_iff_eq, ne_comm]

lemma neq_zero (hepoch : (host.timeOfInt64 0).isSome) (hb : isArray b = false) :
    Opr.neq host (some b) (some (.int64 0)) s = .ok (differsFromZero host b) s ∨
      (differsFromZero host b = false ∧
        Opr.neq host (some b) (some (.int64 0)) s = .error (.throws .typeError) s) := by
  cases b with
  | vector v => cases hb
  | matrix m => cases hb
  | opaqueBuf o => exact .inr ⟨rfl, rfl⟩
  | set a => exact .inr ⟨rfl, rfl⟩
  | list a => exact .inr ⟨rfl, rfl⟩
  | null => exact .inl rfl
  | tuple t =>
    refine .inl ?_
    cases t <;> rfl
  | str t =>
    refine .inl ((neq_of_cast (c := .str) rfl (by decide) (by decide) rfl rfl).trans ?_)
    refine congrArg (EStateM.Result.ok · s) (Bool.eq_iff_iff.mpr ?_)
    exact (compare_ne_eq_iff (ascii "0") t).trans bne_iff_ne.symm
  | int64 i =>
    refine .inl ((neq_of_cast (c := .int64) rfl (by decide) (by decide) rfl rfl).trans ?_)
    rw [ofTests_ne_eq]
    refine congrArg (EStateM.Result.ok · s) ?_
    rw [Bool.eq_iff_iff, Bool.or_eq_true, decide_eq_true_iff, decide_eq_true_iff]
    show 0 < i ∨ i < 0 ↔ (i != 0) = true
    grind
  | double d =>
    refine .inl ((neq_of_cast (c := .double) rfl (by decide) (by decide) rfl rfl).trans ?_)
    exact congrArg (EStateM.Result.ok · s) (ofTests_ne_eq _ _)
  | time t =>
    obtain ⟨zero, hzero⟩ := Option.isSome_iff_exists.mp hepoch
    have hcast : mkCast host .time (some (.int64 0)) s = .ok (.time zero) s := by
      simp only [mkCast, read]
      apply ofExcept_eq_of_ok
      show Obj.time <$> orThrow (host.timeOfInt64 0) = _
      rw [hzero]
      rfl
    refine .inl ((neq_of_cast (c := .time) rfl (by decide) (by decide) hcast rfl).trans ?_)
    rw [ofTests_ne_eq]
    unfold differsFromZero
    rw [hzero]
    rfl
  | id x =>
    refine .inl ((neq_of_cast (c := .id) rfl (by decide) (by decide) rfl rfl).trans ?_)
    refine congrArg (EStateM.Result.ok · s) (Bool.eq_iff_iff.mpr ?_)
    rw [compare_ne_eq_iff]
    show x.words ≠ (idOfWord 0).words ↔ (x != idOfWord 0) = true
    rw [bne_iff_ne]
    exact not_congr words_inj
  | timeDuration td =>
    refine .inl ((neq_of_cast (c := .timeDuration) rfl (by decide) (by decide) rfl rfl).trans ?_)
    exact congrArg (EStateM.Result.ok · s) (ofTests_ne_eq _ _)

/-! ## What stays as it is -/

def Kept (s t : State) : Prop := t.st = s.st ∧ t.error = s.error

/-- A program that leaves the stack and the error code alone, whether it returns or not. -/
def KeepsStack {α : Type} (m : VM α) : Prop := ∀ s, Ends (fun _ t => Kept s t) m s fun _ t => Kept s t

lemma KeepsStack.bind {α β : Type} {m : VM α} {f : α → VM β} (hm : KeepsStack m)
    (hf : ∀ v, KeepsStack (f v)) : KeepsStack (m >>= f) := by
  intro s
  rw [ends_bind]
  refine (hm s).imp fun v t ht => (hf v t).mono ?_ ?_
  · exact fun _ u hu => ⟨hu.1.trans ht.1, hu.2.trans ht.2⟩
  · exact fun _ u hu => ⟨hu.1.trans ht.1, hu.2.trans ht.2⟩

lemma keepsStack_read {α : Type} (x : Heap → Except Trouble α) : KeepsStack (read x) :=
  fun _ => ends_ofExcept.mpr ⟨fun _ _ => ⟨rfl, rfl⟩, fun _ _ => ⟨rfl, rfl⟩⟩

lemma keepsStack_castSet (p : Ptr) : KeepsStack (castSet p) := by
  intro s
  cases p with
  | none => exact ⟨rfl, rfl⟩
  | some o => cases o <;> exact ⟨rfl, rfl⟩

lemma keepsStack_setOp (keepLeft keepBoth keepRight : Bool) (p q : Ptr) :
    KeepsStack (setOp host keepLeft keepBoth keepRight p q) := by
  refine (keepsStack_castSet p).bind fun x => (keepsStack_castSet q).bind fun y => ?_
  exact (keepsStack_read _).bind fun elements _ => ⟨rfl, rfl⟩

lemma keepsStack_divide_mod (host : Host) (p q : Ptr) :
    KeepsStack (Opr.divide host p q) ∧ KeepsStack (Opr.mod p q) := by
  have hdispatch : ∀ f : OperClass → VM Ptr, (∀ c, KeepsStack (f c)) → KeepsStack (dispatch p q f) := by
    intro f hf
    refine (keepsStack_read _).bind fun o1 => (keepsStack_read _).bind fun o2 => ?_
    split
    · exact hf _
    · exact fun _ => ⟨rfl, rfl⟩
  refine ⟨hdispatch _ fun c => ?_, hdispatch _ fun c => ?_⟩
  · cases c with
    | int64 =>
      unfold _divide
      exact keepsStack_read _
    | double =>
      unfold _divide doubleOp
      exact keepsStack_read _
    | set => exact keepsStack_setOp _ _ _ p q
    | _ => exact fun _ => ⟨rfl, rfl⟩
  · cases c with
    | int64 =>
      unfold _mod
      exact keepsStack_read _
    | _ => exact fun _ => ⟨rfl, rfl⟩

/-! ## The division itself -/

lemma ends_divide_mod (ha : whole host s.heap (some a)) (hb : whole host s.heap (some b))
    (harray : isArray a = false)
    (hint : ∀ i, a = .int64 i → castInt64 (some b) ≠ .ok 0 ∧
      ¬ (i = Int64.minValue ∧ castInt64 (some b) = .ok (-1))) :
    Ends (fun e t => Allowed s.heap e t ∨ e = .throws .divisionByZero ∧ t = s)
        (Opr.divide host (some a) (some b)) s (fun _ _ => True) ∧
      EndsWell s.heap (Opr.mod (some a) (some b)) s := by
  have hready : ∀ c, rowOf (some a) = some c → c ≠ .str → c ≠ .time →
      OperReady host s.heap (some a) (some b) := by
    intro c hrow hstr htime
    exact ⟨c, hrow, ⟨ha, fun h => absurd h hstr, fun h => absurd h htime⟩,
      ⟨hb, fun h => absurd h hstr, fun h => absurd h htime⟩⟩
  have htrap : NoOverflow (some a) (some b) := by
    intro hrow hover
    cases a with
    | int64 i => exact (hint i rfl).2 ⟨Except.ok.inj hover.1, hover.2⟩
    | _ => cases hrow
  have hzero : rowOf (some a) = some .int64 → castInt64 (some b) ≠ .ok 0 := by
    intro hrow
    cases a with
    | int64 i => exact (hint i rfl).1
    | _ => cases hrow
  have hends : ∀ c, rowOf (some a) = some c → c ≠ .str → c ≠ .time → _ := fun c hrow hstr htime =>
    And.intro (ends_divide rfl (hready c hrow hstr htime) htrap)
      (ends_mod rfl (hready c hrow hstr htime) htrap hzero)
  cases a with
  | vector v => cases harray
  | matrix m => cases harray
  | int64 i => exact hends .int64 rfl (by decide) (by decide)
  | double d => exact hends .double rfl (by decide) (by decide)
  | set a => exact hends .set rfl (by decide) (by decide)
  | _ => exact ⟨Or.inl ⟨Or.inl rfl, rfl⟩, Or.inl rfl, rfl⟩

lemma mod_array (ha : isArray a) :
    Opr.mod (some a) (some b) s = .error (.faults .operTable) s := by
  cases a with
  | vector v => rfl
  | matrix m => rfl
  | _ => cases ha

lemma mod_traps {i n : Int64} (hn : castInt64 (some b) = .ok n)
    (htrap : n = 0 ∨ (i = Int64.minValue ∧ n = -1)) :
    Opr.mod (some (.int64 i)) (some b) s = .error (.faults .arithmetic) s := by
  unfold Opr.mod
  rw [dispatch_eq (c := .int64) rfl (Option.some_ne_none _)]
  unfold _mod read
  apply ofExcept_eq_of_error
  rw [hn]
  show (quotient (· % ·) i n).bind _ = _
  unfold quotient
  rw [if_pos htrap]
  rfl

/-! ## Instructions -/

lemma pushesOrRefuses_of_ends {entry : JumpTableEnt}
    (hentry : jump_table[(inst &&& 0xFFFF).toNat]? = some entry)
    (harity : entry.arity ≤ s.st.length) (hoperand : OperandReady env s.heap)
    (hends : Ends (Allowed s.heap) (entry.fn.fn env inst) s
      fun _ t => t.error = .PE_SUCCESS → ∃ v, t.st = v :: st) :
    PushesOrRefuses env inst s st := by
  unfold PushesOrRefuses
  rw [execute_instruction_eq hentry harity]
  unfold Ends at hends
  cases hbody : entry.fn.fn env inst s with
  | ok u t =>
    rw [hbody] at hends
    refine ⟨t.error, t, ?_, hends⟩
    rw [bind_eq_of_ok (tryCatch_eq_of_ok hbody)]
    rfl
  | error e t =>
    rw [hbody] at hends
    obtain ⟨hcaught, hparts⟩ := hends
    obtain ⟨code, hhandle, hsuccess, -⟩ := handle_eq hcaught ((sound_congr hparts).trans hoperand)
    refine ⟨code, { t with error := code }, ?_, fun h => absurd h hsuccess⟩
    rw [bind_eq_of_ok ((tryCatch_eq_of_error hbody).trans hhandle)]
    rfl

lemma not_pushesOrRefuses {entry : JumpTableEnt} {f : Fault} {t : State}
    (hentry : jump_table[(inst &&& 0xFFFF).toNat]? = some entry)
    (harity : entry.arity ≤ s.st.length) (hbody : entry.fn.fn env inst s = .error (.faults f) t) :
    ¬ PushesOrRefuses env inst s st := by
  rintro ⟨error, u, hrun, -⟩
  have hfault : (tryCatch (entry.fn.fn env inst) (handle env)) s = .error (.faults f) t :=
    (tryCatch_eq_of_error hbody).trans rfl
  rw [execute_instruction_eq hentry harity, bind_eq_of_error hfault] at hrun
  cases hrun

lemma Divisible.ends (hdiv : Divisible env.host a b) (hst : s.st = some b :: some a :: st)
    (herror : s.error = .PE_SUCCESS) (ha : whole env.host s.heap (some a))
    (hb : whole env.host s.heap (some b)) (hepoch : (env.host.timeOfInt64 0).isSome) :
    Ends (Allowed s.heap) (op_DIV env) s
        (fun _ t => t.error = .PE_SUCCESS → ∃ v, t.st = v :: st) ∧
      Ends (Allowed s.heap) (op_MOD env) s
        fun _ t => t.error = .PE_SUCCESS → ∃ v, t.st = v :: st := by
  obtain ⟨h, _, err, res, k⟩ := s
  obtain rfl : _ = some b :: some a :: st := hst
  obtain rfl : err = .PE_SUCCESS := herror
  let s' : State := ⟨h, st, .PE_SUCCESS, res, k⟩
  -- the stack of a quotient that was pushed
  have hpushed : ∀ (v : Ptr) (t : State), Kept s' t → ∃ v', (v :: t.st) = v' :: st :=
    fun v t ht => ⟨v, by rw [ht.1]⟩
  unfold op_DIV op_MOD
  simp only [ends_bind, ends_pop]
  rcases neq_zero (s := s') hepoch hdiv.1 with hok | ⟨-, hthrow⟩
  · rw [ends_of_eq hok, ends_of_eq hok]
    simp only [ends_ite, ends_tryCatch, ends_bind, ends_get, ends_setError, ends_stackPush, ends_throw,
      ends_pure]
    refine ⟨⟨fun hne => ?_, fun _ => ⟨fun _ hsuccess => ?_, fun hnot => absurd rfl hnot⟩⟩,
      fun hne => ?_, fun _ => ⟨fun _ hsuccess => ?_, fun hnot => absurd rfl hnot⟩⟩
    · obtain ⟨hdivide, -⟩ := ends_divide_mod (s := s') ha hb (hdiv.2 hne).1 (hdiv.2 hne).2
      refine (hdivide.and ((keepsStack_divide_mod env.host _ _).1 s')).mono ?_ ?_
      · rintro e t ⟨(hallowed | ⟨rfl, -⟩), -⟩
        · refine ⟨?_, fun _ => hallowed⟩
          rintro rfl
          rcases hallowed.1 with h | h <;> cases h
        · exact ⟨fun _ hsuccess => absurd hsuccess (by decide), fun hnot => absurd rfl hnot⟩
      · exact fun v t ht _ => hpushed v t ht.2
    · cases hsuccess
    · obtain ⟨-, hmod⟩ := ends_divide_mod (s := s') ha hb (hdiv.2 hne).1 (hdiv.2 hne).2
      refine (hmod.and ((keepsStack_divide_mod env.host _ _).2 s')).mono (fun _ _ he => he.1) ?_
      exact fun v t ht _ => hpushed v t ht.2
    · cases hsuccess
  · rw [ends_of_error hthrow, ends_of_error hthrow]
    exact ⟨⟨typeError_caught, rfl⟩, typeError_caught, rfl⟩

lemma divisible_of_mod (hst : s.st = some b :: some a :: st)
    (hepoch : (env.host.timeOfInt64 0).isSome)
    (hmod : ∀ f t, op_MOD env s ≠ .error (.faults f) t) : Divisible env.host a b := by
  obtain ⟨h, _, err, res, k⟩ := s
  obtain rfl : _ = some b :: some a :: st := hst
  let s' : State := ⟨h, st, err, res, k⟩
  have harray : isArray b = false := by
    rw [← Bool.not_eq_true]
    intro hb
    refine hmod .operTable s' ?_
    show (Opr.neq env.host (some b) (some (.int64 0)) >>= _) s' = _
    exact bind_eq_of_error (neq_array hb _)
  refine ⟨harray, fun hne => ?_⟩
  have hok : Opr.neq env.host (some b) (some (.int64 0)) s' = .ok true s' := by
    rcases neq_zero (s := s') hepoch harray with hok | ⟨hfalse, -⟩
    · rw [hok, hne]
    · rw [hfalse] at hne
      cases hne
  -- a fault of the remainder is a fault of the body
  have hfault : ∀ f, Opr.mod (some a) (some b) s' ≠ .error (.faults f) s' := by
    intro f hf
    refine hmod f s' ?_
    show (Opr.neq env.host (some b) (some (.int64 0)) >>= _) s' = _
    rw [bind_eq_of_ok hok]
    exact bind_eq_of_error hf
  refine ⟨?_, ?_⟩
  · rw [← Bool.not_eq_true]
    exact fun ha => hfault _ (mod_array ha)
  · rintro i rfl
    refine ⟨fun hzero => hfault _ (mod_traps hzero (.inl rfl)), ?_⟩
    rintro ⟨rfl, hone⟩
    exact hfault _ (mod_traps hone (.inr ⟨rfl, rfl⟩))

end Division

/-- **When division pushes or refuses.** On values of any types, `/` and `%` push a result or return
an error code exactly if the operands are divisible.
Hyps: the values and the operand tuple have no null pointers inside and are not nested deeper than
the call stack allows; `hepoch` — the time library has the time zero -/
theorem div_mod_iff (env : Env) (s : State) (st : List Ptr) (a b : Obj)
    (hst : s.st = some b :: some a :: st) (herror : s.error = .PE_SUCCESS)
    (hoperand : OperandReady env s.heap) (ha : whole env.host s.heap (some a))
    (hb : whole env.host s.heap (some b)) (hepoch : (env.host.timeOfInt64 0).isSome) :
    (PushesOrRefuses env (instruction 0 142) s st ∧ PushesOrRefuses env (instruction 0 61) s st) ↔
      Divisible env.host a b := by
  have hdiv : jump_table[(instruction 0 142 &&& 0xFFFF).toNat]? = some ⟨"/", 2, .DIV⟩ := by
    rfl
  have hmod : jump_table[(instruction 0 61 &&& 0xFFFF).toNat]? = some ⟨"%", 2, .MOD⟩ := by
    rw [opcode_instruction (by decide)]
    rfl
  have harity : 2 ≤ s.st.length := by
    rw [hst]
    exact Nat.le_add_left _ _
  constructor
  · rintro ⟨-, hpushes⟩
    refine divisible_of_mod hst hepoch fun f t hfault => ?_
    exact not_pushesOrRefuses hmod harity hfault hpushes
  · intro h
    obtain ⟨hends, hends'⟩ := h.ends hst herror ha hb hepoch
    exact ⟨pushesOrRefuses_of_ends hdiv harity hoperand hends,
      pushesOrRefuses_of_ends hmod harity hoperand hends'⟩

def clockEnv : Env := ⟨{ sampleHost with timeOfInt64 := fun i => some (.ticks i.toInt) }, 0, 0⟩

/-- A remainder on the stack of a machine with an empty operand tuple. -/
def remainderState (a b : Obj) : State where
  heap := ⟨[⟨[], true⟩], [], [], [], []⟩
  st := [some b, some a]
  error := .PE_SUCCESS
  result := none
  queries := 0

theorem div_mod_seven_two :
    PushesOrRefuses clockEnv (instruction 0 142) (remainderState (.int64 7) (.int64 2)) [] ∧
      PushesOrRefuses clockEnv (instruction 0 61) (remainderState (.int64 7) (.int64 2)) [] := by
  refine (div_mod_iff clockEnv (remainderState (.int64 7) (.int64 2)) [] (.int64 7) (.int64 2) rfl rfl
    rfl (by decide) (by decide) rfl).mpr ⟨rfl, fun _ => ⟨rfl, ?_⟩⟩
  rintro i ⟨⟩
  exact ⟨by decide, by decide⟩

/-- **The remainder of 7 by the null value traps.** The null value differs from zero, and is cast to
zero for the division. -/
theorem mod_null_traps :
    OperandReady clockEnv (remainderState (.int64 7) .null).heap ∧
      castInt64 (some .null) = .ok 0 ∧
      execute_instruction clockEnv (instruction 0 61) (remainderState (.int64 7) .null) =
        .error (.faults .arithmetic) { remainderState (.int64 7) .null with st := [] } ∧
      ¬ PushesOrRefuses clockEnv (instruction 0 61) (remainderState (.int64 7) .null) [] := by
  have hrun : execute_instruction clockEnv (instruction 0 61)
      (remainderState (.int64 7) .null) =
        .error (.faults .arithmetic) { remainderState (.int64 7) .null with st := [] } := rfl
  refine ⟨rfl, rfl, hrun, ?_⟩
  rintro ⟨error, t, hok, -⟩
  cases hok

end P2.Pel
