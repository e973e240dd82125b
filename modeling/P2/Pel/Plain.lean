import P2.Pel.Oper
import P2.Pel.Run

/-!
# Operators on integers and identifiers

On values of the types `INT64` and `ID` the operators neither read nor change the state of the
machine: they return a value of these types, or throw an exception that the machine catches, or
trap: `plainly_arith`, `answers_order`, `plainly_interval`.
-/

namespace P2.Pel

open P2.Value P2.Lib.Exec

def Plain : Ptr → Prop
  | some (.int64 _) => True
  | some (.id _) => True
  | _ => False

/-- What an operator comes to. It is run with an empty machine, which makes no difference on plain
values. -/
def oprValue {α : Type} (m : VM α) : Except Trouble α :=
  match m ⟨⟨[], [], [], [], []⟩, [], .PE_SUCCESS, none, 0⟩ with
  | .ok v _ => .ok v
  | .error e _ => .error e

def castAs : Ptr → Ptr → Except Trouble Ptr
  | some (.int64 _), v => do .ok (some (.int64 (← castInt64 v)))
  | some (.id _), v => do .ok (some (.id (← castID v)))
  | _, _ => .error (.throws .operException)

def compared (host : Host) (a b : Ptr) : Except Trouble Ordering := do
  let c1 ← castAs a a
  let c2 ← castAs a b
  compareTo ⟨[], [], [], [], []⟩ host.room c1 c2

/-- The program answers with a plain value, or fails in a way that the machine catches, or traps. -/
structure Plainly {α : Type} (good : α → Prop) (m : VM α) : Prop where
  answers : Answers m (oprValue m)
  catchable : Catchable (oprValue m)
  good : ∀ v, oprValue m = .ok v → good v

section Lemmas

variable {α β : Type} {host : Host} {a b x : Ptr} {m : VM α} {r : Except Trouble α}
  {good : α → Prop}

lemma Plain.ne_none (ha : Plain a) : a ≠ none := by
  rintro rfl
  exact ha

lemma Plain.cases (ha : Plain a) : (∃ i, a = some (.int64 i)) ∨ ∃ i, a = some (.id i) := by
  cases a with
  | none => exact ha.elim
  | some o =>
    cases o with
    | int64 i => exact .inl ⟨i, rfl⟩
    | id i => exact .inr ⟨i, rfl⟩
    | _ => exact ha.elim

lemma Answers.oprValue_eq (hm : Answers m r) : oprValue m = r := by
  unfold oprValue
  rw [hm]
  cases r <;> rfl

lemma catchable_of_fine (hr : Fine r) : Catchable r := fun e he => .inl (hr e he)

lemma Plainly.of_answers (hm : Answers m r) (hr : Catchable r) (hgood : ∀ v, r = .ok v → good v) :
    Plainly good m := by
  have hvalue := hm.oprValue_eq
  exact ⟨hvalue ▸ hm, hvalue ▸ hr, fun v hv => hgood v (hvalue ▸ hv)⟩

lemma Plainly.of_fine (hm : Answers m r) (hr : Fine r) (hgood : ∀ v, r = .ok v → good v) :
    Plainly good m :=
  .of_answers hm (catchable_of_fine hr) hgood

lemma plainly_noSup : Plainly good (noSup : VM α) := by
  refine .of_fine (answers_throw _) (fine_error (.inl rfl)) fun v hv => ?_
  cases hv

/-! ## Arithmetic -/

lemma plainly_casts {x : Except Trouble α} {y : Except Trouble β} {f : α → β → Obj}
    (hx : Fine x) (hy : Fine y) (hf : ∀ i j, Plain (some (f i j))) :
    Plainly Plain (read fun _ => do .ok (some (f (← x) (← y)))) := by
  refine .of_fine (answers_read _) (hx.bind fun _ _ => hy.bind fun _ _ => fine_ok _) fun v hv => ?_
  obtain ⟨i, -, hv⟩ := exists_of_bind_ok hv
  obtain ⟨j, -, hv⟩ := exists_of_bind_ok hv
  cases hv
  exact hf i j

lemma plainly_int64Op {f : Int64 → Int64 → Int64} (ha : Plain a) (hb : Plain b) :
    Plainly Plain (int64Op f a b) :=
  plainly_casts (f := fun i j => .int64 (f i j)) (fine_castInt64 ha.ne_none)
    (fine_castInt64 hb.ne_none) fun _ _ => trivial

lemma plainly_idOp {f : Value.ID → Value.ID → Value.ID} (ha : Plain a) (hb : Plain b) :
    Plainly Plain (idOp f a b) :=
  plainly_casts (f := fun i j => .id (f i j)) (fine_castID ha.ne_none) (fine_castID hb.ne_none)
    fun _ _ => trivial

lemma plainly_idShift {f : Value.ID → UInt32 → Value.ID} (ha : Plain a) (hb : Plain b) :
    Plainly Plain (idShift f a b) :=
  plainly_casts (f := fun i j => .id (f i (Int64.toUInt64 j).toUInt32)) (fine_castID ha.ne_none)
    (fine_castInt64 hb.ne_none) fun _ _ => trivial

lemma plainly_dispatch {f : OperClass → VM α} (ha : Plain a) (hb : Plain b)
    (hint : rowOf a = some .int64 → Plainly good (f .int64))
    (hid : rowOf a = some .id → Plainly good (f .id)) : Plainly good (dispatch a b f) := by
  rcases ha.cases with ⟨i, rfl⟩ | ⟨i, rfl⟩
  · rw [dispatch_eq (c := .int64) rfl hb.ne_none]
    exact hint rfl
  · rw [dispatch_eq (c := .id) rfl hb.ne_none]
    exact hid rfl

/-- **Arithmetic without division is plain.** -/
theorem plainly_arith (ha : Plain a) (hb : Plain b) :
    Plainly Plain (Opr.lshift a b) ∧ Plainly Plain (Opr.rshift a b) ∧
    Plainly Plain (Opr.plus host a b) ∧ Plainly Plain (Opr.minus host a b) ∧
    Plainly Plain (Opr.times host a b) ∧ Plainly Plain (Opr.band host a b) ∧
    Plainly Plain (Opr.bor host a b) ∧ Plainly Plain (Opr.bxor host a b) := by
  have hint {f : Int64 → Int64 → Int64} : Plainly Plain (int64Op f a b) := plainly_int64Op ha hb
  have hid {f : Value.ID → Value.ID → Value.ID} : Plainly Plain (idOp f a b) := plainly_idOp ha hb
  have hshift {f : Value.ID → UInt32 → Value.ID} : Plainly Plain (idShift f a b) :=
    plainly_idShift ha hb
  refine ⟨?_, ?_, ?_, ?_, plainly_dispatch ha hb (fun _ => hint) fun _ => plainly_noSup, ?_, ?_, ?_⟩
  iterate 2 exact plainly_dispatch ha hb (fun _ => hint) fun _ => hshift
  all_goals exact plainly_dispatch ha hb (fun _ => hint) fun _ => hid

lemma plainly_quotient {f : Int64 → Int64 → Int64} {i j : Int64} {m : VM Ptr}
    (hm : Answers m (do .ok (some (.int64 (← quotient f i j))))) : Plainly Plain m := by
  refine .of_answers hm ?_ fun v hv => ?_
  · unfold quotient
    split_ifs
    · rintro e ⟨⟩
      exact .inr rfl
    · rintro e ⟨⟩
  · obtain ⟨k, -, hv⟩ := exists_of_bind_ok hv
    cases hv
    trivial

lemma plainly_divide (host : Host) (ha : Plain a) (hb : Plain b) (hzero : b ≠ some (.int64 0)) :
    Plainly Plain (Opr.divide host a b) := by
  refine plainly_dispatch ha hb (fun hrow => ?_) fun _ => plainly_noSup
  rcases ha.cases with ⟨i, rfl⟩ | ⟨i, rfl⟩
  · rcases hb.cases with ⟨j, rfl⟩ | ⟨j, rfl⟩
    · have hj : j ≠ 0 := fun h => hzero (by rw [h])
      refine plainly_quotient (f := (· / ·)) (i := i) (j := j) ?_
      have hdivide : _divide host .int64 (some (.int64 i)) (some (.int64 j)) = read fun _ =>
          if j = 0 then .error (.throws .divisionByZero)
          else (do .ok (some (.int64 (← quotient (· / ·) i j)))) := rfl
      rw [hdivide, if_neg hj]
      exact answers_read _
    · exact .of_fine (answers_read (.error _)) fine_typeError fun v hv => by cases hv
  · cases hrow

lemma plainly_mod (ha : Plain a) (hb : Plain b) : Plainly Plain (Opr.mod a b) := by
  refine plainly_dispatch ha hb (fun hrow => ?_) fun _ => plainly_noSup
  rcases ha.cases with ⟨i, rfl⟩ | ⟨i, rfl⟩
  · rcases hb.cases with ⟨j, rfl⟩ | ⟨j, rfl⟩
    · exact plainly_quotient (f := (· % ·)) (i := i) (j := j) (answers_read _)
    · exact .of_fine (answers_read (.error _)) fine_typeError fun v hv => by cases hv
  · cases hrow

/-! ## Comparisons -/

lemma ofTests_swap (i j : Int64) :
    ofTests (j < i) (j > i) = (ofTests (i < j) (i > j)).swap := by
  unfold ofTests
  by_cases hlt : i < j
  · have hnot : ¬ j < i := by grind
    simp [hlt, hnot]
  · by_cases hgt : j < i
    · simp [hlt, hgt]
    · simp [hlt, hgt]

lemma answers_cast {α : Type} {f : α → Obj} {x : Except Trouble α} {v : α} (hx : x = .ok v) :
    Answers (read fun _ => f <$> x) (.ok (f v)) := by
  subst hx
  exact answers_read _

lemma answers_cast_error {α : Type} {f : α → Obj} {x : Except Trouble α} {e : Trouble}
    (hx : x = .error e) : Answers (read fun _ => f <$> x) (.error e) := by
  subst hx
  exact answers_read _

lemma compared_int64 (i : Int64) : compared host (some (.int64 i)) b =
    (fun j => ofTests (i < j) (i > j)) <$> castInt64 b := by
  show ((castInt64 b >>= fun j => .ok (some (Obj.int64 j))) >>= fun c =>
    compareTo _ host.room (some (.int64 i)) c) = _
  cases castInt64 b <;> rfl

lemma compared_id (i : Value.ID) : compared host (some (.id i)) b =
    (fun j : Value.ID => compare i.words j.words) <$> castID b := by
  show ((castID b >>= fun j => .ok (some (Obj.id j))) >>= fun c =>
    compareTo _ host.room (some (.id i)) c) = _
  cases castID b <;> rfl

lemma answers_operCompare {c : OperClass} {test : Ordering → Bool} (ha : Plain a)
    (hrow : rowOf a = some c) :
    Answers (operCompare host test c a b) ((fun o => test o.swap) <$> compared host a b) := by
  rcases ha.cases with ⟨i, rfl⟩ | ⟨i, rfl⟩
  · obtain rfl : OperClass.int64 = c := Option.some.inj hrow
    rw [compared_int64]
    cases hj : castInt64 b with
    | ok j =>
      refine Answers.bind_ok (answers_cast rfl) (Answers.bind_ok (answers_cast hj) fun s => ?_)
      show EStateM.Result.ok (test (ofTests (j < i) (j > i))) s = _
      rw [ofTests_swap]
      rfl
    | error e =>
      exact Answers.bind_ok (answers_cast rfl) (Answers.bind_error (answers_cast_error hj))
  · obtain rfl : OperClass.id = c := Option.some.inj hrow
    rw [compared_id]
    cases hj : castID b with
    | ok j =>
      refine Answers.bind_ok (answers_cast rfl) (Answers.bind_ok (answers_cast hj) fun s => ?_)
      show EStateM.Result.ok (test (compare j.words i.words)) s = _
      rw [Std.OrientedOrd.eq_swap]
      rfl
    | error e =>
      exact Answers.bind_ok (answers_cast rfl) (Answers.bind_error (answers_cast_error hj))

lemma fine_compared (ha : Plain a) (hb : Plain b) : Fine (compared host a b) := by
  rcases ha.cases with ⟨i, rfl⟩ | ⟨i, rfl⟩
  · rw [compared_int64]
    exact (fine_castInt64 hb.ne_none).map
  · rw [compared_id]
    exact (fine_castID hb.ne_none).map

lemma answers_dispatch {f : OperClass → VM α} {c : OperClass} (hrow : rowOf a = some c)
    (hb : Plain b) (hf : Answers (f c) r) : Answers (dispatch a b f) r := by
  rw [dispatch_eq hrow hb.ne_none]
  exact hf

lemma rowOf_plain (ha : Plain a) : rowOf a = some .int64 ∨ rowOf a = some .id := by
  rcases ha.cases with ⟨i, rfl⟩ | ⟨i, rfl⟩
  · exact .inl rfl
  · exact .inr rfl

/-- **The four order operators**, with the reversal of the comparison undone. -/
theorem answers_order (ha : Plain a) (hb : Plain b) :
    Answers (Opr.gt host a b) ((· == .lt) <$> compared host a b) ∧
    Answers (Opr.gte host a b) ((· != .gt) <$> compared host a b) ∧
    Answers (Opr.lt host a b) ((· == .gt) <$> compared host a b) ∧
    Answers (Opr.lte host a b) ((· != .lt) <$> compared host a b) := by
  have hswap : (fun o : Ordering => o.swap == .gt) = (· == .lt) ∧
      (fun o : Ordering => o.swap != .lt) = (· != .gt) ∧
      (fun o : Ordering => o.swap == .lt) = (· == .gt) ∧
      (fun o : Ordering => o.swap != .gt) = (· != .lt) := by
    refine ⟨?_, ?_, ?_, ?_⟩ <;> funext o <;> cases o <;> rfl
  rw [← hswap.1, ← hswap.2.1, ← hswap.2.2.1, ← hswap.2.2.2]
  rcases rowOf_plain ha with hrow | hrow
  all_goals
    refine ⟨?_, ?_, ?_, ?_⟩
    all_goals exact answers_dispatch hrow hb (answers_operCompare ha hrow)

/-- `==` with both sides cast to the type of the first; a failed cast makes a difference. -/
def equal (host : Host) (a b : Ptr) : Except Trouble Bool :=
  match compared host a b with
  | .ok o => .ok (o == .eq)
  | .error e => if e = .throws .typeError then .ok false else .error e

lemma answers_eq (ha : Plain a) (hb : Plain b) : Answers (Opr.eq host a b) (equal host a b) := by
  have hcompare : Answers (dispatch a b fun c => _eq host c a b)
      ((fun o => o.swap == .eq) <$> compared host a b) := by
    rcases rowOf_plain ha with hrow | hrow
    · exact answers_dispatch hrow hb (answers_operCompare ha hrow)
    · exact answers_dispatch hrow hb (answers_operCompare ha hrow)
  intro s
  unfold Opr.eq equal
  cases hr : compared host a b with
  | ok o =>
    rw [hr] at hcompare
    rw [tryCatch_eq_of_ok (hcompare s)]
    cases o <;> rfl
  | error e =>
    rw [hr] at hcompare
    rw [tryCatch_eq_of_error (hcompare s)]
    by_cases he : e = .throws .typeError
    · simp only [if_pos he]
      rfl
    · simp only [if_neg he]
      rfl

lemma fine_equal (ha : Plain a) (hb : Plain b) : Fine (equal host a b) := by
  intro e he
  unfold equal at he
  cases hr : compared host a b with
  | ok o => rw [hr] at he; cases he
  | error e' =>
    rw [hr] at he
    simp only at he
    split_ifs at he
    cases he
    exact fine_compared ha hb _ hr

lemma answers_neq_zero (host : Host) (hb : Plain b) : ∃ t, Answers (Opr.neq host b (some (.int64 0))) (.ok t) ∧
    (∀ j, b = some (.int64 j) → (t = true ↔ j ≠ 0)) := by
  rcases hb.cases with ⟨j, rfl⟩ | ⟨j, rfl⟩
  · refine ⟨ofTests (0 < j) (0 > j) != .eq, fun s => rfl, ?_⟩
    unfold ofTests
    by_cases hpos : 0 < j
    · have hj : j ≠ 0 := by grind
      simp [hpos, hj]
    · by_cases hneg : 0 > j
      · have hj : j ≠ 0 := by grind
        simp [hpos, hneg, hj]
      · have hj : j = 0 := by grind
        simp [hj]
  · exact ⟨compare (idOfWord 0).words j.words != .eq, fun s => rfl, fun _ h => by cases h⟩

/-! ## Intervals -/

def Kind (c : OperClass) (o : Obj) : Prop :=
  (c = .int64 ∧ ∃ i, o = .int64 i) ∨ (c = .id ∧ ∃ i, o = .id i)

lemma answers_mkCast {c : OperClass} (hc : c = .int64 ∨ c = .id) (ha : Plain a) :
    (∃ o, Kind c o ∧ Answers (mkCast host c a) (.ok o)) ∨
    ∃ e, e.Caught ∧ Answers (mkCast host c a) (.error e) := by
  rcases hc with rfl | rfl
  · cases hi : castInt64 a with
    | ok i => exact .inl ⟨_, .inl ⟨rfl, i, rfl⟩, answers_cast hi⟩
    | error e => exact .inr ⟨e, fine_castInt64 ha.ne_none e hi, answers_cast_error hi⟩
  · cases hi : castID a with
    | ok i => exact .inl ⟨_, .inr ⟨rfl, i, rfl⟩, answers_cast hi⟩
    | error e => exact .inr ⟨e, fine_castID ha.ne_none e hi, answers_cast_error hi⟩

lemma answers_comparePtr (host : Host) {c : OperClass} {o o' : Obj} (ho : Kind c o) (ho' : Kind c o') :
    ∃ ord, Answers (comparePtr host (some o) (some o')) (.ok ord) := by
  rcases ho with ⟨rfl, i, rfl⟩ | ⟨rfl, i, rfl⟩
  · rcases ho' with ⟨-, j, rfl⟩ | ⟨hc, -⟩
    · exact ⟨_, fun s => rfl⟩
    · cases hc
  · rcases ho' with ⟨hc, -⟩ | ⟨-, j, rfl⟩
    · cases hc
    · exact ⟨_, fun s => rfl⟩

lemma plainly_interval_class {c : OperClass} {above below : Ordering → Bool}
    (hc : c = .int64 ∨ c = .id) (hx : Plain x) (ha : Plain a) (hb : Plain b) :
    Plainly (fun _ => True) (interval host above below c x a b) := by
  have hfail {m : VM Bool} {e : Trouble} (he : e.Caught) (hm : Answers m (.error e)) :
      Plainly (fun _ => True) m :=
    .of_fine hm (fine_error he) fun _ _ => trivial
  have hinterval : interval host above below c x a b = (do
      let v ← mkCast host c x
      let f ← mkCast host c a
      let t ← mkCast host c b
      let test (o : Ordering → Bool) (x y : Obj) : VM Bool := o <$> comparePtr host (some x) (some y)
      (test above v f <&&> test below v t) <||> (test (· != .gt) t f <&&> test above v f) <||>
        (test below v t <&&> test (· != .gt) t f)) := by
    rcases hc with rfl | rfl <;> rfl
  rw [hinterval]
  rcases answers_mkCast hc hx with ⟨v, hv, hmx⟩ | ⟨e, he, hmx⟩
  · rcases answers_mkCast hc ha with ⟨f, hf, hma⟩ | ⟨e, he, hma⟩
    · rcases answers_mkCast hc hb with ⟨t, ht, hmb⟩ | ⟨e, he, hmb⟩
      · obtain ⟨vf, hvf⟩ := answers_comparePtr host hv hf
        obtain ⟨vt, hvt⟩ := answers_comparePtr host hv ht
        obtain ⟨tf, htf⟩ := answers_comparePtr host ht hf
        have htest {y z : Obj} {ord : Ordering} (o : Ordering → Bool) (s : State)
            (h : Answers (comparePtr host (some y) (some z)) (.ok ord)) :
            (o <$> comparePtr host (some y) (some z)) s = .ok (o ord) s := by
          exact bind_eq_of_ok (h s)
        have htests (s : State) :=
          orM_eq_ok (andM_eq_ok (htest above s hvf) (htest below s hvt))
            (orM_eq_ok (andM_eq_ok (htest (· != .gt) s htf) (htest above s hvf))
              (andM_eq_ok (htest below s hvt) (htest (· != .gt) s htf)))
        exact .of_fine (r := .ok _) (hmx.bind_ok (hma.bind_ok (hmb.bind_ok htests))) (fine_ok _)
          fun _ _ => trivial
      · exact hfail he (hmx.bind_ok (hma.bind_ok hmb.bind_error))
    · exact hfail he (hmx.bind_ok hma.bind_error)
  · exact hfail he hmx.bind_error

/-- **The interval operators are plain.** -/
theorem plainly_interval (hx : Plain x) (ha : Plain a) (hb : Plain b) :
    Plainly (fun _ => True) (Opr.inOO host x a b) ∧ Plainly (fun _ => True) (Opr.inOC host x a b) ∧
    Plainly (fun _ => True) (Opr.inCO host x a b) ∧
    Plainly (fun _ => True) (Opr.inCC host x a b) := by
  have hdispatch (above below : Ordering → Bool) : Plainly (fun _ => True)
      (dispatch a b fun c => interval host above below c x a b) :=
    plainly_dispatch ha hb (fun _ => plainly_interval_class (.inl rfl) hx ha hb)
      fun _ => plainly_interval_class (.inr rfl) hx ha hb
  exact ⟨hdispatch _ _, hdispatch _ _, hdispatch _ _, hdispatch _ _⟩

/-! ## Division on the machine -/

variable {env : Env} {s : State} {st : List Ptr}

lemma performs_guarded {m body : VM Unit} {r : Except Trouble Ptr} (hb : Plain b)
    (herror : s.error = .PE_SUCCESS)
    (hm : m { s with st := b :: a :: st } = (do
      if ← Opr.neq host b (some (.int64 0)) then body
      else if (← get).error = .PE_SUCCESS then setError .PE_DIVIDE_BY_ZERO : VM Unit)
        { s with st := st })
    (hbody : b ≠ some (.int64 0) → Performs body { s with st := st } st r)
    (hid : ∀ j, b = some (.id j) → ∃ x, r = .error (.throws x)) :
    Performs m { s with st := b :: a :: st } st
      (if b = some (.int64 0) then .error (.throws .divisionByZero) else r) := by
  obtain ⟨t, ht, hzero⟩ := answers_neq_zero host hb
  rw [bind_eq_of_ok (ht _)] at hm
  cases t with
  | true =>
    have hne : b ≠ some (.int64 0) := fun h => (hzero 0 h).mp rfl rfl
    rw [if_neg hne]
    have hbody := hbody hne
    unfold Performs at hbody ⊢
    rw [hm]
    exact hbody
  | false =>
    have hset : m { s with st := b :: a :: st } =
        .ok () { s with st := st, error := .PE_DIVIDE_BY_ZERO } := by
      refine hm.trans ?_
      show (ite (s.error = .PE_SUCCESS) (setError .PE_DIVIDE_BY_ZERO) (pure ()) : VM Unit)
        { s with st := st } = _
      rw [if_pos herror]
      rfl
    split_ifs with hint
    · exact .inr ⟨_, hset, fun h => Error.noConfusion h, fun h => Error.noConfusion h⟩
    · rcases hb.cases with ⟨j, rfl⟩ | ⟨j, rfl⟩
      · have hj : ¬ j ≠ 0 := fun h => Bool.false_ne_true ((hzero j rfl).mpr h)
        exact absurd (by rw [not_not.mp hj]) hint
      · obtain ⟨x, rfl⟩ := hid j rfl
        exact .inr ⟨_, hset, fun h => Error.noConfusion h, fun h => Error.noConfusion h⟩

lemma performs_div (ha : Plain a) (hb : Plain b) (herror : s.error = .PE_SUCCESS) :
    Performs (op_DIV env) { s with st := b :: a :: st } st
      (if b = some (.int64 0) then .error (.throws .divisionByZero)
        else oprValue (Opr.divide env.host a b)) := by
  refine performs_guarded hb herror rfl (fun hzero => ?_) ?_
  · obtain ⟨hanswers, hcatch, -⟩ := plainly_divide env.host ha hb hzero
    cases hr : oprValue (Opr.divide env.host a b) with
    | ok v =>
      rw [hr] at hanswers
      exact tryCatch_eq_of_ok (bind_eq_of_ok (hanswers _))
    | error e =>
      rw [hr] at hanswers hcatch
      -- the handler of `op_DIV` passes on what is not a division by zero
      have hpass : e ≠ .throws .divisionByZero := by
        rintro rfl
        rcases hcatch.caught rfl with h | h <;> cases h
      have hfail : (tryCatch (do stackPush (← Opr.divide env.host a b)) fun e =>
          if e = .throws .divisionByZero then setError .PE_DIVIDE_BY_ZERO else throw e : VM Unit)
            { s with st := st } = .error e { s with st := st } := by
        rw [tryCatch_eq_of_error (bind_eq_of_error (hanswers _)), if_neg hpass]
        rfl
      cases e with
      | throws x => exact .inl ⟨_, _, hfail, hcatch.caught rfl, rfl⟩
      | faults f => exact ⟨_, hfail⟩
  · rintro j rfl
    rcases ha.cases with ⟨i, rfl⟩ | ⟨i, rfl⟩
    · exact ⟨_, rfl⟩
    · exact ⟨_, rfl⟩

lemma performs_mod (ha : Plain a) (hb : Plain b) (herror : s.error = .PE_SUCCESS) :
    Performs (op_MOD env) { s with st := b :: a :: st } st
      (if b = some (.int64 0) then .error (.throws .divisionByZero)
        else oprValue (Opr.mod a b)) := by
  refine performs_guarded hb herror rfl (fun hzero => ?_) ?_
  · obtain ⟨hanswers, hcatch, -⟩ := plainly_mod ha hb
    have hperforms : Performs (do stackPush (← Opr.mod a b)) { s with st := st } st
        (id <$> oprValue (Opr.mod a b)) := performs_push rfl hanswers hcatch
    rwa [id_map] at hperforms
  · rintro j rfl
    rcases ha.cases with ⟨i, rfl⟩ | ⟨i, rfl⟩
    · exact ⟨_, rfl⟩
    · exact ⟨_, rfl⟩

end Lemmas

end P2.Pel
