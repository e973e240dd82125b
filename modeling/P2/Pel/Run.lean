import P2.Pel.LexText

/-!
# Running straight code

What a sequence of instructions that ends with one more value on the stack makes of a state,
whatever instructions follow: `Yields`, `Performs`.
-/

namespace P2.Pel

open P2.Value P2.Lib.Exec List

/-! ## Sequences -/

/-- The code ends with a value on top of the stack `st` and nothing else changed; it returns an error
code; it ends in a fault. -/
def Yields (env : Env) (ops : List UInt32) (s : State) (st : List Ptr) : Except Trouble Ptr → Prop
  | .ok v => ∀ rest, executeFrom env (ops ++ rest) s = executeFrom env rest { s with st := v :: st }
  | .error (.throws _) =>
    ∃ code t, code ≠ .PE_SUCCESS ∧ ∀ rest, executeFrom env (ops ++ rest) s = .ok code t
  | .error (.faults f) => ∃ t, ∀ rest, executeFrom env (ops ++ rest) s = .error (.faults f) t

/-- A body of an opcode replaces its operands by a value on the stack `st`; it raises an exception that
is caught or sets an error; it ends in a fault. -/
def Performs (m : VM Unit) (s : State) (st : List Ptr) : Except Trouble Ptr → Prop
  | .ok v => m s = .ok () { s with st := v :: st }
  | .error (.throws _) =>
    (∃ e t, m s = .error e t ∧ e.Caught ∧ t.heap = s.heap) ∨
      ∃ t, m s = .ok () t ∧ t.error ≠ .PE_SUCCESS ∧ t.error ≠ .PE_STOP
  | .error (.faults f) => ∃ t, m s = .error (.faults f) t

section Sequences

variable {env : Env} {ops ops' : List UInt32} {inst : UInt32} {s t : State} {st st' : List Ptr}
  {r : Except Trouble Ptr}

lemma Yields.bind {f : Ptr → Except Trouble Ptr} (hops : Yields env ops s st r)
    (hops' : ∀ v, r = .ok v → Yields env ops' { s with st := v :: st } st' (f v)) :
    Yields env (ops ++ ops') s st' (r >>= f) := by
  cases r with
  | ok v =>
    have hnext := hops' v rfl
    show Yields env (ops ++ ops') s st' (f v)
    cases hv : f v with
    | ok w =>
      rw [hv] at hnext
      intro rest
      rw [append_assoc, hops, hnext]
    | error e =>
      rw [hv] at hnext
      cases e with
      | throws x =>
        obtain ⟨code, t, hcode, hnext⟩ := hnext
        refine ⟨code, t, hcode, fun rest => ?_⟩
        rw [append_assoc, hops, hnext]
      | faults x =>
        obtain ⟨t, hnext⟩ := hnext
        refine ⟨t, fun rest => ?_⟩
        rw [append_assoc, hops, hnext]
  | error e =>
    cases e with
    | throws x =>
      obtain ⟨code, t, hcode, hops⟩ := hops
      exact ⟨code, t, hcode, fun rest => by rw [append_assoc, hops]⟩
    | faults x =>
      obtain ⟨t, hops⟩ := hops
      exact ⟨t, fun rest => by rw [append_assoc, hops]⟩

lemma executeFrom_cons_ok {code : Error}
    (hinst : execute_instruction env inst s = .ok code t) :
    executeFrom env (inst :: ops) s =
      if code = .PE_STOP then .ok .PE_SUCCESS { t with error := code }
      else if code ≠ .PE_SUCCESS then .ok code { t with error := code }
      else executeFrom env ops { t with error := code } := by
  rw [executeFrom, bind_eq_of_ok hinst]
  cases code <;> rfl

lemma executeFrom_cons_error {e : Trouble}
    (hinst : execute_instruction env inst s = .error e t) :
    executeFrom env (inst :: ops) s = .error e t := by
  exact bind_eq_of_error hinst

lemma execute_instruction_eq {entry : JumpTableEnt}
    (hentry : jump_table[(inst &&& 0xFFFF).toNat]? = some entry)
    (harity : entry.arity ≤ s.st.length) :
    execute_instruction env inst s =
      (tryCatch (entry.fn.fn env inst) (handle env) >>= fun _ => do return (← get).error) s := by
  have hcode := (List.getElem?_eq_some_iff.mp hentry).1
  rw [length_jump_table] at hcode
  unfold execute_instruction
  simp only [hentry, if_neg hcode.not_gt]
  show (ite (s.st.length < entry.arity) _ _ : VM Error) s = _
  rw [if_neg harity.not_gt]

lemma executeFrom_cons_of_body {entry : JumpTableEnt}
    (hentry : jump_table[(inst &&& 0xFFFF).toNat]? = some entry)
    (harity : entry.arity ≤ s.st.length) (hbody : entry.fn.fn env inst s = .ok () t)
    (herror : t.error = .PE_SUCCESS) : executeFrom env (inst :: ops) s = executeFrom env ops t := by
  have hok : execute_instruction env inst s = .ok .PE_SUCCESS t := by
    rw [execute_instruction_eq hentry harity, bind_eq_of_ok (tryCatch_eq_of_ok hbody), ← herror]
    rfl
  rw [executeFrom_cons_ok hok, if_neg (by decide), if_neg (not_not.mpr rfl), ← herror]

lemma handle_eq {e : Trouble} (he : e.Caught)
    (hsound : sound env.host s.heap (some (.tuple (some env.operand)))) :
    ∃ code, handle env e s = .ok () { s with error := code } ∧
      code ≠ .PE_SUCCESS ∧ code ≠ .PE_STOP := by
  rcases he with rfl | rfl
  · exact ⟨.PE_OPER_UNSUP, rfl, by decide, by decide⟩
  · obtain ⟨text, htext⟩ := toString_of_nested hsound
    refine ⟨.PE_TYPE_CONVERSION, ?_, by decide, by decide⟩
    have hread : textPtr env (some (.tuple (some env.operand))) s = .ok text s :=
      ofExcept_eq_of_ok (x := fun s : State => toString env.host s.heap env.host.room _) htext
    exact bind_eq_of_ok hread

lemma execute_instruction_of_refused {m : VM Unit} {x : Exception}
    (hrun : execute_instruction env inst s =
      (tryCatch m (handle env) >>= fun _ => do return (← get).error) s)
    (hsound : sound env.host s.heap (some (.tuple (some env.operand))))
    (hbody : Performs m s st (.error (.throws x))) :
    ∃ t, execute_instruction env inst s = .ok t.error t ∧
      t.error ≠ .PE_SUCCESS ∧ t.error ≠ .PE_STOP := by
  rw [hrun]
  rcases hbody with ⟨e, t, hm, he, hheap⟩ | ⟨t, hm, hsuccess, hstop⟩
  · rw [← hheap] at hsound
    obtain ⟨code, hhandle, hsuccess, hstop⟩ := handle_eq he hsound
    refine ⟨{ t with error := code }, ?_, hsuccess, hstop⟩
    rw [bind_eq_of_ok ((tryCatch_eq_of_error hm).trans hhandle)]
    rfl
  · refine ⟨t, ?_, hsuccess, hstop⟩
    rw [bind_eq_of_ok (tryCatch_eq_of_ok hm)]
    rfl

/-- An instruction yields what the body of its opcode performs, where the handler of failed casts
can write the operand tuple. -/
lemma yields_instruction {entry : JumpTableEnt}
    (hentry : jump_table[(inst &&& 0xFFFF).toNat]? = some entry)
    (harity : entry.arity ≤ s.st.length) (herror : s.error = .PE_SUCCESS)
    (hsound : sound env.host s.heap (some (.tuple (some env.operand))))
    (hbody : Performs (entry.fn.fn env inst) s st r) : Yields env [inst] s st r := by
  have hrun : execute_instruction env inst s =
      (tryCatch (entry.fn.fn env inst) (handle env) >>= fun _ => do return (← get).error) s :=
    execute_instruction_eq hentry harity
  cases r with
  | ok v => exact fun rest => executeFrom_cons_of_body hentry harity hbody herror
  | error e =>
    cases e with
    | throws x =>
      obtain ⟨t, hok, hsuccess, hstop⟩ := execute_instruction_of_refused hrun hsound hbody
      refine ⟨t.error, t, hsuccess, fun rest => ?_⟩
      rw [singleton_append, executeFrom_cons_ok hok, if_neg hstop, if_pos hsuccess]
    | faults f =>
      obtain ⟨t, hbody⟩ := hbody
      refine ⟨t, fun rest => ?_⟩
      have hfail : execute_instruction env inst s = .error (.faults f) t := by
        rw [hrun]
        exact bind_eq_of_error ((tryCatch_eq_of_error hbody).trans rfl)
      rw [singleton_append, executeFrom_cons_error hfail]

end Sequences

/-! ## Bodies -/

/-- The program returns or fails as it is said, and the state has no part in it. -/
def Answers {α : Type} (m : VM α) (r : Except Trouble α) : Prop :=
  ∀ s, m s = match r with
    | .ok v => .ok v s
    | .error e => .error e s

/-- Where a computation fails, the machine catches it, or integer division traps. -/
def Catchable {α : Type} (r : Except Trouble α) : Prop :=
  ∀ e, r = .error e → e.Caught ∨ e = .faults .arithmetic

section Bodies

variable {env : Env} {s : State} {a b c : Ptr} {st : List Ptr} {h : Heap} {err : Error}
  {res : Option (List Ptr)} {k : ℕ} {α β : Type} {m : VM α} {r : Except Trouble α}

lemma Answers.bind_ok {f : α → VM β} {v : α} {r' : Except Trouble β} (hm : Answers m (.ok v))
    (hf : Answers (f v) r') : Answers (m >>= f) r' :=
  fun s => (bind_eq_of_ok (hm s)).trans (hf s)

lemma Answers.bind_error {f : α → VM β} {e : Trouble} (hm : Answers m (.error e)) :
    Answers (m >>= f) (.error e) :=
  fun s => bind_eq_of_error (hm s)

lemma answers_throw (e : Trouble) : Answers (throw e : VM α) (.error e) := fun _ => rfl

lemma answers_read (x : Except Trouble α) : Answers (read fun _ => x) x := by
  intro s
  cases x <;> rfl

lemma Catchable.caught {x : Exception} (hr : Catchable r) (hx : r = .error (.throws x)) :
    (Trouble.throws x).Caught := by
  rcases hr _ hx with h | h
  · exact h
  · cases h

lemma Catchable.map {f : α → β} (hr : Catchable r) : Catchable (f <$> r) := by
  cases r with
  | ok v => rintro _ ⟨⟩
  | error e =>
    rintro _ ⟨⟩
    exact hr e rfl

lemma performs_push {m : VM Unit} {x : VM α} {f : α → Ptr}
    (hm : m s = (x >>= fun v => stackPush (f v)) { s with st := st })
    (hx : Answers x r) (hr : Catchable r) : Performs m s st (f <$> r) := by
  cases r with
  | ok v => exact hm.trans (bind_eq_of_ok (hx _))
  | error e =>
    have hfail : m s = .error e { s with st := st } := hm.trans (bind_eq_of_error (hx _))
    cases e with
    | throws x => exact .inl ⟨_, _, hfail, hr.caught rfl, rfl⟩
    | faults f => exact ⟨_, hfail⟩

lemma performs_pushFrom {inst : UInt32} {addr : Addr} {bad : Error} {v : Ptr}
    (hv : (s.heap.tuple addr).fields[(inst >>> 16).toNat]? = some v) :
    Performs (pushFrom env inst addr bad) s s.st (.ok v) := by
  have hlt := (List.getElem?_eq_some_iff.mp hv).1
  have hread : read (tupleAt env.host addr (inst >>> 16).toNat) s = .ok v s := by
    refine ofExcept_eq_of_ok ?_
    unfold tupleAt
    rw [hv]
  show (ite (_ > _) _ _ : VM Unit) s = _
  rw [if_neg hlt.le.not_gt]
  exact bind_eq_of_ok hread

lemma performs_binaryOp {f : Ptr → Ptr → VM Ptr} {r : Except Trouble Ptr}
    (hf : Answers (f a b) r) (hr : Catchable r) :
    Performs (binaryOp f) { s with st := b :: a :: st } st r := by
  have hperforms : Performs (binaryOp f) { s with st := b :: a :: st } st (id <$> r) :=
    performs_push rfl hf hr
  rwa [id_map] at hperforms

lemma performs_compareOp {f : Ptr → Ptr → VM Bool} {r : Except Trouble Bool}
    (hf : Answers (f a b) r) (hr : Catchable r) :
    Performs (compareOp f) { s with st := b :: a :: st } st (boolPtr <$> r) :=
  performs_push rfl hf hr

lemma performs_intervalOp {f : Ptr → Ptr → Ptr → VM Bool} {r : Except Trouble Bool}
    (hf : Answers (f a b c) r) (hr : Catchable r) :
    Performs (intervalOp f) { s with st := c :: b :: a :: st } st (boolPtr <$> r) :=
  performs_push rfl hf hr

lemma performs_not {r : Except Trouble Int64} (ha : castInt64 a = r) (hr : Catchable r) :
    Performs op_NOT { s with st := a :: st } st ((fun i => boolPtr (i == 0)) <$> r) :=
  performs_push (x := read fun _ => castInt64 a) rfl (ha ▸ answers_read _) hr

lemma pop_signed_eq_of_ok {i : Int64} (ha : castInt64 a = .ok i) :
    pop_signed { s with st := a :: st } = .ok i { s with st := st } := by
  show read (fun _ => castInt64 a) { s with st := st } = _
  rw [ha]
  rfl

lemma pop_signed_eq_of_error {e : Trouble} (ha : castInt64 a = .error e) :
    pop_signed { s with st := a :: st } = .error e { s with st := st } := by
  show read (fun _ => castInt64 a) { s with st := st } = _
  rw [ha]
  rfl

lemma performs_connective {f : Int64 → Int64 → Bool} (ha : a ≠ none) (hb : b ≠ none) :
    Performs (do
        let v2 ← pop_signed
        let v1 ← pop_signed
        stackPush (boolPtr (f v1 v2))) { s with st := b :: a :: st } st
      (do .ok (boolPtr (f (← castInt64 a) (← castInt64 b)))) := by
  have hcaught {e : Trouble} (he : e.Caught) {m : VM Unit} {s t : State} (hm : m s = .error e t)
      (ht : t.heap = s.heap) {e' : Trouble} (he' : e'.Caught) : Performs m s st (.error e') := by
    rcases he' with rfl | rfl <;> exact .inl ⟨e, t, hm, he, ht⟩
  cases hi : castInt64 a with
  | error e =>
    have he := fine_castInt64 ha e hi
    cases hj : castInt64 b with
    | error e' =>
      exact hcaught (fine_castInt64 hb e' hj) (bind_eq_of_error (pop_signed_eq_of_error hj)) rfl he
    | ok j =>
      exact hcaught (t := { s with st := st }) he ((bind_eq_of_ok (pop_signed_eq_of_ok hj)).trans
        (bind_eq_of_error (pop_signed_eq_of_error hi))) rfl he
  | ok i =>
    cases hj : castInt64 b with
    | error e =>
      have he := fine_castInt64 hb e hj
      exact hcaught he (bind_eq_of_error (pop_signed_eq_of_error hj)) rfl he
    | ok j =>
      exact (bind_eq_of_ok (pop_signed_eq_of_ok hj)).trans (bind_eq_of_ok (pop_signed_eq_of_ok hi))

end Bodies

end P2.Pel
