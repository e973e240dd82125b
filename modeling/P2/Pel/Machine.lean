import P2.Lib.Exec
import P2.Pel.Heap

/-!
# The state of the expression machine

The stack, the result and the error of a `Pel_VM`, and the primitive operations its instructions are
written with.
-/

namespace P2.Pel

open P2.Value P2.Lib.Exec List

inductive Error where
  | PE_SUCCESS | PE_BAD_CONSTANT | PE_BAD_FIELD | PE_OPER_UNSUP | PE_STACK_UNDERFLOW
  | PE_TYPE_CONVERSION | PE_BAD_OPCODE | PE_DIVIDE_BY_ZERO | PE_BAD_STRING_OP | PE_INVALID_ERRNO
  | PE_STOP | PE_BAD_LIST_FIELD | PE_LIST_UNDERFLOW | PE_UNKNOWN
  deriving DecidableEq

structure State where
  heap : Heap
  st : List Ptr
  error : Error
  result : Option (List Ptr)
  /-- How often the host was asked for a random number, the time or an identifier. -/
  queries : ℕ

abbrev VM := EStateM Trouble State

/-- What a program is run with: the host, the constant pool and the operand tuple. -/
structure Env where
  host : Host
  constPool : Addr
  operand : Addr

/-! ## The stack -/

def stackTop : VM Ptr := do
  match (← get).st with
  | p :: _ => return p
  | [] => throw (.faults .emptyStack)

def stackPop : VM Unit := do
  match (← get).st with
  | _ :: st => modify fun s => { s with st := st }
  | [] => throw (.faults .emptyStack)

def stackPush (p : Ptr) : VM Unit := modify fun s => { s with st := p :: s.st }

def pop : VM Ptr := do
  let t ← stackTop
  stackPop
  return t

def setError (e : Error) : VM Unit := modify fun s => { s with error := e }

def query : VM ℕ := do
  let k := (← get).queries
  modify fun s => { s with queries := k + 1 }
  return k

def read {α : Type} (x : Heap → Except Trouble α) : VM α := ofExcept fun s => x s.heap

def boolPtr (b : Bool) : Ptr := some (.int64 (if b then 1 else 0))

section Pops

variable (env : Env)

def pop_signed : VM Int64 := do
  let t ← pop
  read fun _ => castInt64 t

def pop_string : VM (List UInt8) := do
  let t ← pop
  read fun h => castStr env.host h t

def pop_time : VM TimeRep := do
  let t ← pop
  read fun _ => castTime env.host t

def pop_time_duration : VM TimeRep := do
  let t ← pop
  read fun h => castDuration env.host h t

def pop_double : VM Double := do
  let t ← pop
  read fun _ => castDouble env.host t

end Pops

/-! ## Containers -/

def newTuple (fields : List Ptr) (frozen : Bool) : VM Addr := do
  let h := (← get).heap
  modify fun s => { s with heap := { h with tuples := h.tuples ++ [⟨fields, frozen⟩] } }
  return h.tuples.length

def newList (elements : List Ptr) : VM Addr := do
  let h := (← get).heap
  modify fun s => { s with heap := { h with lists := h.lists ++ [elements] } }
  return h.lists.length

def newSet (elements : List Ptr) : VM Addr := do
  let h := (← get).heap
  modify fun s => { s with heap := { h with sets := h.sets ++ [elements] } }
  return h.sets.length

def newVector (elements : List Ptr) : VM Addr := do
  let h := (← get).heap
  modify fun s => { s with heap := { h with vectors := h.vectors ++ [elements] } }
  return h.vectors.length

def newMatrix (body : MatrixBody) : VM Addr := do
  let h := (← get).heap
  modify fun s => { s with heap := { h with matrices := h.matrices ++ [body] } }
  return h.matrices.length

/-- `Val_List::cast`: the null value gives a new list. -/
def castList : Ptr → VM Addr
  | none => throw (.faults .nullPointer)
  | some (.list a) => return a
  | some .null => newList []
  | some _ => throw (.throws .typeError)

/-- `Val_Set::cast`: the null value gives a new set. -/
def castSet : Ptr → VM Addr
  | none => throw (.faults .nullPointer)
  | some (.set a) => return a
  | some .null => newSet []
  | some _ => throw (.throws .typeError)

/-- `Tuple::operator[]`: outside of the tuple the error message shows the tuple, then an exception
is thrown that no handler of the machine catches. -/
def tupleAt (host : Host) (a : Addr) (i : ℕ) (h : Heap) : Except Trouble Ptr :=
  match (h.tuple a).fields[i]? with
  | some p => .ok p
  | none => do
    let _ ← toString host h host.room (some (.tuple (some a)))
    .error (.throws .library)

def tupleAppend (a : Addr) (p : Ptr) : VM Unit := do
  let h := (← get).heap
  if p.isNone ∨ (h.tuple a).frozen then throw (.faults .assertion)
  let body : TupleBody := { fields := (h.tuple a).fields ++ [p], frozen := false }
  modify fun s => { s with heap := { h with tuples := h.tuples.set a body } }

def tupleFreeze (a : Addr) : VM Unit := do
  let h := (← get).heap
  let body : TupleBody := { fields := (h.tuple a).fields, frozen := true }
  modify fun s => { s with heap := { h with tuples := h.tuples.set a body } }

/-- Appending to the result, which is made when the first field comes. -/
def resultAppend (p : Ptr) : VM Unit := do
  if p.isNone then throw (.faults .assertion)
  modify fun s => { s with result := some (s.result.getD [] ++ [p]) }

def resultMk : VM Unit := modify fun s => { s with result := some (s.result.getD []) }

/-- The first fields of a tuple made with a name. -/
def namedFields (host : Host) (name : List UInt8) : List Ptr := [some (.str name), some host.nodeid]

/-! ## Rules -/

section Rules

variable {α : Type} {E : Trouble → State → Prop} {h h₀ : Heap} {st : List Ptr} {err : Error}
  {res : Option (List Ptr)} {k : ℕ} {p : Ptr} {s : State}

/-- What an instruction may end with: an exception that is caught, raised when no container had
changed. -/
def Allowed (h₀ : Heap) (e : Trouble) (s : State) : Prop :=
  e.Caught ∧ s.heap.parts = h₀.parts

@[simp] lemma ends_pop {Q : Ptr → State → Prop} :
    Ends E pop ⟨h, p :: st, err, res, k⟩ Q ↔ Q p ⟨h, st, err, res, k⟩ := Iff.rfl

@[simp] lemma ends_stackTop {Q : Ptr → State → Prop} :
    Ends E stackTop ⟨h, p :: st, err, res, k⟩ Q ↔ Q p ⟨h, p :: st, err, res, k⟩ := Iff.rfl

@[simp] lemma ends_stackPush {Q : Unit → State → Prop} :
    Ends E (stackPush p) s Q ↔ Q () { s with st := p :: s.st } := Iff.rfl

@[simp] lemma ends_setError {e : Error} {Q : Unit → State → Prop} :
    Ends E (setError e) s Q ↔ Q () { s with error := e } := Iff.rfl

@[simp] lemma ends_query {Q : ℕ → State → Prop} :
    Ends E query s Q ↔ Q s.queries { s with queries := s.queries + 1 } := Iff.rfl

@[simp] lemma ends_resultMk {Q : Unit → State → Prop} :
    Ends E resultMk s Q ↔ Q () { s with result := some (s.result.getD []) } := Iff.rfl

/-- A state that differs at most in new bodies without elements. -/
def Calm (h₀ : Heap) (s t : State) : Prop := ∃ h, h.parts = h₀.parts ∧ t = { s with heap := h }

/-- A program that returns, or throws an exception that is caught, and changes no container. -/
def Quiet (h₀ : Heap) (m : VM α) (s : State) (P : α → Prop) : Prop :=
  Ends (fun e t => e.Caught ∧ Calm h₀ s t) m s fun a t => P a ∧ Calm h₀ s t

/-- The same, whatever it returns. -/
abbrev Quietly (h₀ : Heap) (m : VM α) (s : State) : Prop := Quiet h₀ m s fun _ => True

abbrev EndsWell (h₀ : Heap) (m : VM α) (s : State) : Prop := Ends (Allowed h₀) m s fun _ _ => True

variable {β : Type} {P : α → Prop} {m : VM α}

lemma Quiet.ends_imp (hm : Quiet h₀ m s P) {Q : α → State → Prop}
    (hQ : ∀ a h, P a → h.parts = h₀.parts → Q a { s with heap := h }) :
    Ends (Allowed h₀) m s Q := by
  refine Ends.mono hm ?_ ?_
  · rintro e t ⟨he, h, hh, rfl⟩
    exact ⟨he, hh⟩
  · rintro a t ⟨ha, h, hh, rfl⟩
    exact hQ a h ha hh

lemma Quiet.ends_bind (hm : Quiet h₀ m s P) {f : α → VM β} {Q : β → State → Prop}
    (hf : ∀ a h, P a → h.parts = h₀.parts → Ends (Allowed h₀) (f a) { s with heap := h } Q) :
    Ends (Allowed h₀) (m >>= f) s Q := by
  rw [P2.Lib.Exec.ends_bind]
  exact hm.ends_imp hf

lemma Quiet.bind (hm : Quiet h₀ m s P) {f : α → VM β} {P' : β → Prop}
    (hf : ∀ a h, P a → h.parts = h₀.parts → Quiet h₀ (f a) { s with heap := h } P') :
    Quiet h₀ (m >>= f) s P' := by
  unfold Quiet
  rw [P2.Lib.Exec.ends_bind]
  refine Ends.imp hm ?_
  rintro a t ⟨ha, h, hh, rfl⟩
  exact hf a h ha hh

lemma Quiet.ends (hm : Quiet h₀ m s P) : EndsWell h₀ m s := hm.ends_imp fun _ _ _ _ => trivial

lemma calm_self (hs : s.heap.parts = h₀.parts) : Calm h₀ s s := ⟨s.heap, hs, rfl⟩

lemma quiet_pure (hs : s.heap.parts = h₀.parts) {a : α} (ha : P a) : Quiet h₀ (pure a) s P :=
  ⟨ha, calm_self hs⟩

lemma quiet_throw (hs : s.heap.parts = h₀.parts) {e : Trouble} (he : e.Caught) :
    Quiet h₀ (throw e : VM α) s P :=
  ⟨he, calm_self hs⟩

lemma Quiet.map (hm : Quiet h₀ m s P) {f : α → β} {P' : β → Prop} (h : ∀ a, P a → P' (f a)) :
    Quiet h₀ (f <$> m) s P' := by
  unfold Quiet
  rw [P2.Lib.Exec.ends_map]
  exact Ends.imp hm fun a _ ⟨ha, ht⟩ => ⟨h a ha, ht⟩

lemma quiet_read (hs : s.heap.parts = h₀.parts) {x : Heap → Except Trouble α}
    (hx : Fine (x s.heap)) (hP : ∀ a, x s.heap = .ok a → P a) : Quiet h₀ (read x) s P :=
  ends_ofExcept.mpr ⟨fun a ha => ⟨hP a ha, calm_self hs⟩, fun e he => ⟨hx e he, calm_self hs⟩⟩

lemma ends_read_imp (hs : s.heap.parts = h₀.parts) {x : Heap → Except Trouble α}
    {Q : α → State → Prop} (hx : Fine (x s.heap)) (hQ : ∀ a, x s.heap = .ok a → Q a s) :
    Ends (Allowed h₀) (read x) s Q :=
  ends_ofExcept.mpr ⟨hQ, fun e he => ⟨hx e he, hs⟩⟩

lemma ends_read (hs : s.heap.parts = h₀.parts) {x : Heap → Except Trouble α}
    (hx : Fine (x s.heap)) : EndsWell h₀ (read x) s :=
  ends_read_imp hs hx fun _ _ => trivial

lemma ends_pop_signed {Q : Int64 → State → Prop} (hs : h.parts = h₀.parts) (hp : p ≠ none)
    (hQ : ∀ i, castInt64 p = .ok i → Q i ⟨h, st, err, res, k⟩) :
    Ends (Allowed h₀) pop_signed ⟨h, p :: st, err, res, k⟩ Q :=
  ends_bind.mpr (ends_read_imp hs (fine_castInt64 hp) hQ)

variable {env : Env}

lemma ends_pop_string {Q : List UInt8 → State → Prop} (hs : h.parts = h₀.parts)
    (hp : sound env.host h p)
    (hQ : ∀ text, castStr env.host h p = .ok text → Q text ⟨h, st, err, res, k⟩) :
    Ends (Allowed h₀) (pop_string env) ⟨h, p :: st, err, res, k⟩ Q :=
  ends_bind.mpr (ends_read_imp hs (fine_castStr hp) hQ)

lemma ends_pop_time {Q : TimeRep → State → Prop} (hs : h.parts = h₀.parts)
    (hp : readable env.host p) (hQ : ∀ t, Q t ⟨h, st, err, res, k⟩) :
    Ends (Allowed h₀) (pop_time env) ⟨h, p :: st, err, res, k⟩ Q :=
  ends_bind.mpr (ends_read_imp hs (fine_castTime hp) fun t _ => hQ t)

lemma ends_pop_time_duration {Q : TimeRep → State → Prop} (hs : h.parts = h₀.parts)
    (hp : whole env.host h p) (hQ : ∀ t, Q t ⟨h, st, err, res, k⟩) :
    Ends (Allowed h₀) (pop_time_duration env) ⟨h, p :: st, err, res, k⟩ Q :=
  ends_bind.mpr (ends_read_imp hs (fine_castDuration hp) fun t _ => hQ t)

lemma ends_pop_double {Q : Double → State → Prop} (hs : h.parts = h₀.parts) (hp : p ≠ none)
    (hQ : ∀ d, Q d ⟨h, st, err, res, k⟩) :
    Ends (Allowed h₀) (pop_double env) ⟨h, p :: st, err, res, k⟩ Q :=
  ends_bind.mpr (ends_read_imp hs (fine_castDouble hp) fun d _ => hQ d)

lemma Quiet.andM {x y : VM Bool} (hx : Quietly h₀ x s)
    (hy : ∀ h, h.parts = h₀.parts → Quietly h₀ y { s with heap := h }) :
    Quietly h₀ (x <&&> y) s := by
  refine Quiet.bind hx fun b h _ hh => ?_
  cases b with
  | false => exact quiet_pure hh trivial
  | true => exact hy h hh

lemma Quiet.orM {x y : VM Bool} (hx : Quietly h₀ x s)
    (hy : ∀ h, h.parts = h₀.parts → Quietly h₀ y { s with heap := h }) :
    Quietly h₀ (x <||> y) s := by
  refine Quiet.bind hx fun b h _ hh => ?_
  cases b with
  | false => exact hy h hh
  | true => exact quiet_pure hh trivial

lemma getD_append_nil (l : List (List Ptr)) (a : Addr) : (l ++ [[]]).getD a [] = l.getD a [] := by
  rcases Nat.lt_trichotomy a l.length with hlt | rfl | hgt
  · rw [getD_append _ _ _ _ hlt]
  · rw [getD_append_right _ _ _ _ le_rfl, Nat.sub_self, getD_eq_default _ _ (le_refl l.length)]
    rfl
  · rw [getD_eq_default, getD_eq_default _ _ hgt.le]
    rw [length_append]
    exact hgt

lemma parts_newList (h : Heap) : { h with lists := h.lists ++ [[]] }.parts = h.parts := by
  funext o
  cases o with
  | list a => exact getD_append_nil h.lists a
  | tuple t => cases t <;> rfl
  | _ => rfl

lemma parts_newSet (h : Heap) : { h with sets := h.sets ++ [[]] }.parts = h.parts := by
  funext o
  cases o with
  | set a => exact getD_append_nil h.sets a
  | tuple t => cases t <;> rfl
  | _ => rfl

def Heap.elementsOf (h : Heap) : Ptr → List Ptr
  | some (.list a) => h.list a
  | some (.set a) => h.set a
  | _ => []

lemma quiet_castList (hs : s.heap.parts = h₀.parts) (hp : p ≠ none) :
    Quiet h₀ (castList p) s fun a => h₀.list a = h₀.elementsOf p := by
  cases p with
  | none => exact absurd rfl hp
  | some o =>
    cases o with
    | list a => exact quiet_pure hs rfl
    | null =>
      refine ⟨?_, _, (parts_newList s.heap).trans hs, rfl⟩
      show h₀.parts (.list s.heap.lists.length) = []
      rw [← hs]
      exact getD_eq_default _ _ le_rfl
    | _ => exact quiet_throw hs typeError_caught

lemma quiet_castSet (hs : s.heap.parts = h₀.parts) (hp : p ≠ none) :
    Quiet h₀ (castSet p) s fun a => h₀.set a = h₀.elementsOf p := by
  cases p with
  | none => exact absurd rfl hp
  | some o =>
    cases o with
    | set a => exact quiet_pure hs rfl
    | null =>
      refine ⟨?_, _, (parts_newSet s.heap).trans hs, rfl⟩
      show h₀.parts (.set s.heap.sets.length) = []
      rw [← hs]
      exact getD_eq_default _ _ le_rfl
    | _ => exact quiet_throw hs typeError_caught

end Rules

end P2.Pel
