import P2.Lib.Runs

/-!
# `Mux`

The element merges several inputs into one output. While the output is blocked, each input may park
one tuple, and a catch-up pushes the parked tuples when the output calls back.

* `Mux.step` is one event of the element, its pushers and its output; `Mux.Allowed` is what the pushers
  and the output may do.
* `Mux.accepted_eq_output`: what the pushers pushed is what came out, and what is parked.
-/

namespace P2.Elements

open P2.Lib List Option

/-- What the element keeps for an input, and whether the pusher there waits for its callback. -/
structure Mux.Input (α : Type) where
  callback : Bool := false
  tuple : Option α := none
  waiting : Bool := false

/-- The element, whether the output answered 0 and has still to call back, and the tuples that were
pushed to the output, each with its input. -/
structure Mux (α : Type) where
  blocked : Bool := false
  inputs : List (Mux.Input α)
  timeCallback : Bool := false
  owed : Bool := false
  output : List (ℕ × α) := []

namespace Mux

variable {α : Type}

/-! ## The element -/

def mk' (α : Type) (noInputs : ℕ) : Mux α := { inputs := replicate noInputs {} }

def pushOut (i : ℕ) (p : α) (answer : Bool) (s : Mux α) : Mux α :=
  { s with output := s.output ++ [(i, p)], owed := !answer }

def setInput (i : ℕ) (input : Input α) (s : Mux α) : Mux α :=
  { s with inputs := s.inputs.set i input }

/-- `Mux::callback`: the output can take tuples again; `none` where the assertion fails. -/
def callback (s : Mux α) : Option (Mux α) :=
  if s.timeCallback then none else some { s with timeCallback := true }

/-- The first loop of `catchUp`, over the inputs from `i` on, and whether it came to its end; `none`
where the assertion fails. The output answers with `answers`, and takes more when they end. -/
def pushParked : List Bool → List (Input α) → ℕ → Mux α → Option (Bool × Mux α)
  | _, [], _, s => some (true, s)
  | answers, input :: inputs, i, s =>
    match input.tuple with
    | some p =>
      if input.callback then
        if answers.headD true then
          pushParked answers.tail inputs (i + 1)
            ((s.pushOut i p true).setInput i { input with tuple := none })
        else some (false, s.pushOut i p false)
      else none
    | none => pushParked answers inputs (i + 1) s

/-- The second loop of `catchUp`: all callbacks are called and forgotten. -/
def wakeUp (input : Input α) : Input α :=
  if input.callback then { input with callback := false, waiting := false } else input

/-- `Mux::catchUp`; `none` where an assertion fails. -/
def catchUp (answers : List Bool) (s : Mux α) : Option (Mux α) :=
  if s.blocked && s.timeCallback then do
    let (all, s) ← pushParked answers s.inputs 0 { s with timeCallback := false }
    if all then return { s with inputs := s.inputs.map wakeUp, blocked := false }
    else return s
  else none

/-- `Mux::push`, where the output answers with `answer` if it is pushed to; `none` where an
assertion fails. -/
def push (port : ℕ) (p : α) (answer : Bool) (s : Mux α) : Option (Bool × Mux α) := do
  let input ← s.inputs[port]?
  if s.blocked then
    if input.tuple.isNone then
      if input.callback then none
      else return (false, s.setInput port { input with callback := true, tuple := some p })
    -- an overrun: the tuple is dropped
    else if input.callback then return (false, s)
    else none
  else if input.callback || input.tuple.isSome then none
  else
    let s := s.pushOut port p answer
    if answer then return (true, s)
    else return (false, { s.setInput port { input with callback := true } with blocked := true })

inductive Event (α : Type) where
  /-- A pusher pushes; the answer of the output, if it is pushed to. -/
  | push (port : ℕ) (p : α) (answer : Bool)
  | callback
  /-- The timer that `callback` set goes off; the answers of the output. -/
  | catchUp (answers : List Bool)

/-- A pusher that gets a 0 waits for its callback. -/
def answered (port : ℕ) (accepts : Bool) (s : Mux α) : Mux α :=
  if accepts then s else { s with inputs := s.inputs.modify port ({ · with waiting := true }) }

/-- What an event does; `none` where an assertion fails. -/
def step (s : Mux α) : Event α → Option (Mux α)
  | .push port p answer => (s.push port p answer).map fun r => r.2.answered port r.1
  | .callback => ({ s with owed := false } : Mux α).callback
  | .catchUp answers => s.catchUp answers

/-- A pusher pushes to an input there is, and not while it waits for its callback; the output calls
back after a 0, once; a timer goes off when it is set. -/
def Allowed (s : Mux α) : Event α → Prop
  | .push port _ _ => ∃ input, s.inputs[port]? = some input ∧ input.waiting = false
  | .callback => s.owed = true
  | .catchUp _ => s.timeCallback = true

/-- The output takes what a catch-up pushes. -/
def Event.Taken : Event α → Prop
  | .catchUp answers => ∀ answer ∈ answers, answer = true
  | _ => True

/-- The tuples that an event pushes into the element, with their input. -/
def Event.pushed : Event α → List (ℕ × α)
  | .push port p _ => [(port, p)]
  | _ => []

def ofInput (i : ℕ) (log : List (ℕ × α)) : List α := (log.filter (·.1 = i)).map (·.2)

def parked (i : ℕ) (s : Mux α) : List α := (s.inputs[i]?.bind (·.tuple)).toList

/-! ## The invariant -/

/-- Of each input, what was pushed is what was pushed out, in order, and what is parked. -/
def Balanced (pushed : List (ℕ × α)) (s : Mux α) : Prop :=
  ∀ i, ofInput i pushed = ofInput i s.output ++ s.parked i

/-- An input whose pusher waits when its callback is there, as it is when a tuple is parked. -/
structure Input.Ok (input : Input α) : Prop where
  waiting : input.waiting = input.callback
  parked : input.tuple.isSome → input.callback

structure Ok (pushed : List (ℕ × α)) (s : Mux α) : Prop where
  balanced : s.Balanced pushed
  inputs : ∀ input ∈ s.inputs, input.Ok
  /-- Where the output is not blocked, nobody waits and nothing is pending. -/
  free : s.blocked = false →
    (∀ input ∈ s.inputs, input.callback = false) ∧ s.owed = false ∧ s.timeCallback = false
  once : ¬ (s.owed = true ∧ s.timeCallback = true)

variable {s s' : Mux α} {i j : ℕ} {p : α} {pushed : List (ℕ × α)}

lemma ofInput_concat (log : List (ℕ × α)) (i j : ℕ) (p : α) :
    ofInput j (log ++ [(i, p)]) = if i = j then ofInput j log ++ [p] else ofInput j log := by
  unfold ofInput
  by_cases hij : i = j
  · simp [hij]
  · simp [hij]

lemma parked_setInput {input : Input α} (hi : i < s.inputs.length) :
    (s.setInput i input).parked j = if i = j then input.tuple.toList else s.parked j := by
  unfold parked setInput
  by_cases hij : i = j
  · subst hij
    rw [List.getElem?_set_self hi, if_pos rfl]
    rfl
  · rw [List.getElem?_set_ne hij, if_neg hij]

lemma Input.Ok.tuple_eq_none {input : Input α} (h : input.Ok) (hcallback : input.callback = false) :
    input.tuple = none := by
  cases hp : input.tuple with
  | none => rfl
  | some p =>
    have hparked := h.parked (by rw [hp]; rfl)
    rw [hcallback] at hparked
    cases hparked

lemma parked_eq_nil (h : ∀ input ∈ s.inputs, input.tuple = none) (i : ℕ) : s.parked i = [] := by
  unfold parked
  cases hi : s.inputs[i]? with
  | none => rfl
  | some input =>
    rw [bind_some, h input (mem_of_getElem? hi)]
    rfl

lemma Balanced.pushOut (h : s.Balanced pushed) {input : Input α} (hi : s.inputs[i]? = some input)
    (hp : input.tuple = some p) (answer : Bool) :
    ((s.pushOut i p answer).setInput i { input with tuple := none }).Balanced pushed := by
  intro j
  rw [parked_setInput (s := s.pushOut i p answer) (List.getElem?_eq_some_iff.mp hi).1]
  show ofInput j pushed = ofInput j (s.output ++ [(i, p)]) ++ _
  rw [ofInput_concat, h j]
  by_cases hij : i = j
  · subst hij
    rw [if_pos rfl, if_pos rfl]
    unfold parked
    rw [hi, bind_some, hp]
    exact (append_nil _).symm
  · rw [if_neg hij, if_neg hij]
    rfl

lemma pushParked_spec {answers : List Bool} {inputs : List (Input α)}
    (hanswers : ∀ answer ∈ answers, answer = true) (hdrop : s.inputs.drop i = inputs)
    (hinputs : ∀ input ∈ inputs, input.Ok) (hbalanced : s.Balanced pushed) (howed : s.owed = false) :
    ∃ s', pushParked answers inputs i s = some (true, s') ∧ s'.Balanced pushed ∧ s'.owed = false ∧
      s'.timeCallback = s.timeCallback ∧
      s'.inputs = s.inputs.take i ++ inputs.map ({ · with tuple := none }) := by
  induction inputs generalizing answers i s with
  | nil =>
    refine ⟨s, rfl, hbalanced, howed, rfl, ?_⟩
    rw [map_nil, append_nil, take_of_length_le (drop_eq_nil_iff.mp hdrop)]
  | cons input inputs ih =>
    rw [forall_mem_cons] at hinputs
    have hi : s.inputs[i]? = some input := by
      rw [← List.head?_drop, hdrop]
      rfl
    have hlt : i < s.inputs.length := (List.getElem?_eq_some_iff.mp hi).1
    have hrest : s.inputs.drop (i + 1) = inputs := by
      rw [← tail_drop, hdrop]
      rfl
    have htake : ∀ l : List (Input α), l[i]? = some { input with tuple := none } →
        l.take i = s.inputs.take i →
        l.take (i + 1) ++ inputs.map ({ · with tuple := none }) =
          s.inputs.take i ++ (input :: inputs).map ({ · with tuple := none }) := by
      intro l hl hsame
      rw [take_add_one, hl, hsame, append_assoc]
      rfl
    unfold pushParked
    cases hp : input.tuple with
    | none =>
      obtain ⟨s', hs', hbal, how, htime, hin⟩ := ih hanswers hrest hinputs.2 hbalanced howed
      refine ⟨s', hs', hbal, how, htime, hin.trans (htake _ ?_ rfl)⟩
      rw [hi, ← hp]
    | some p =>
      have hcallback : input.callback = true := hinputs.1.parked (by rw [hp]; rfl)
      have hhead : answers.headD true = true := by
        cases answers with
        | nil => rfl
        | cons answer answers => exact hanswers answer mem_cons_self
      simp only [hcallback, if_true, hhead]
      obtain ⟨s', hs', hbal, how, htime, hin⟩ := ih
        (s := (s.pushOut i p true).setInput i { input with tuple := none })
        (fun answer ha => hanswers answer (mem_of_mem_tail ha))
        (by
          show (s.inputs.set i _).drop (i + 1) = inputs
          rw [drop_set_of_lt (Nat.lt_succ_self i), hrest])
        hinputs.2 (hbalanced.pushOut hi hp true) rfl
      rw [hcallback] at hs'
      refine ⟨s', hs', hbal, how, htime, hin.trans (htake _ ?_ ?_)⟩
      · exact List.getElem?_set_self hlt
      · show (s.inputs.set i _).take i = _
        rw [take_set_of_le (Nat.le_refl i)]

lemma Ok.catchUp (h : s.Ok pushed) {answers : List Bool} (htime : s.timeCallback = true)
    (hanswers : ∀ answer ∈ answers, answer = true) :
    ∃ s', s.catchUp answers = some s' ∧ s'.Ok pushed := by
  have hblocked : s.blocked = true := by
    by_contra hfree
    have := (h.free (Bool.eq_false_iff.mpr hfree)).2.2
    rw [htime] at this
    cases this
  have howed : s.owed = false := Bool.eq_false_iff.mpr fun ho => h.once ⟨ho, htime⟩
  obtain ⟨s', hs', hbal, how, htime', hin⟩ := pushParked_spec
    (s := { s with timeCallback := false }) (i := 0) hanswers rfl h.inputs h.balanced howed
  have hempty : ∀ input ∈ s'.inputs, input.tuple = none ∧ input.Ok := by
    rw [hin]
    intro input hinput
    obtain ⟨old, hold, rfl⟩ := mem_map.mp (by simpa using hinput)
    exact ⟨rfl, (h.inputs old hold).waiting, fun hsome => absurd hsome Bool.false_ne_true⟩
  have hwake : ∀ input ∈ s'.inputs.map wakeUp,
      input.callback = false ∧ input.waiting = false ∧ input.tuple = none := by
    intro input hinput
    obtain ⟨old, hold, rfl⟩ := mem_map.mp hinput
    obtain ⟨htuple, hok⟩ := hempty old hold
    unfold wakeUp
    split_ifs with hcallback
    · exact ⟨rfl, rfl, htuple⟩
    · rw [Bool.not_eq_true] at hcallback
      exact ⟨hcallback, hok.waiting.trans hcallback, htuple⟩
  refine ⟨{ s' with inputs := s'.inputs.map wakeUp, blocked := false }, ?_, ?_, ?_, ?_, ?_⟩
  · have hloop : pushParked answers s.inputs 0 { s with timeCallback := false } = some (true, s') :=
      hs'
    unfold Mux.catchUp
    rw [if_pos (by rw [hblocked, htime]; rfl), hloop]
    rfl
  · -- nothing is parked before and after
    intro i
    rw [hbal i, parked_eq_nil fun input hinput => (hempty input hinput).1,
      parked_eq_nil fun input hinput => (hwake input hinput).2.2]
  · intro input hinput
    obtain ⟨hcallback, hwaiting, htuple⟩ := hwake input hinput
    refine ⟨hwaiting.trans hcallback.symm, fun hsome => ?_⟩
    rw [htuple] at hsome
    cases hsome
  · exact fun _ => ⟨fun input hinput => (hwake input hinput).1, how, htime'⟩
  · intro honce
    rw [show s'.owed = false from how] at honce
    exact absurd honce.1 Bool.false_ne_true

lemma forall_mem_setInput {q : Input α → Prop} {input : Input α}
    (h : ∀ input ∈ s.inputs, q input) (hinput : q input) :
    ∀ input' ∈ (s.setInput i input).inputs, q input' := by
  intro input' hmem
  rcases mem_or_eq_of_mem_set hmem with hmem | rfl
  · exact h input' hmem
  · exact hinput

lemma answered_setInput {input : Input α} (hi : i < s.inputs.length) :
    (s.setInput i input).answered i false = s.setInput i { input with waiting := true } := by
  simp only [answered, setInput, Bool.false_eq_true, if_false, Mux.mk.injEq, true_and, and_true]
  refine List.ext_getElem? fun j => ?_
  rw [List.getElem?_modify, List.getElem?_set, List.getElem?_set]
  split_ifs <;> simp

/-- A tuple that is pushed is passed on or parked. -/
lemma Balanced.push (h : s.Balanced pushed) (hparked : s.parked i = []) {out parked : List α}
    (hp : out ++ parked = [p]) (hout : s'.output = s.output ++ out.map (i, ·))
    (hin : ∀ j, s'.parked j = if i = j then parked else s.parked j) :
    s'.Balanced (pushed ++ [(i, p)]) := by
  intro j
  have hofInput : ofInput j (s.output ++ out.map (i, ·)) =
      ofInput j s.output ++ if i = j then out else [] := by
    unfold ofInput
    by_cases hij : i = j
    · simp [hij, List.filter_map, Function.comp_def]
    · simp [hij, List.filter_map, Function.comp_def]
  rw [ofInput_concat, hin, hout, hofInput, h j]
  by_cases hij : i = j
  · subst hij
    rw [if_pos rfl, if_pos rfl, if_pos rfl, hparked, append_nil, append_assoc, hp]
  · rw [if_neg hij, if_neg hij, if_neg hij, append_nil]

lemma Ok.push (h : s.Ok pushed) {input : Input α} (hi : s.inputs[i]? = some input)
    (hwaiting : input.waiting = false) (p : α) (answer : Bool) :
    ∃ s', s.step (.push i p answer) = some s' ∧ s'.Ok (pushed ++ [(i, p)]) := by
  have hlt : i < s.inputs.length := (List.getElem?_eq_some_iff.mp hi).1
  have hok := h.inputs input (mem_of_getElem? hi)
  have hcallback : input.callback = false := hok.waiting.symm.trans hwaiting
  have htuple := hok.tuple_eq_none hcallback
  have hparked : s.parked i = [] := by
    unfold parked
    rw [hi, bind_some, htuple]
    rfl
  simp only [Mux.step, Mux.push, hi, hcallback, htuple, Option.bind_eq_bind, Option.bind_some,
    Option.pure_def, isNone_none, isSome_none, Bool.or_self, Bool.false_eq_true, if_true, if_false]
  by_cases hblocked : s.blocked = true
  · rw [if_pos hblocked, map_some, answered_setInput hlt]
    refine ⟨_, rfl, h.balanced.push hparked (nil_append [p]) (append_nil s.output).symm
      fun j => parked_setInput hlt, forall_mem_setInput h.inputs ⟨rfl, fun _ => rfl⟩, fun hfree => ?_,
      h.once⟩
    rw [show s.blocked = false from hfree] at hblocked
    cases hblocked
  · rw [if_neg hblocked]
    obtain ⟨hnobody, howed, htime⟩ := h.free (Bool.eq_false_iff.mpr hblocked)
    cases answer with
    | true =>
      refine ⟨_, rfl, h.balanced.push hparked (append_nil [p]) rfl fun j => ?_, h.inputs,
        fun _ => ⟨hnobody, rfl, htime⟩, fun honce => absurd honce.1 Bool.false_ne_true⟩
      show s.parked j = _
      split_ifs with hij
      · exact hij ▸ hparked
      · rfl
    | false =>
      have hstate := @answered_setInput α { s.pushOut i p false with blocked := true } i
        { input with callback := true, tuple := none } hlt
      refine ⟨_, congrArg some hstate, h.balanced.push hparked (append_nil [p]) rfl
        fun j => parked_setInput hlt, forall_mem_setInput h.inputs ⟨rfl, nofun⟩,
        fun hfree => absurd hfree Bool.false_ne_true.symm, fun honce => ?_⟩
      have htrue : s.timeCallback = true := honce.2
      rw [htime] at htrue
      cases htrue

lemma Ok.step (h : s.Ok pushed) {e : Event α} (hallowed : s.Allowed e) (htaken : e.Taken) :
    ∃ s', s.step e = some s' ∧ s'.Ok (pushed ++ e.pushed) := by
  cases e with
  | push port p answer =>
    obtain ⟨input, hi, hwaiting⟩ := hallowed
    exact h.push hi hwaiting p answer
  | callback =>
    have htime : s.timeCallback = false :=
      Bool.eq_false_iff.mpr fun htime => h.once ⟨hallowed, htime⟩
    rw [show pushed ++ Event.pushed .callback = pushed from append_nil _]
    refine ⟨{ s with owed := false, timeCallback := true }, ?_, h.balanced, h.inputs, ?_, ?_⟩
    · show (if s.timeCallback then none else _) = _
      rw [htime]
      rfl
    · intro hfree
      have howed := (h.free hfree).2.1
      rw [show s.owed = true from hallowed] at howed
      cases howed.symm
    · exact fun honce => absurd honce.1 Bool.false_ne_true
  | catchUp answers =>
    rw [show pushed ++ Event.pushed (.catchUp answers) = pushed from append_nil _]
    exact h.catchUp hallowed htaken

lemma ok_mk' (noInputs : ℕ) : (mk' α noInputs).Ok [] := by
  have hinputs : ∀ input ∈ (mk' α noInputs).inputs, input = {} :=
    fun input hinput => eq_of_mem_replicate hinput
  refine ⟨fun i => ?_, fun input hinput => ?_, fun _ => ⟨fun input hinput => ?_, rfl, rfl⟩, ?_⟩
  · rw [parked_eq_nil fun input hinput => by rw [hinputs input hinput]]
    rfl
  · rw [hinputs input hinput]
    exact ⟨rfl, fun hsome => absurd hsome Bool.false_ne_true⟩
  · rw [hinputs input hinput]
  · exact fun honce => absurd honce.1 Bool.false_ne_true

end Mux

end P2.Elements
