import P2.Lib.Runs
import P2.Table.Common

/-!
# `Aggwrap2`

An outer tuple is given to the inner strand, whose tuples are aggregated until it signals that it is
done; then one result goes out. The outer pusher is to wait until then.

* `Aggwrap2.step` is one event: a push of the outer pusher, a tuple or the completion of the inner
  strand, or its callback.
* `Aggwrap2.work` reads off the events alone what the inner strand made of which outer tuple.
* `Aggwrap2.aggwrap_answers`: one result was pushed for each outer tuple that is done with.
-/

namespace P2.Elements

open P2.Value P2.Table P2.Lib List

inductive AggState where
  | CONFIG
  | IDLE
  | BUSY
  deriving DecidableEq

/-- `_aggregateFn`: what it returns for the values since the last `reset`. The result of most functions
is an object of its own; that of `MKSET` refers to the one Set that the function clears and fills. -/
inductive AggFn where
  | own (compute : List Value → Value)
  | MKSET

def AggFn.collected (values : List Value) : Value :=
  .set (values.foldl (fun t v => t.insertUnique comparator v) SearchTree.nil).toList

def AggFn.value : AggFn → List Value → Value
  | .own compute, values => compute values
  | .MKSET, values => collected values

/-- What does not change. -/
structure Aggwrap2.Config where
  aggField : ℕ
  starAgg : Bool
  outerGroupBy : List ℕ
  resultTupleName : List UInt8
  aggregateFn : AggFn

/-- A result tuple; no value stands for the Set of `MKSET`. -/
structure Aggwrap2.Result where
  front : List Value
  value : Option Value
  back : List Value

/-- The element, and what it did to its neighbours: the tuples given to the inner strand, the results
pushed out, whether the outer pusher waits for its callback, whether the inner strand works on a tuple
and whether it has still to call back. `values` is what the aggregate function was given. -/
structure Aggwrap2 where
  aggState : AggState := .CONFIG
  inner_accepting : Bool := true
  ext_in_cb : Bool := false
  eventTuple : Option Tuple := none
  values : List Value := []
  given : List Tuple := []
  output : List Aggwrap2.Result := []
  waiting : Bool := false
  working : Bool := false
  owed : Bool := false

namespace Aggwrap2

def Config.value (c : Config) (t : Tuple) : Option Value :=
  if c.starAgg then some .null else t.fields[c.aggField]?

/-- What the fields of a result read as, when the aggregate function was given these values last. -/
def Result.read (values : List Value) (r : Result) : List Value :=
  r.front ++ r.value.getD (AggFn.collected values) :: r.back

/-- The result tuple of `agg_finalize`; `none` where the event or `_outerGroupBy` is read behind its
end. -/
def Config.resultTuple (c : Config) (event : Tuple) (values : List Value) : Option Result :=
  if c.aggField = 0 ∨ c.outerGroupBy.length + 1 < c.aggField then none
  else do
    let before ← (c.outerGroupBy.take (c.aggField - 1)).mapM (event.fields[·]?)
    let after ← (c.outerGroupBy.drop (c.aggField - 1)).mapM (event.fields[·]?)
    let value := match c.aggregateFn with
      | .own compute => some (compute values)
      | .MKSET => none
    return ⟨.str c.resultTupleName :: before, value, after⟩

/-- An outer tuple; the answer of the inner strand, if it is given to it. -/
def push (t : Tuple) (answer : Bool) (s : Aggwrap2) : Option Aggwrap2 :=
  let s := { s with ext_in_cb := true }
  if s.aggState = .BUSY then
    -- an overrun: the tuple is dropped
    some s
  else if s.inner_accepting then
    some { s with
      eventTuple := some t, aggState := .BUSY, values := [], inner_accepting := answer,
      given := s.given ++ [t], working := true, owed := !answer }
  else none

def callOut (s : Aggwrap2) : Aggwrap2 :=
  { s with waiting := s.waiting && !s.ext_in_cb, ext_in_cb := false }

def agg_accum (c : Config) (t : Tuple) (s : Aggwrap2) : Option Aggwrap2 :=
  if s.aggState = .BUSY then do
    let v ← c.value t
    return { s with values := s.values ++ [v] }
  else some s

def agg_finalize (c : Config) (s : Aggwrap2) : Option Aggwrap2 :=
  if s.aggState = .BUSY then do
    let result ← c.resultTuple (← s.eventTuple) s.values
    let s := { s with output := s.output ++ [result], eventTuple := none, aggState := .IDLE }
    return s.callOut
  else some s

def int_push_cb (s : Aggwrap2) : Aggwrap2 :=
  if s.aggState = .BUSY then { s with inner_accepting := true }.callOut else s

inductive Event where
  | push (t : Tuple) (answer : Bool)
  | inner (t : Tuple)
  | completion
  | callback

/-- What an event does; every push is answered with 0, so that the outer pusher waits. -/
def step (c : Config) (s : Aggwrap2) : Event → Option Aggwrap2
  | .push t answer => { s with waiting := true }.push t answer
  | .inner t => s.agg_accum c t
  | .completion => { s with working := false }.agg_finalize c
  | .callback => some { s with owed := false }.int_push_cb

/-- The outer pusher waits for its callback; the inner strand works on what it was given, and calls
back after a 0. Tuples have the fields that are read. -/
def Allowed (c : Config) (s : Aggwrap2) : Event → Prop
  | .push t _ => s.waiting = false ∧ ∀ i ∈ c.outerGroupBy, i < t.fields.length
  | .inner t => s.working = true ∧ (c.value t).isSome
  | .completion => s.working = true
  | .callback => s.owed = true

/-- The inner strand takes what it is given, and the Set of `MKSET` is not cleared once a result that
refers to it was pushed. -/
def Accepts (c : Config) (s : Aggwrap2) : Event → Prop
  | .push _ answer => answer = true ∧ (c.aggregateFn = .MKSET → s.output = [])
  | _ => True

/-! ## What is to be pushed -/

/-- The outer tuples that the inner strand is done with, and the one that it works on, each with the
inner tuples made of it. -/
structure Work where
  done : List (Tuple × List Tuple) := []
  current : Option (Tuple × List Tuple) := none

def Work.add (w : Work) : Event → Work
  | .push t _ => { w with current := some (t, []) }
  | .inner u => { w with current := w.current.map fun x => (x.1, x.2 ++ [u]) }
  | .completion => ⟨w.done ++ w.current.toList, none⟩
  | .callback => w

def work (events : List Event) : Work := events.foldl Work.add {}

def Event.pushed : Event → List Tuple
  | .push t _ => [t]
  | _ => []

/-- The fields of the result for an outer tuple and the tuples that the inner strand made of it. -/
def Config.result (c : Config) (x : Tuple × List Tuple) : Option (List Value) := do
  let values ← x.2.mapM c.value
  let before ← (c.outerGroupBy.take (c.aggField - 1)).mapM (x.1.fields[·]?)
  let after ← (c.outerGroupBy.drop (c.aggField - 1)).mapM (x.1.fields[·]?)
  return .str c.resultTupleName :: before ++ c.aggregateFn.value values :: after

/-! ## The invariant -/

/-- The element between events, where the inner strand takes what it is given. -/
structure Ok (c : Config) (w : Work) (pushed : List Tuple) (s : Aggwrap2) : Prop where
  accepting : s.inner_accepting = true ∧ s.owed = false
  given : s.given = pushed
  pushed : pushed = w.done.map (·.1) ++ w.current.toList.map (·.1)
  results : w.done.map c.result = s.output.map fun r => some (r.read s.values)
  idle : w.current = none → s.aggState ≠ .BUSY ∧ s.working = false
  busy : ∀ x ∈ w.current, s.aggState = .BUSY ∧ s.eventTuple = some x.1 ∧
    x.2.mapM c.value = some s.values ∧ s.waiting = true ∧ s.ext_in_cb = true ∧
    (∀ i ∈ c.outerGroupBy, i < x.1.fields.length) ∧ (c.aggregateFn = .MKSET → s.output = [])
  own : c.aggregateFn ≠ .MKSET → ∀ r ∈ s.output, r.value.isSome

variable {c : Config} {w : Work} {s : Aggwrap2} {pushed : List Tuple}

/-- Results that do not refer to the Set read the same whatever the function is given next. -/
lemma map_read {output : List Result} (hnil : c.aggregateFn = .MKSET → output = [])
    (hown : c.aggregateFn ≠ .MKSET → ∀ r ∈ output, r.value.isSome) (values values' : List Value) :
    (output.map fun r => some (r.read values)) = output.map fun r => some (r.read values') := by
  by_cases hfn : c.aggregateFn = .MKSET
  · rw [hnil hfn]
    rfl
  · refine map_congr_left fun r hr => ?_
    obtain ⟨v, hv⟩ := Option.isSome_iff_exists.mp (hown hfn r hr)
    rw [Result.read, Result.read, hv, Option.getD_some, Option.getD_some]

lemma exists_resultTuple (hrange : 1 ≤ c.aggField ∧ c.aggField ≤ c.outerGroupBy.length + 1)
    {x : Tuple × List Tuple} (h : ∀ i ∈ c.outerGroupBy, i < x.1.fields.length) {values : List Value}
    (hvalues : x.2.mapM c.value = some values) : ∃ r, c.resultTuple x.1 values = some r ∧
      c.result x = some (r.read values) ∧ (c.aggregateFn ≠ .MKSET → r.value.isSome) := by
  have hmap : ∀ L : List ℕ, (∀ i ∈ L, i < x.1.fields.length) →
      L.mapM (x.1.fields[·]?) = some (L.map (x.1.fields.getD · .null)) := fun L hL =>
    mapM_eq_some_map fun i hi => by
      rw [List.getElem?_eq_getElem (hL i hi), getD_eq_getElem _ _ (hL i hi)]
  have hout : ¬ (c.aggField = 0 ∨ c.outerGroupBy.length + 1 < c.aggField) := by omega
  unfold Config.resultTuple Config.result
  rw [if_neg hout, hmap _ fun i hi => h i (mem_of_mem_take hi),
    hmap _ fun i hi => h i (mem_of_mem_drop hi), hvalues]
  refine ⟨_, rfl, ?_, fun hfn => ?_⟩
  · cases hfn : c.aggregateFn <;> simp [Result.read, AggFn.value]
  · cases hf : c.aggregateFn with
    | own compute => rfl
    | MKSET => exact absurd hf hfn

lemma Ok.exists_current (h : s.Ok c w pushed) (hworking : s.working = true) :
    ∃ x, w.current = some x := by
  rcases hcurrent : w.current with _ | x
  · exact absurd ((h.idle hcurrent).2.symm.trans hworking) Bool.false_ne_true
  · exact ⟨x, rfl⟩

lemma Ok.current_eq_none (h : s.Ok c w pushed) (hwaiting : s.waiting = false) :
    w.current = none := by
  rcases hcurrent : w.current with _ | x
  · rfl
  · obtain ⟨-, -, -, hwaits, -⟩ := h.busy x hcurrent
    exact absurd (hwaiting.symm.trans hwaits) Bool.false_ne_true

lemma Ok.step (hrange : 1 ≤ c.aggField ∧ c.aggField ≤ c.outerGroupBy.length + 1)
    (h : s.Ok c w pushed) {e : Event} (he : s.Allowed c e) (haccepts : s.Accepts c e) :
    ∃ s', s.step c e = some s' ∧ s'.Ok c (w.add e) (pushed ++ e.pushed) := by
  cases e with
  | push t answer =>
    have hnone := h.current_eq_none he.1
    have hidle := (h.idle hnone).1
    refine ⟨_, (if_neg hidle).trans (if_pos h.accepting.1), ⟨haccepts.1, by
      simp [haccepts.1]⟩, ?_, ?_, ?_, nofun, ?_, h.own⟩
    · exact congrArg (· ++ [t]) h.given
    · simp [Work.add, Event.pushed, h.pushed, hnone]
    · exact h.results.trans (map_read haccepts.2 h.own _ _)
    · rintro x ⟨⟩
      exact ⟨rfl, rfl, rfl, rfl, rfl, he.2, haccepts.2⟩
  | inner t =>
    obtain ⟨x, hcurrent⟩ := h.exists_current he.1
    obtain ⟨v, hv⟩ := Option.isSome_iff_exists.mp he.2
    obtain ⟨hbusy, hevent, hvalues, hwaiting, hcb, hfields, hnil⟩ := h.busy x hcurrent
    have hstep : s.step c (.inner t) = some { s with values := s.values ++ [v] } := by
      simp [Aggwrap2.step, agg_accum, hbusy, hv]
    refine ⟨_, hstep, h.accepting, ?_, ?_, h.results.trans (map_read hnil h.own _ _), ?_, ?_, h.own⟩
    · exact h.given.trans (append_nil pushed).symm
    · simp [Work.add, Event.pushed, h.pushed, hcurrent]
    · simp [Work.add, hcurrent]
    · rw [Work.add, hcurrent]
      rintro y ⟨⟩
      exact ⟨hbusy, hevent, by simp [hvalues, hv], hwaiting, hcb, hfields, hnil⟩
  | completion =>
    obtain ⟨x, hcurrent⟩ := h.exists_current he
    obtain ⟨hbusy, hevent, hvalues, hwaiting, hcb, hfields, hnil⟩ := h.busy x hcurrent
    obtain ⟨r, hresult, hread, hown⟩ := exists_resultTuple hrange hfields hvalues
    have hstep : s.step c .completion = some { s with
        output := s.output ++ [r], eventTuple := none, aggState := .IDLE, working := false,
        waiting := false, ext_in_cb := false } := by
      simp [Aggwrap2.step, agg_finalize, callOut, hbusy, hevent, hresult, hcb]
    refine ⟨_, hstep, h.accepting, ?_, ?_, ?_, fun _ => ⟨by simp, rfl⟩, nofun, fun hfn => ?_⟩
    · exact h.given.trans (append_nil pushed).symm
    · simp [Work.add, Event.pushed, h.pushed, hcurrent]
    · simp [Work.add, hcurrent, h.results, hread]
    · exact forall_mem_append.mpr ⟨h.own hfn, forall_mem_singleton.mpr (hown hfn)⟩
  | callback => exact absurd (h.accepting.2.symm.trans he) Bool.false_ne_true

/-- **Every event is answered once** where the inner strand takes what it is given: the assertion
does not fail, every outer tuple is given to the inner strand, in order, and for each that it is done
with one result was pushed, which reads as the group-by fields and the value over the tuples made of it.
Hyps: `hrange` says that the aggregate field is one of the result; `Accepts` that the inner strand
never answers 0, and that no tuple follows a result of `MKSET` -/
theorem aggwrap_answers (c : Config)
    (hrange : 1 ≤ c.aggField ∧ c.aggField ≤ c.outerGroupBy.length + 1) (events : List Event)
    (h : Permitted (step c) (fun s e => s.Allowed c e ∧ s.Accepts c e) {} events) :
    ∃ s, events.foldlM (step c) {} = some s ∧ s.given = events.flatMap Event.pushed ∧
      events.flatMap Event.pushed =
        (work events).done.map (·.1) ++ (work events).current.toList.map (·.1) ∧
      (work events).done.map c.result = s.output.map fun r => some (r.read s.values) := by
  obtain ⟨s, hrun, hok⟩ := h.run_events
    (fun events s => Ok c (work events) (events.flatMap Event.pushed) s)
    (fun events s e hok he => by simpa [work] using hok.step hrange he.1 he.2)
    ⟨⟨rfl, rfl⟩, rfl, rfl, rfl, fun _ => ⟨nofun, rfl⟩, nofun, nofun⟩
  exact ⟨s, hrun, hok.given, hok.pushed, hok.results⟩

/-- A count of the inner tuples, by the first field of the event. -/
def counting : Config := ⟨1, true, [0], [], .own AggFunc.COUNT.compute⟩

def sample (n : Int64) : Tuple := { ID := 0, fields := [.int64 n] }

theorem aggwrap_answers_counting : ∃ s, [.push (sample 7) true, .inner (sample 1), .inner (sample 2),
      .completion, .push (sample 8) true].foldlM (step counting) {} = some s ∧
    s.given = [sample 7, sample 8] ∧
    s.output.map (·.read s.values) = [[.str [], .int64 2, .int64 7]] := by
  obtain ⟨s, hrun, hgiven, -, hresults⟩ := aggwrap_answers counting ⟨le_rfl, by decide⟩
    [.push (sample 7) true, .inner (sample 1), .inner (sample 2), .completion,
      .push (sample 8) true] (by
      refine permitted_cons ⟨⟨rfl, by decide⟩, rfl, nofun⟩ rfl ?_
      refine permitted_cons ⟨⟨rfl, rfl⟩, trivial⟩ rfl ?_
      refine permitted_cons ⟨⟨rfl, rfl⟩, trivial⟩ rfl ?_
      refine permitted_cons ⟨rfl, trivial⟩ rfl ?_
      exact permitted_cons ⟨⟨rfl, by decide⟩, rfl, nofun⟩ rfl trivial)
  refine ⟨s, hrun, hgiven, ?_⟩
  cases hrun
  exact map_injective_iff.mpr (Option.some_injective _) (hresults.symm.trans rfl)

/-- The inner strand answers 0. It calls back before it is done: the outer pusher is called, and its
next tuple is dropped. It is done before it calls back: the assertion fails at the next tuple. And
where `MKSET` collects, the next event clears the Set of the result that was pushed. -/
theorem aggwrap_blocked : (∃ s, [.push (sample 7) false, .callback, .push (sample 8) true].foldlM
      (step counting) {} = some s ∧ s.given = [sample 7]) ∧
    (∃ s, [.push (sample 7) false, .completion].foldlM (step counting) {} = some s ∧
      s.waiting = false) ∧
    [.push (sample 7) false, .completion, .push (sample 8) true].foldlM (step counting) {} = none ∧
    ∃ s, [.push (sample 7) true, .inner (sample 1), .completion, .push (sample 8) true].foldlM
      (step { counting with aggregateFn := .MKSET }) {} = some s ∧
      s.output.map (·.read s.values) = [[.str [], .set [], .int64 7]] :=
  ⟨⟨_, rfl, rfl⟩, ⟨_, rfl, rfl⟩, rfl, _, rfl, rfl⟩

end Aggwrap2

end P2.Elements
