import P2.Lib.Runs

/-!
# The gate of the scheduler

The scheduler lets one external event into the dataflow for each fixpoint
(`one_event_per_fixpoint`): it turns on a `Switch`, runs all runnables until none is active, and
commits.
-/

namespace P2.Core

open P2.Lib List

inductive RunState where
  | QUIECENE
  | ACTIVE
  | BLOCKED
  | OFF
  deriving DecidableEq

def RunState.toNat : RunState → ℕ
  | QUIECENE => 0
  | ACTIVE => 1
  | BLOCKED => 2
  | OFF => 3

structure Switch where
  state : RunState := .ACTIVE
  mPullPending : Bool := false
  mPushPending : Bool := false

namespace Switch

/-- `Switch::Runnable::state`; `none` where the assertion fails. -/
def setState (state : RunState) (s : Switch) : Option Switch :=
  match state with
  | .OFF => some { s with state := .OFF }
  | .ACTIVE => if s.mPushPending then none else some { s with state := .ACTIVE }
  | _ => some { s with state := .BLOCKED }

/-- `!_runnable->IRunnable::state() == IRunnable::OFF`: the negation of a number is 0 or 1. -/
def wakes (s : Switch) : Bool := (if s.state.toNat = 0 then 1 else 0) = RunState.OFF.toNat

def pullWakeup (s : Switch) : Option Switch :=
  let s := { s with mPullPending := false }
  if s.wakes && !s.mPushPending then s.setState .ACTIVE else some s

def pushWakeup (s : Switch) : Option Switch :=
  let s := { s with mPushPending := false }
  if s.wakes && !s.mPullPending then s.setState .ACTIVE else some s

lemma wakes_eq (s : Switch) : s.wakes = false := by
  unfold wakes
  split_ifs <;> rfl

lemma pullWakeup_eq (s : Switch) : s.pullWakeup = some { s with mPullPending := false } := by
  simp [pullWakeup, wakes_eq]

lemma pushWakeup_eq (s : Switch) : s.pushWakeup = some { s with mPushPending := false } := by
  simp [pushWakeup, wakes_eq]

end Switch

/-- The gate, its queue and where the scheduler is. The last five fields record what happened; no
operation reads them. -/
structure Gate (τ : Type) where
  switch : Switch := {}
  extQ : List τ := []
  running : Bool := false
  pulled : List τ := []
  pushed : List τ := []
  passed : ℕ := 0
  owes : Bool := false
  early : ℕ := 0

namespace Gate

variable {τ : Type}

/-- A tuple goes through the gate, and the downstream gives its answer. -/
def pass (t : τ) (extQ : List τ) (accepts : Bool) (g : Gate τ) : Gate τ :=
  { g with
    extQ := extQ
    pulled := g.pulled ++ [t]
    pushed := g.pushed ++ [t]
    passed := g.passed + 1
    owes := !accepts
    early := if g.owes then g.early + 1 else g.early }

/-- `Switch::run` with `mNTuple = 1`; `accepts` is the answer of the downstream. -/
def run (accepts : Bool) (g : Gate τ) : Option (Gate τ) :=
  match g.extQ with
  | t :: extQ => do
    let s := if accepts then g.switch else { g.switch with mPushPending := true }
    let switch ← s.setState (if accepts then .OFF else .BLOCKED)
    return { g.pass t extQ accepts with switch := switch }
  | [] => do
    let switch ← g.switch.setState .QUIECENE
    return { g with switch := { switch with mPullPending := true } }

inductive Event (τ : Type) where
  | turnOn
  | visit (accepts : Bool)
  /-- The network or another runnable puts a tuple into the queue, which wakes the switch. -/
  | enqueue (t : τ)
  | callback
  | commit

/-- What an event does; `none` where an assertion fails. -/
def step (g : Gate τ) : Event τ → Option (Gate τ)
  | .turnOn => do
    let switch ← g.switch.setState .ACTIVE
    return { g with switch := switch, running := true }
  | .visit accepts =>
    if g.switch.state = .ACTIVE then do
      let g ← g.run accepts
      if g.switch.state = .ACTIVE then none else return g
    else some g
  | .enqueue t => do
    let switch ← if g.switch.mPullPending then g.switch.pullWakeup else some g.switch
    return { g with switch := switch, extQ := g.extQ ++ [t] }
  | .callback => do
    let switch ← g.switch.pushWakeup
    return { g with switch := switch, owes := false }
  | .commit => some { g with running := false, passed := 0 }

/-- What the scheduler and the downstream may do next: `runRunnables` goes on while the switch is
active. -/
def Enabled (g : Gate τ) : Event τ → Prop
  | .turnOn => g.running = false
  | .visit _ => g.running = true
  | .enqueue _ => True
  | .callback => g.owes = true
  | .commit => g.running = true ∧ g.switch.state ≠ .ACTIVE

/-- The downstream has called back by the time the switch is turned on. -/
def Answered (g : Gate τ) : Event τ → Prop
  | .turnOn => g.owes = false
  | _ => True

structure OneEvent (g : Gate τ) : Prop where
  once : g.pushed = g.pulled
  passed : g.passed ≤ 1
  early : g.early = 0

/-- The switch is active only before its tuple of the fixpoint, and not while a push is pending. -/
structure Inv (g : Gate τ) : Prop extends OneEvent g where
  pending : g.switch.mPushPending = g.owes
  active : g.switch.state = .ACTIVE → g.owes = false ∧ g.passed = 0
  idle : g.running = false → g.passed = 0

variable {g : Gate τ}

lemma Inv.visit (h : Inv g) (hrunning : g.running = true) (accepts : Bool) :
    ∃ g', g.step (.visit accepts) = some g' ∧ Inv g' := by
  by_cases hactive : g.switch.state = .ACTIVE
  swap
  · exact ⟨g, by simp [step, hactive], h⟩
  obtain ⟨howes, hpassed⟩ := h.active hactive
  cases hq : g.extQ with
  | nil =>
    refine ⟨{ g with switch := ⟨.BLOCKED, true, g.switch.mPushPending⟩ }, ?_,
      ⟨h.once, h.passed, h.early⟩, h.pending, by simp, h.idle⟩
    simp [step, run, hactive, hq, Switch.setState]
  | cons t extQ =>
    have hone : OneEvent (g.pass t extQ accepts) :=
      ⟨congrArg (· ++ [t]) h.once, by simp [pass, hpassed], by simp [pass, howes, h.early]⟩
    have hidle : ¬ g.running = false := by simp [hrunning]
    cases accepts with
    | true =>
      refine ⟨{ g.pass t extQ true with switch := { g.switch with state := .OFF } }, ?_,
        ⟨hone.once, hone.passed, hone.early⟩, h.pending.trans howes, by simp, fun hr => ?_⟩
      · simp [step, run, hactive, hq, Switch.setState]
      · exact absurd hr hidle
    | false =>
      refine ⟨{ g.pass t extQ false with switch := ⟨.BLOCKED, g.switch.mPullPending, true⟩ }, ?_,
        ⟨hone.once, hone.passed, hone.early⟩, rfl, by simp, fun hr => ?_⟩
      · simp [step, run, hactive, hq, Switch.setState]
      · exact absurd hr hidle

lemma Inv.step (h : Inv g) {e : Event τ} (he : g.Enabled e) (hans : g.Answered e) :
    ∃ g', g.step e = some g' ∧ Inv g' := by
  cases e with
  | turnOn =>
    have hpending : g.switch.mPushPending = false := h.pending.trans hans
    have hpassed := h.idle he
    refine ⟨{ g with switch := { g.switch with state := .ACTIVE }, running := true }, ?_,
      ⟨h.once, h.passed, h.early⟩, h.pending, fun _ => ⟨hans, hpassed⟩, fun _ => hpassed⟩
    simp [Gate.step, Switch.setState, hpending]
  | visit accepts => exact h.visit he accepts
  | enqueue t =>
    cases hpull : g.switch.mPullPending with
    | true =>
      refine ⟨{ g with switch := { g.switch with mPullPending := false }, extQ := g.extQ ++ [t] },
        ?_, ⟨h.once, h.passed, h.early⟩, h.pending, h.active, h.idle⟩
      simp [Gate.step, hpull, Switch.pullWakeup_eq]
    | false =>
      refine ⟨{ g with extQ := g.extQ ++ [t] }, by simp [Gate.step, hpull],
        ⟨h.once, h.passed, h.early⟩, h.pending, h.active, h.idle⟩
  | callback =>
    refine ⟨{ g with switch := { g.switch with mPushPending := false }, owes := false }, ?_,
      ⟨h.once, h.passed, h.early⟩, rfl, fun hactive => ⟨rfl, (h.active hactive).2⟩, h.idle⟩
    simp [Gate.step, Switch.pushWakeup_eq]
  | commit =>
    refine ⟨_, rfl, ⟨h.once, Nat.zero_le _, h.early⟩, h.pending, fun hactive => ?_, fun _ => rfl⟩
    exact absurd hactive he.2

/-- **One external event for each fixpoint**, in every run in which the downstream has called back
whenever the switch is turned on: no assertion fails, at most one tuple passes between two commits,
every tuple that is pulled is pushed once, and none between an answer 0 and the callback.
Hyps: a downstream that answered 0 has called back when the next fixpoint begins. -/
theorem one_event_per_fixpoint (extQ : List τ) (events : List (Event τ))
    (hevents : Permitted step (fun g e => g.Enabled e ∧ g.Answered e) { extQ := extQ } events) :
    ∃ g, events.foldlM step { extQ := extQ } = some g ∧ OneEvent g := by
  have hinit : Inv (τ := τ) { extQ := extQ } :=
    ⟨⟨rfl, Nat.zero_le 1, rfl⟩, rfl, fun _ => ⟨rfl, rfl⟩, fun _ => rfl⟩
  obtain ⟨g, hrun, hinv⟩ := hevents.run (fun g e hg he => hg.step he.1 he.2) hinit
  exact ⟨g, hrun, hinv.toOneEvent⟩

theorem one_event_per_fixpoint_blocked :
    ∃ g, [Event.turnOn, .visit false, .commit, .callback, .enqueue 1, .turnOn].foldlM step
        { extQ := [0] } = some g ∧ OneEvent g :=
  one_event_per_fixpoint [0] _ (by
    refine ⟨⟨rfl, rfl⟩, ?_⟩
    rintro _ ⟨⟩
    refine ⟨⟨rfl, trivial⟩, ?_⟩
    rintro _ ⟨⟩
    refine ⟨⟨⟨rfl, by decide⟩, trivial⟩, ?_⟩
    rintro _ ⟨⟩
    refine ⟨⟨rfl, trivial⟩, ?_⟩
    rintro _ ⟨⟩
    refine ⟨⟨trivial, trivial⟩, ?_⟩
    rintro _ ⟨⟩
    exact ⟨⟨rfl, rfl⟩, fun _ _ => trivial⟩)

/-- The downstream has answered 0 and not called back when the switch is turned on again. -/
theorem turnOn_fails_when_pending :
    ([Event.turnOn, .visit false, .commit, .turnOn].foldlM step { extQ := [0, 1] }).isNone := by
  decide

end Gate

end P2.Core
