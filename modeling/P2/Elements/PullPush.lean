import P2.Core.Scheduler

/-!
# A queue and the runnable behind it

A `Queue` keeps what is pushed into it and calls a reader that found it empty. `PullPush` is such a
reader: whenever the scheduler runs it, it moves tuples from its input to its output until one of
the two holds it up, and it is active again once that one has called back.

* `Segment.step` is one event of the two elements, between an upstream that pushes and a downstream
  that may answer 0 to any push and call back at any later time.
* `segment_passes` says that nothing is lost on the way.
-/

namespace P2.Elements

open P2.Core P2.Lib List

variable {α : Type}

/-- Of a callback it matters only whether there is one. -/
structure Queue (α : Type) where
  q : List α := []
  pullCB : Bool := false
  pushCB : Bool := false
  size : ℕ := 0
  /-- The state proxy is `STATEFUL`. -/
  stateful : Bool := false
  proxySize : ℕ := 0

namespace Queue

/-- The queue, whether the pull callback was called, and the answer. -/
def push (p : α) (cb : Bool) (s : Queue α) : Queue α × Bool × Bool :=
  let q := s.q ++ [p]
  let s' := { s with q := q, pullCB := false, stateful := true, proxySize := q.length }
  if q.length = s.size then ({ s' with pushCB := cb }, s.pullCB, false) else (s', s.pullCB, true)

/-- The queue, its first tuple, and whether the push callback was called. -/
def pull (cb : Bool) (s : Queue α) : Queue α × Option α × Bool :=
  match s.q with
  | [] => ({ s with pullCB := cb }, none, false)
  | p :: q =>
    ({ s with
        q := q
        pushCB := false
        stateful := if q = [] then false else s.stateful
        proxySize := q.length }, some p, s.pushCB)

/-- The proxy shows what the queue holds, and nobody waits for what is already so. -/
structure Ok (s : Queue α) : Prop where
  stateful : s.stateful = !s.q.isEmpty
  proxySize : s.proxySize = s.q.length
  pullCB : s.pullCB = true → s.q = []
  pushCB : s.pushCB = true → s.q ≠ []

variable {s : Queue α}

lemma ok_push (s : Queue α) (p : α) (cb : Bool) : (s.push p cb).1.Ok ∧
    (s.push p cb).1.q = s.q ++ [p] ∧ (s.push p cb).1.pullCB = false ∧ (s.push p cb).2.1 = s.pullCB := by
  unfold push
  by_cases hfull : (s.q ++ [p]).length = s.size
  · rw [if_pos hfull]
    exact ⟨⟨by simp, rfl, by simp, by simp⟩, rfl, rfl, rfl⟩
  · rw [if_neg hfull]
    exact ⟨⟨by simp, rfl, by simp, by simp⟩, rfl, rfl, rfl⟩

lemma Ok.pull_nil (h : s.Ok) (hq : s.q = []) : s.pull true = ({ s with pullCB := true }, none, false) ∧
    ({ s with pullCB := true } : Queue α).Ok :=
  ⟨by simp [pull, hq], h.stateful, h.proxySize, fun _ => hq, h.pushCB⟩

lemma Ok.pull_cons (h : s.Ok) {p : α} {q : List α} (hq : s.q = p :: q) (cb : Bool) :
    ∃ s', s.pull cb = (s', some p, s.pushCB) ∧ s'.Ok ∧ s'.q = q ∧ s'.pullCB = false := by
  have hcb : s.pullCB = false := by simpa [hq] using h.pullCB
  unfold pull
  rw [hq]
  refine ⟨_, rfl, ⟨?_, rfl, by simp [hcb], by simp⟩, rfl, hcb⟩
  cases q with
  | nil => rfl
  | cons => simpa [hq] using h.stateful

end Queue

/-- `PullPush` with the state of its runnable. -/
structure PullPush where
  state : RunState := .ACTIVE
  pullPending : Bool := false
  pushPending : Bool := false

namespace PullPush

/-- `PullPush::Runnable::state`; `none` where the assertion fails. -/
def setState (state : RunState) (s : PullPush) : Option PullPush :=
  match state with
  | .OFF => some { s with state := .OFF }
  | .ACTIVE => if s.pullPending || s.pushPending then none else some { s with state := .ACTIVE }
  | _ => some { s with state := .BLOCKED }

def pullWakeup (s : PullPush) : Option PullPush :=
  let s := { s with pullPending := false }
  if !s.pushPending then s.setState .ACTIVE else some s

def pushWakeup (s : PullPush) : Option PullPush :=
  let s := { s with pushPending := false }
  if !s.pullPending then s.setState .ACTIVE else some s

lemma pullWakeup_eq (s : PullPush) : s.pullWakeup =
    some { s with pullPending := false, state := if s.pushPending then s.state else .ACTIVE } := by
  cases hpush : s.pushPending <;> simp [pullWakeup, setState, hpush]

lemma pushWakeup_eq (s : PullPush) : s.pushWakeup =
    some { s with pushPending := false, state := if s.pullPending then s.state else .ACTIVE } := by
  cases hpull : s.pullPending <;> simp [pushWakeup, setState, hpull]

end PullPush

/-- A queue, the `PullPush` behind it, whether the downstream holds the callback of the `PullPush`,
and what was pushed to the downstream. -/
structure Segment (α : Type) where
  queue : Queue α
  mover : PullPush := {}
  held : Bool := false
  out : List α := []

inductive Segment.Event (α : Type) where
  | push (p : α) (cb : Bool)
  /-- The scheduler comes by; the downstream answers each push from all it was given so far. -/
  | run (answer : List α → Bool)
  /-- The downstream calls back, if it holds a callback. -/
  | callback

namespace Segment

/-- The loop of `PullPush::run`, in at most `n` turns. -/
def loop (answer : List α → Bool) : ℕ → Segment α → Option (Segment α)
  | 0, _ => none
  | n + 1, s =>
    match s.queue.pull true with
    | (queue, some p, _) =>
      let s := { s with queue := queue, out := s.out ++ [p] }
      if answer s.out then loop answer n s
      else do
        let mover ← PullPush.setState .BLOCKED { s.mover with pushPending := true }
        return { s with mover := mover, held := true }
    | (queue, none, _) => do
      let mover ← PullPush.setState .QUIECENE { s.mover with pullPending := true }
      return { s with queue := queue, mover := mover }

/-- What an event does; `none` where an assertion fails. -/
def step (s : Segment α) : Event α → Option (Segment α)
  | .push p cb => do
    let pushed := s.queue.push p cb
    let mover ← if pushed.2.1 then s.mover.pullWakeup else some s.mover
    return { s with queue := pushed.1, mover := mover }
  | .run answer =>
    if s.mover.state = .ACTIVE then s.loop answer (s.queue.q.length + 1) else some s
  | .callback =>
    if s.held then do
      let mover ← s.mover.pushWakeup
      return { s with mover := mover, held := false }
    else some s

/-- The tuples that an event puts into the segment. -/
def Event.pushed : Event α → List α
  | .push p _ => [p]
  | _ => []

/-- Nothing is lost or reordered, and the `PullPush` is active unless a side that holds its callback
holds it up. -/
structure Ok (pushed : List α) (s : Segment α) : Prop where
  queue : s.queue.Ok
  out : s.out ++ s.queue.q = pushed
  pullPending : s.mover.pullPending = s.queue.pullCB
  pushPending : s.mover.pushPending = s.held
  state : s.mover.state = if s.queue.pullCB || s.held then .BLOCKED else .ACTIVE

variable {s : Segment α} {pushed : List α}

lemma Ok.loop (h : s.Ok pushed) (hpull : s.queue.pullCB = false) (hheld : s.held = false)
    (answer : List α → Bool) {n : ℕ} (hn : s.queue.q.length < n) : ∃ s', s.loop answer n = some s' ∧
      s'.Ok pushed ∧ ((∀ out, answer out = true) → s'.queue.q = []) := by
  induction n generalizing s with
  | zero => exact absurd hn (Nat.not_lt_zero _)
  | succ n ih =>
    unfold Segment.loop
    cases hq : s.queue.q with
    | nil =>
      obtain ⟨hnone, hok⟩ := h.queue.pull_nil hq
      simp only [hnone]
      exact ⟨_, rfl, ⟨hok, h.out, rfl, h.pushPending, by simp⟩, fun _ => hq⟩
    | cons p q =>
      obtain ⟨queue, hsome, hok, rfl, hcb⟩ := h.queue.pull_cons hq true
      have hout : s.out ++ [p] ++ queue.q = pushed := by simpa [hq] using h.out
      have hpending : s.mover.pullPending = queue.pullCB := by rw [h.pullPending, hpull, hcb]
      simp only [hsome]
      split_ifs with hanswer
      · refine ih ⟨hok, hout, hpending, h.pushPending, ?_⟩ hcb hheld (by simpa [hq] using hn)
        exact h.state.trans (by rw [hpull, hcb])
      · refine ⟨_, rfl, ⟨hok, hout, hpending, rfl, by simp⟩, fun hall => ?_⟩
        exact absurd (hall _) hanswer

lemma Ok.run (h : s.Ok pushed) (answer : List α → Bool) : ∃ s', s.step (.run answer) = some s' ∧
    s'.Ok pushed ∧ (s.held = false → (∀ out, answer out = true) → s'.queue.q = []) := by
  unfold Segment.step
  cases hpull : s.queue.pullCB with
  | true => exact ⟨s, by simp [h.state, hpull], h, fun _ _ => h.queue.pullCB hpull⟩
  | false =>
    cases hheld : s.held with
    | true => exact ⟨s, by simp [h.state, hheld], h, nofun⟩
    | false =>
      obtain ⟨s', hs', hok, hall⟩ := h.loop hpull hheld answer (Nat.lt_succ_self _)
      exact ⟨s', by simpa [h.state, hpull, hheld] using hs', hok, fun _ => hall⟩

lemma Ok.callback (h : s.Ok pushed) :
    ∃ s', s.step .callback = some s' ∧ s'.Ok pushed ∧ s'.held = false := by
  rw [Segment.step, PullPush.pushWakeup_eq]
  cases hheld : s.held with
  | false => exact ⟨s, rfl, h, hheld⟩
  | true =>
    refine ⟨_, rfl, ⟨h.queue, h.out, h.pullPending, rfl, ?_⟩, rfl⟩
    cases hpull : s.queue.pullCB <;> simp [h.state, h.pullPending, hpull, hheld]

lemma Ok.step (h : s.Ok pushed) (e : Event α) :
    ∃ s', s.step e = some s' ∧ s'.Ok (pushed ++ e.pushed) := by
  cases e with
  | push p cb =>
    obtain ⟨hok, hq, hcb, hwoken⟩ := s.queue.ok_push p cb
    have hout : s.out ++ (s.queue.push p cb).1.q = pushed ++ [p] := by
      rw [hq, ← append_assoc, h.out]
    simp only [Segment.step, hwoken, PullPush.pullWakeup_eq]
    cases hpull : s.queue.pullCB with
    | false =>
      refine ⟨_, rfl, hok, hout, ?_, h.pushPending, ?_⟩ <;> simp [h.pullPending, h.state, hpull, hcb]
    | true =>
      refine ⟨_, rfl, hok, hout, hcb.symm, h.pushPending, ?_⟩
      simp [h.state, h.pushPending, hpull, hcb]
  | run answer =>
    obtain ⟨s', hs', hok, -⟩ := h.run answer
    exact ⟨s', hs', (append_nil pushed).symm ▸ hok⟩
  | callback =>
    obtain ⟨s', hs', hok, -⟩ := h.callback
    exact ⟨s', hs', (append_nil pushed).symm ▸ hok⟩

/-- **A queue and its `PullPush`** lose nothing, in every run and whatever the downstream answers: no
assertion fails, and what was pushed is what the downstream was given, in the same order, followed by
what the queue holds. No wake-up is lost: the `PullPush` is active unless the queue is empty or the
downstream holds its callback, so that the next turn empties the queue once the downstream has called
back and accepts. -/
theorem segment_passes (size : ℕ) (events : List (Event α)) :
    ∃ s, events.foldlM step { queue := { size := size } } = some s ∧
      s.Ok (events.flatMap Event.pushed) ∧
      ∃ s', [.callback, .run fun _ => true].foldlM step s = some s' ∧
        s'.Ok (events.flatMap Event.pushed) ∧ s'.queue.q = [] := by
  have hinit : Ok [] ({ queue := { size := size } } : Segment α) :=
    ⟨⟨rfl, rfl, nofun, nofun⟩, rfl, rfl, rfl, rfl⟩
  obtain ⟨s, hs, h⟩ := (permitted_of_mem fun _ _ => trivial).run_events
    (fun events s => Ok (events.flatMap Event.pushed) s)
    (fun es s e h _ => by simpa using h.step e) hinit
  refine ⟨s, hs, h, ?_⟩
  obtain ⟨s₁, hs₁, h₁, hheld⟩ := h.callback
  obtain ⟨s', hs', h', hall⟩ := h₁.run fun _ => true
  exact ⟨s', by simp [hs₁, hs'], h', hall hheld fun _ => rfl⟩

end Segment

end P2.Elements
