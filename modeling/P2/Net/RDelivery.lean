import Mathlib.Data.List.Induction
import P2.Net.Connections
import P2.Net.ODelivery

/-!
# Reliable delivery

`RDelivery` stands between the tuples to send and the network. It is to keep what it sent until an
acknowledgement covers it, and to send it again when a timer goes off; `retains_iff` says when it
does.

`log` records what the property speaks about; no operation reads it.
-/

namespace P2.Net

open P2.Value P2.Lib List Option

def DEST : ℕ := 0

def RTT : ℕ := 2

def castsToDouble : Value → Bool
  | .double _ | .int64 _ | .null | .str _ => true
  | _ => false

namespace RDelivery

/-! ## The element -/

structure Sent where
  seq : Int64
  tp : List Value
  retryCnt : UInt32 := 0

/-- The state of one destination. -/
structure Connection where
  dest : Value
  outstanding : List Sent := []
  cumSeq : Int64 := 0
  tcb : Option ℕ := none

inductive Entry where
  | sent (t : List Value)
  | acked (t : List Value)
  | retried (t : List Value)

end RDelivery

structure RDelivery where
  retryQ : List (List Value) := []
  outCb : Bool := false
  inOn : Bool := true
  maxRetry : UInt32
  index : Connections RDelivery.Connection ℕ := {}
  log : List RDelivery.Entry := []

namespace RDelivery

def map (dest : Value) (cp : ℕ) (index : Connections Connection ℕ) : Connections Connection ℕ :=
  match index.findEntry dest with
  | some _ => index
  | none => index.insertEntry dest cp

def startTimer (cp : ℕ) (c : Connection) (index : Connections Connection ℕ) :
    Connections Connection ℕ :=
  (index.set cp { c with tcb := some index.nextHandle }).delayCB cp

/-- The connection of a destination, a new one where there is none. -/
def connect (dest : Value) (index : Connections Connection ℕ) : ℕ × Connections Connection ℕ :=
  match index.lookup dest with
  | some cp => (cp, index)
  | none => (index.objects.length, map dest index.objects.length (index.alloc { dest := dest }))

/-- The tuple with the cumulative number of its connection in it. -/
def stamp (cumSeq : Int64) (t : List Value) : List Value := t.set CUMSEQ (.int64 cumSeq)

/-- `RDelivery::tuple`: the tuple to send, which is kept for its destination; `none` where a field
is missing or of a wrong type. -/
def tuple (t : List Value) (s : RDelivery) : Option (List Value × RDelivery) := do
  let dest ← t[DEST]?
  let seq ← int64At SEQ t
  let rtt ← t[RTT]?
  if castsToDouble rtt then
    let (cp, index) := connect dest s.index
    let c ← index.objects[cp]?
    let rtp := stamp c.cumSeq t
    let c := { c with outstanding := c.outstanding ++ [{ seq := seq, tp := rtp }] }
    let index := index.set cp c
    return (rtp, { s with index := if c.tcb = none then startTimer cp c index else index })
  else none

/-- `RDelivery::ack` after the fields were read: a higher cumulative number releases the tuples it
covers, from the front. -/
def release (dest : Value) (cseq : Int64) (s : RDelivery) : RDelivery :=
  match (s.index.lookup dest).bind fun cp => (s.index.objects[cp]?).map fun c => (cp, c) with
  | some (cp, c) =>
    if c.cumSeq < cseq then
      let c' : Connection :=
        { c with
          tcb := none
          cumSeq := cseq
          outstanding := c.outstanding.dropWhile fun ctp => ctp.seq ≤ cseq }
      let index := (s.index.timeCBRemove c.tcb).set cp c'
      { s with index := if c'.outstanding = [] then index else startTimer cp c' index }
    else s
  | none => s

/-- `RDelivery::ack`; `none` where a field is missing. A cumulative number that does not cast throws
`Value::TypeError`, which `push` catches. -/
def ack (t : List Value) (s : RDelivery) : Option RDelivery := do
  let dest ← t[DEST + 2]?
  let cumulative ← t[CUMSEQ + 2]?
  match castInt64 cumulative with
  | some cseq => return s.release dest cseq
  | none => return s

def ACK : List UInt8 := [65, 67, 75]

def isMark : Value → Bool
  | .str s => s = ACK
  | _ => false

/-- `RDelivery::push` up to the push to output 1: the acknowledgement is taken once for each mark;
`none` where an exception leaves the element. -/
def push (t : List Value) (s : RDelivery) : Option RDelivery :=
  (t.filter isMark).foldlM (fun s _ => s.ack t) { s with log := s.log ++ [.acked t] }

def callOut (s : RDelivery) : RDelivery := { s with outCb := false }

def input_cb (s : RDelivery) : RDelivery := ({ s with inOn := true } : RDelivery).callOut

/-- The end of `pull`: a tuple to send again, or a note to call the output. -/
def pullRetry (s : RDelivery) : Option (List Value) × RDelivery :=
  match s.retryQ with
  | tp :: retryQ => (some tp, { s with retryQ := retryQ })
  | [] => (none, { s with outCb := true })

/-- Whether `pull` asks its input, where `flip` says whether the random number is below a half. -/
def asks (flip : Bool) (s : RDelivery) : Bool := s.inOn && (s.retryQ.isEmpty || flip)

/-- `RDelivery::pull`, where the input answers `input` if it is asked. -/
def pull (flip : Bool) (input : Option (List Value)) (s : RDelivery) :
    Option (List Value) × RDelivery :=
  if s.asks flip then
    match input with
    | some tp => (some tp, { s with inOn := true, log := s.log ++ [.sent tp] })
    | none => ({ s with inOn := false } : RDelivery).pullRetry
  else s.pullRetry

/-- The loop of `handle_failure`: `kept` is what the iterator has passed. A tuple with retries left
is counted and queued, any other one is given up; `none` where it is not at the front. -/
def failRounds (kept : List Sent) (cumSeq : Int64) (s : RDelivery) :
    List Sent → Option (List Sent × Int64 × RDelivery)
  | [] => some (kept, cumSeq, s)
  | ctp :: rest =>
    if ctp.retryCnt < s.maxRetry then
      failRounds (kept ++ [{ ctp with retryCnt := ctp.retryCnt + 1 }]) cumSeq
        ({ s with
          retryQ := s.retryQ ++ [ctp.tp], log := s.log ++ [.retried ctp.tp] } : RDelivery).callOut
        rest
    else if kept = [] then
      failRounds [] (if cumSeq < ctp.seq then ctp.seq else cumSeq) s rest
    else none

def handle_failure (cp : ℕ) (s : RDelivery) : Option RDelivery := do
  let c ← s.index.objects[cp]?
  let (outstanding, cumSeq, s) ← failRounds [] c.cumSeq s c.outstanding
  let c := { c with outstanding := outstanding, cumSeq := cumSeq, tcb := none }
  let index := s.index.set cp c
  return { s with index := if outstanding = [] then index else startTimer cp c index }

inductive Event where
  /-- The output pulls; the random choice, and what the input answers if it is asked. -/
  | pull (flip : Bool) (input : Option (List Value))
  | push (t : List Value)
  | timer (handle : ℕ)
  | input_cb

/-- One event. A timer that is not set does not go off. -/
def step (s : RDelivery) : Event → Option RDelivery
  | .pull flip input => some (s.pull flip input).2
  | .push t => s.push t
  | .timer handle =>
    match s.index.timers.find? (·.1 = handle) with
    | some timer =>
      handle_failure timer.2 { s with index := s.index.timeCBRemove (some handle) }
    | none => some s
  | .input_cb => some s.input_cb

def run (s : RDelivery) (events : List Event) : Option RDelivery := events.foldlM step s

/-! ## One destination -/

/-- The cumulative number of a connection, zero before there is one. -/
def cumSeqOf (state : Option Connection) : Int64 := (state.map (·.cumSeq)).getD 0

section OneDestination

variable {dest : Value} {state : Option Connection} {s : RDelivery} {t : List Value}

lemma sole_startTimer {index : Connections Connection ℕ} {cp : ℕ} {c : Connection}
    (h : index.At dest cp c) (c' : Connection) (p : Prop) [Decidable p] :
    ∃ tcb, (if p then startTimer cp c' (index.set cp c') else index.set cp c').Sole dest
      (some { c' with tcb := tcb }) := by
  by_cases hp : p
  · rw [if_pos hp]
    exact ⟨_, cp, ((h.set c').set _).delayCB cp⟩
  · rw [if_neg hp]
    exact ⟨c'.tcb, cp, h.set c'⟩

/-- The connection with one more tuple outstanding. -/
def Connection.hold (c : Connection) (seq : Int64) (t : List Value) : Connection :=
  { c with outstanding := c.outstanding ++ [{ seq := seq, tp := stamp c.cumSeq t }] }

lemma connect_at {index : Connections Connection ℕ} {cp : ℕ} {c : Connection}
    (h : index.At dest cp c) : connect dest index = (cp, index) := by
  unfold connect
  rw [h.alone.lookup]

lemma connect_alone {index : Connections Connection ℕ} (h : index.Alone dest none) :
    (connect dest index).2.At dest (connect dest index).1 { dest := dest } ∧
      (connect dest index).2.timers = index.timers := by
  have halloc : (index.alloc ({ dest := dest } : Connection)).Alone dest none := h
  unfold connect map
  rw [h.lookup, halloc.findEntry]
  exact ⟨⟨halloc.insertEntry, List.getElem?_concat_length⟩, rfl⟩

/-- **What `tuple` does**: the connection holds one more tuple, and has a timer. -/
lemma tuple_eq {c : Connection}
    (hat : (connect dest s.index).2.At dest (connect dest s.index).1 c)
    (hdest : t[DEST]? = some dest) {seq : Int64} (hseq : int64At SEQ t = some seq) {rtt : Value}
    (hrtt : t[RTT]? = some rtt) (hcasts : castsToDouble rtt) :
    s.tuple t = some (stamp c.cumSeq t, { s with
      index := if c.tcb = none then
          startTimer (connect dest s.index).1 (c.hold seq t)
            ((connect dest s.index).2.set (connect dest s.index).1 (c.hold seq t))
        else (connect dest s.index).2.set (connect dest s.index).1 (c.hold seq t) }) := by
  unfold tuple
  simp only [hdest, hseq, hrtt, hcasts, if_true, bind_eq_bind, bind_some, hat.object, Option.pure_def]
  rfl

lemma sole_tuple (h : s.index.Sole dest state) (hdest : t[DEST]? = some dest) {seq : Int64}
    (hseq : int64At SEQ t = some seq) {rtt : Value} (hrtt : t[RTT]? = some rtt)
    (hcasts : castsToDouble rtt) :
    ∃ s' state', s.tuple t = some (stamp (cumSeqOf state) t, s') ∧ s'.index.Sole dest state' ∧
      cumSeqOf state' = cumSeqOf state := by
  obtain ⟨c, hat, hcum⟩ : ∃ c, (connect dest s.index).2.At dest (connect dest s.index).1 c ∧
      c.cumSeq = cumSeqOf state := by
    cases state with
    | none => exact ⟨_, (connect_alone h).1, rfl⟩
    | some c =>
      obtain ⟨cp, hat⟩ := h
      rw [connect_at hat]
      exact ⟨c, hat, rfl⟩
  obtain ⟨tcb, hsole⟩ := sole_startTimer hat (c.hold seq t) (c.tcb = none)
  rw [← hcum]
  exact ⟨_, _, tuple_eq hat hdest hseq hrtt hcasts, hsole, rfl⟩

lemma sole_release (h : s.index.Sole dest state) (cseq : Int64) :
    ∃ state', (s.release dest cseq).index.Sole dest state' ∧
      (cumSeqOf state' = cumSeqOf state ∨ cumSeqOf state' = cseq) := by
  unfold release
  cases state with
  | none =>
    have halone : s.index.Alone dest none := h
    rw [halone.lookup]
    exact ⟨none, h, Or.inl rfl⟩
  | some c =>
    obtain ⟨cp, hat⟩ := h
    rw [hat.alone.lookup, bind_some, hat.object, map_some]
    by_cases hlt : c.cumSeq < cseq
    · simp only [hlt, if_true]
      obtain ⟨tcb, hsole⟩ := sole_startTimer (hat.timeCBRemove c.tcb)
        { c with
          tcb := none
          cumSeq := cseq
          outstanding := c.outstanding.dropWhile fun ctp => ctp.seq ≤ cseq }
        (¬ (c.outstanding.dropWhile fun ctp => ctp.seq ≤ cseq) = [])
      rw [ite_not] at hsole
      exact ⟨_, hsole, Or.inr rfl⟩
    · simp only [hlt, if_false]
      exact ⟨some c, ⟨cp, hat⟩, Or.inl rfl⟩

lemma sole_push (h : s.index.Sole dest state) (hdest : t[DEST + 2]? = some dest) {cseq : Int64}
    (hcseq : t[CUMSEQ + 2]? = some (.int64 cseq)) :
    ∃ s' state', s.push t = some s' ∧ s'.index.Sole dest state' ∧
      (cumSeqOf state' = cumSeqOf state ∨ cumSeqOf state' = cseq) := by
  have hack : ∀ s₁ : RDelivery, s₁.ack t = some (s₁.release dest cseq) := by
    intro s₁
    unfold ack
    simp [hdest, hcseq, castInt64]
  unfold push
  simp only [hack]
  have hlog : ({ s with log := s.log ++ [.acked t] } : RDelivery).index.Sole dest state := h
  generalize ({ s with log := s.log ++ [.acked t] } : RDelivery) = s₁ at hlog ⊢
  clear h
  generalize t.filter isMark = marks
  induction marks generalizing s₁ state with
  | nil => exact ⟨s₁, state, rfl, hlog, Or.inl rfl⟩
  | cons mark marks ih =>
    obtain ⟨state₁, hsole, hcum⟩ := sole_release hlog cseq
    obtain ⟨s₂, state₂, hfold, hsole₂, hcum₂⟩ := ih _ hsole
    refine ⟨s₂, state₂, hfold, hsole₂, ?_⟩
    rcases hcum₂ with hcum₂ | hcum₂
    · rw [hcum₂]
      exact hcum
    · exact Or.inr hcum₂

end OneDestination

/-! ## Retention -/

/-- A tuple for this destination with this number; destinations are compared as the index compares
them. -/
def isFor (dest : Value) (seq : Int64) (t : List Value) : Bool :=
  (t[DEST]?.any fun d => compareTo d dest == .eq) && int64At SEQ t == some seq

/-- An acknowledgement from this destination that covers the number. -/
def Covers (dest : Value) (seq : Int64) (t : List Value) : Prop :=
  t.any isMark ∧ (t[DEST + 2]?.any fun d => compareTo d dest == .eq) ∧
    ∃ cseq, int64At (CUMSEQ + 2) t = some cseq ∧ seq ≤ cseq

/-- A tuple with this number is outstanding for the destination. -/
def Outstanding (dest : Value) (seq : Int64) (s : RDelivery) : Prop :=
  ∃ cp c, s.index.lookup dest = some cp ∧ s.index.objects[cp]? = some c ∧
    ∃ ctp ∈ c.outstanding, ctp.seq = seq

/-- How often a tuple with this number was queued for the destination. -/
def retries (dest : Value) (seq : Int64) (log : List Entry) : ℕ :=
  log.countP fun
    | .retried t => isFor dest seq t
    | _ => false

/-- What was sent is outstanding, unless since then an acknowledgement covered it or it was queued as
often as a tuple may be. -/
def Retains (s : RDelivery) : Prop :=
  ∀ before t since, s.log = before ++ .sent t :: since →
    ∀ dest seq, t[DEST]? = some dest → int64At SEQ t = some seq →
      s.Outstanding dest seq ∨ (∃ a, .acked a ∈ since ∧ Covers dest seq a) ∨
        s.maxRetry.toNat ≤ retries dest seq since

def Addressed (t : List Value) : Prop :=
  ∃ dest seq, t[DEST]? = some dest ∧ int64At SEQ t = some seq

structure Bare (maxRetry : UInt32) (s : RDelivery) : Prop where
  maxRetry : s.maxRetry = maxRetry
  index : s.index = {}
  retryQ : s.retryQ = []

variable {maxRetry : UInt32} {s s' : RDelivery} {e : Event} {events : List Event} {t : List Value}

lemma Bare.lookup (h : s.Bare maxRetry) (dest : Value) : s.index.lookup dest = none := by
  rw [h.index]
  rfl

lemma Bare.ack (h : s.Bare maxRetry) (hack : s.ack t = some s') : s' = s := by
  unfold RDelivery.ack at hack
  simp only [bind_eq_bind, bind_eq_some_iff] at hack
  obtain ⟨dest, -, cumulative, -, hack⟩ := hack
  cases hcast : castInt64 cumulative with
  | none =>
    rw [hcast] at hack
    exact (some_inj.mp hack).symm
  | some cseq =>
    rw [hcast] at hack
    have hrelease : s.release dest cseq = s := by
      unfold release
      rw [h.lookup]
      rfl
    rw [← some_inj.mp hack, hrelease]

lemma Bare.push (h : s.Bare maxRetry) (hpush : s.push t = some s') :
    s' = { s with log := s.log ++ [.acked t] } := by
  unfold RDelivery.push at hpush
  have hbare : ({ s with log := s.log ++ [.acked t] } : RDelivery).Bare maxRetry :=
    ⟨h.maxRetry, h.index, h.retryQ⟩
  generalize t.filter isMark = marks at hpush
  induction marks with
  | nil => exact (some_inj.mp hpush).symm
  | cons mark marks ih =>
    rw [foldlM_cons, bind_eq_bind, bind_eq_some_iff] at hpush
    obtain ⟨s₂, hack, hrest⟩ := hpush
    rw [hbare.ack hack] at hrest
    exact ih hrest

/-- **What an event does** where nothing is kept: a tuple goes through, or none is sent; nothing is
kept afterwards either. -/
lemma Bare.step (h : s.Bare maxRetry) (hstep : s.step e = some s') :
    s'.Bare maxRetry ∧
      ((∃ flip t, e = .pull flip (some t) ∧ s.asks flip ∧ s'.log = s.log ++ [.sent t]) ∨
        ∀ t, .sent t ∈ s'.log → .sent t ∈ s.log) := by
  cases e with
  | pull flip input =>
    rw [← some_inj.mp hstep]
    unfold RDelivery.pull
    have hretry : ∀ s₁ : RDelivery, s₁.Bare maxRetry → s₁.log = s.log →
        s₁.pullRetry.2.Bare maxRetry ∧ s₁.pullRetry.2.log = s.log := by
      intro s₁ h₁ hlog
      unfold pullRetry
      rw [h₁.retryQ]
      exact ⟨⟨h₁.maxRetry, h₁.index, rfl⟩, hlog⟩
    by_cases hasks : s.asks flip
    · rw [if_pos hasks]
      cases input with
      | none =>
        obtain ⟨hbare, hlog⟩ := hretry { s with inOn := false }
          ⟨h.maxRetry, h.index, h.retryQ⟩ rfl
        exact ⟨hbare, Or.inr fun t ht => hlog ▸ ht⟩
      | some t =>
        exact ⟨⟨h.maxRetry, h.index, h.retryQ⟩, Or.inl ⟨flip, t, rfl, hasks, rfl⟩⟩
    · rw [if_neg hasks]
      obtain ⟨hbare, hlog⟩ := hretry s h rfl
      exact ⟨hbare, Or.inr fun t ht => hlog ▸ ht⟩
  | push a =>
    rw [h.push hstep]
    refine ⟨⟨h.maxRetry, h.index, h.retryQ⟩, Or.inr fun t ht => ?_⟩
    rcases mem_append.mp ht with ht | ht
    · exact ht
    · exact absurd (mem_singleton.mp ht) (by simp)
  | timer handle =>
    unfold RDelivery.step at hstep
    rw [h.index] at hstep
    rw [← some_inj.mp hstep]
    exact ⟨h, Or.inr fun t ht => ht⟩
  | input_cb =>
    rw [← some_inj.mp hstep]
    exact ⟨⟨h.maxRetry, h.index, h.retryQ⟩, Or.inr fun t ht => ht⟩

lemma run_concat (s : RDelivery) (events : List Event) (e : Event) :
    s.run (events ++ [e]) = (s.run events).bind (·.step e) := by
  unfold run
  rw [foldlM_append]
  simp

lemma bare_run (hrun : ({ maxRetry := maxRetry } : RDelivery).run events = some s) :
    s.Bare maxRetry ∧ ∀ t, .sent t ∈ s.log →
      ∃ before flip after s₁, events = before ++ .pull flip (some t) :: after ∧
        ({ maxRetry := maxRetry } : RDelivery).run before = some s₁ ∧ s₁.asks flip := by
  induction events using reverseRecOn generalizing s with
  | nil =>
    rw [← some_inj.mp hrun]
    exact ⟨⟨rfl, rfl, rfl⟩, fun t ht => absurd ht not_mem_nil⟩
  | append_singleton events e ih =>
    rw [run_concat, bind_eq_some_iff] at hrun
    obtain ⟨s₁, hs₁, hstep⟩ := hrun
    obtain ⟨hbare, hsent⟩ := ih hs₁
    obtain ⟨hbare', hcases⟩ := hbare.step hstep
    refine ⟨hbare', fun t ht => ?_⟩
    have hold : .sent t ∈ s₁.log →
        ∃ before flip after s₂, events ++ [e] = before ++ .pull flip (some t) :: after ∧
          ({ maxRetry := maxRetry } : RDelivery).run before = some s₂ ∧ s₂.asks flip := by
      intro hmem
      obtain ⟨before, flip, after, s₂, rfl, hs₂, hasks⟩ := hsent t hmem
      exact ⟨before, flip, after ++ [e], s₂, by simp, hs₂, hasks⟩
    rcases hcases with ⟨flip, u, rfl, hasks, hlog⟩ | hsame
    · rw [hlog, mem_append, mem_singleton, Entry.sent.injEq] at ht
      rcases ht with ht | rfl
      · exact hold ht
      · exact ⟨events, flip, [], s₁, rfl, hs₁, hasks⟩
    · exact hold (hsame t ht)

/-- **Reliable delivery keeps nothing it sends.** Along a run, everything sent is outstanding until
it may go exactly when no tuple is to be queued again at all, or no tuple with a destination and a
number is ever taken from the input. -/
theorem retains_iff (maxRetry : UInt32) (events : List Event) :
    (∀ before after, events = before ++ after →
      ∀ s, ({ maxRetry := maxRetry } : RDelivery).run before = some s → s.Retains) ↔
    maxRetry = 0 ∨
      ∀ before flip t after, events = before ++ .pull flip (some t) :: after →
        ∀ s, ({ maxRetry := maxRetry } : RDelivery).run before = some s → s.asks flip →
          ¬ Addressed t := by
  constructor
  · intro h
    by_contra hcon
    rw [not_or] at hcon
    obtain ⟨hmax, hcon⟩ := hcon
    push Not at hcon
    obtain ⟨before, flip, t, after, heq, s, hs, hasks, dest, seq, hdest, hseq⟩ := hcon
    -- right after the pull nothing releases the tuple
    have hstep : s.step (.pull flip (some t)) =
        some { s with inOn := true, log := s.log ++ [.sent t] } := by
      show some (s.pull flip (some t)).2 = _
      unfold pull
      rw [if_pos hasks]
    have hrun := run_concat { maxRetry := maxRetry } before (.pull flip (some t))
    rw [hs, Option.bind_some, hstep] at hrun
    have hretains := h (before ++ [.pull flip (some t)]) after (by simp [heq]) _ hrun
    obtain ⟨hbare, -⟩ := bare_run hrun
    rcases hretains s.log t [] rfl dest seq hdest hseq with ⟨cp, c, hlookup, -⟩ | ⟨a, ha, -⟩ | hle
    · rw [hbare.lookup] at hlookup
      exact absurd hlookup (some_ne_none _).symm
    · exact absurd ha not_mem_nil
    · rw [hbare.maxRetry] at hle
      exact hmax (UInt32.toNat_inj.mp (Nat.le_zero.mp hle))
  · rintro hcond before after rfl s hs u t since hlog dest seq hdest hseq
    obtain ⟨hbare, hsent⟩ := bare_run hs
    rcases hcond with rfl | hcond
    · right
      right
      rw [hbare.maxRetry]
      exact Nat.zero_le _
    · obtain ⟨pre, flip, post, s₁, rfl, hs₁, hasks⟩ := hsent t (by rw [hlog]; simp)
      exact absurd ⟨dest, seq, hdest, hseq⟩
        (hcond pre flip t (post ++ after) (by simp) s₁ hs₁ hasks)

/-- With three retries, the first tuple pulled is not kept. -/
theorem pulled_tuple_not_retained :
    ∃ s, ({ maxRetry := 3 } : RDelivery).run [.pull true (some
        [.str [98], .str [97], .null, .null, .null, .null, .int64 0, .int64 1])] = some s ∧
      ¬ s.Retains := by
  refine ⟨_, rfl, fun h => ?_⟩
  rcases h [] _ [] rfl (.str [98]) 1 rfl rfl with ⟨cp, c, hlookup, -⟩ | ⟨a, ha, -⟩ | hle
  · exact absurd hlookup (some_ne_none _).symm
  · exact absurd ha not_mem_nil
  · exact absurd hle (by decide)

end RDelivery

end P2.Net
