import P2.Lib.Runs
import P2.Net.CumulativeAck
import P2.Net.DupRemove
import P2.Net.RDelivery

/-!
# Acknowledged transport

A sender that numbers and stamps its tuples, a receiver that acknowledges them cumulatively, and a
network between them that loses, reorders and duplicates tuples and acknowledgements: whatever was
sent may be delivered at any time, any number of times or never. `acks_sound_iff` says when what is
acknowledged has come.
-/

namespace P2.Net

open P2.Value P2.Lib CumulativeAck List Option

def STACK_SIZE : ℕ := 8

/-- The acknowledgement made from a tuple: its source, a mark, and its header; `none` where the
header is not complete. -/
def basicAck (t : List Value) : Option (List Value) := do
  let src ← t[SRC]?
  if STACK_SIZE ≤ t.length then return src :: .str RDelivery.ACK :: t.take STACK_SIZE
  else none

/-- Two parties, what was sent each way, and the numbers that arrived. Connections do not time out,
and the sender does not give up. -/
structure Transport where
  sender : RDelivery
  next : Int64 := 1
  wire : List (List Value) := []
  receiver : CumulativeAck := {}
  acks : List (List Value) := []
  received : List Int64 := []

namespace Transport

inductive Event where
  | send (t : List Value)
  | deliver (i : ℕ)
  | acknowledge (i : ℕ)

def step (s : Transport) : Event → Option Transport
  | .send t => do
    let (rtp, sender) ← s.sender.tuple (t.set SEQ (.int64 s.next))
    return { s with sender := sender, next := s.next + 1, wire := s.wire ++ [rtp] }
  | .deliver i =>
    match s.wire[i]? with
    | some t => do
      let ack ← basicAck t
      let (cack, receiver) ← s.receiver.simple_action ack
      return { s with
        receiver := receiver, acks := s.acks ++ [cack], received := s.received ++ [seqOf t] }
    | none => some s
  | .acknowledge i =>
    match s.acks[i]? with
    | some a => do return { s with sender := ← s.sender.push a }
    | none => some s

def run (s : Transport) (events : List Event) : Option Transport := events.foldlM step s

/-- Every number up to the cumulative number of an acknowledgement was received. -/
def AcksSound (s : Transport) : Prop :=
  ∀ a ∈ s.acks, ∀ c, int64At (CUMSEQ + 2) a = some c → Sound s.received c

/-- A tuple that is stamped zero arrives after all tuples with lower numbers. -/
def Event.Due (s : Transport) : Event → Prop
  | .deliver i => ∀ t, s.wire[i]? = some t → cumSeqOf t = 0 →
      ∀ n : Int64, 1 ≤ n → n < seqOf t → n ∈ s.received
  | _ => True

/-- Tuples to send are from the one party to the other, with a complete header. -/
def Event.Between (src dest : Value) : Event → Prop
  | .send t => STACK_SIZE ≤ t.length ∧ t[DEST]? = some dest ∧ t[SRC]? = some src ∧
      ∃ rtt, t[RTT]? = some rtt ∧ castsToDouble rtt
  | _ => True

/-! ## The invariant -/

structure Stamped (src dest : Value) (t : List Value) : Prop where
  length : STACK_SIZE ≤ t.length
  dest : t[DEST]? = some dest
  src : t[SRC]? = some src
  seq : int64At SEQ t = some (seqOf t)
  cseq : int64At CUMSEQ t = some (cumSeqOf t)

structure Ok (src dest : Value) (s : Transport) : Prop where
  sender : ∃ state, s.sender.index.Sole dest state ∧
    Sound s.received (RDelivery.cumSeqOf state)
  wire : ∀ t ∈ s.wire, Stamped src dest t ∧ Sound s.received (cumSeqOf t)
  receiver : ∃ state, s.receiver.connections.Sole src state ∧
    ∀ c ∈ state, Confirms s.received c
  acks : ∀ a ∈ s.acks, a[DEST + 2]? = some dest ∧
    ∃ c, a[CUMSEQ + 2]? = some (.int64 c) ∧ Sound s.received c

variable {src dest : Value} {s : Transport} {e : Event} {t : List Value} {events : List Event}

lemma Ok.acksSound (h : s.Ok src dest) : s.AcksSound := by
  intro a ha c hc
  obtain ⟨-, c', hc', hsound⟩ := h.acks a ha
  unfold int64At at hc
  rw [hc'] at hc
  rw [← some_inj.mp hc]
  exact hsound

lemma Stamped.basicAck (h : Stamped src dest t) :
    ∃ a, basicAck t = some a ∧ ∀ i < STACK_SIZE, a[i + 2]? = t[i]? := by
  refine ⟨src :: .str RDelivery.ACK :: t.take STACK_SIZE, ?_, fun i hi => ?_⟩
  · unfold Net.basicAck
    simp [h.src, if_pos h.length]
  · rw [List.getElem?_cons_succ, List.getElem?_cons_succ, List.getElem?_take_of_lt hi]

lemma Ok.send (h : s.Ok src dest) (hbetween : (Event.send t).Between src dest) :
    ∃ s', s.step (.send t) = some s' ∧ s'.Ok src dest := by
  obtain ⟨hlen, hdest, hsrc, rtt, hrtt, hcasts⟩ := hbetween
  obtain ⟨state, hsole, hsound⟩ := h.sender
  have hlen' : SEQ < t.length := Nat.lt_of_lt_of_le (by decide) hlen
  have hfield : ∀ i, i ≠ SEQ → (t.set SEQ (.int64 s.next))[i]? = t[i]? :=
    fun i hi => List.getElem?_set_ne hi.symm
  have hseq : int64At SEQ (t.set SEQ (.int64 s.next)) = some s.next := by
    unfold int64At
    rw [List.getElem?_set_self hlen']
    rfl
  obtain ⟨sender, state', htuple, hsole', hcum⟩ := RDelivery.sole_tuple hsole
    ((hfield DEST (by decide)).trans hdest) hseq ((hfield RTT (by decide)).trans hrtt) hcasts
  refine ⟨{ s with
    sender := sender
    next := s.next + 1
    wire := s.wire ++ [RDelivery.stamp (RDelivery.cumSeqOf state) (t.set SEQ (.int64 s.next))] },
    ?_, ⟨state', hsole', ?_⟩, ?_, h.receiver, h.acks⟩
  · unfold step
    simp [htuple]
  · rw [hcum]
    exact hsound
  · -- the new tuple carries the number that the sender holds
    have hother : ∀ i, i ≠ CUMSEQ → (RDelivery.stamp (RDelivery.cumSeqOf state)
        (t.set SEQ (.int64 s.next)))[i]? = (t.set SEQ (.int64 s.next))[i]? :=
      fun i hi => List.getElem?_set_ne hi.symm
    have hcseq : int64At CUMSEQ (RDelivery.stamp (RDelivery.cumSeqOf state)
        (t.set SEQ (.int64 s.next))) = some (RDelivery.cumSeqOf state) := by
      unfold int64At RDelivery.stamp
      rw [List.getElem?_set_self (by rw [length_set]; exact Nat.lt_of_lt_of_le (by decide) hlen)]
      rfl
    have hseq' : int64At SEQ (RDelivery.stamp (RDelivery.cumSeqOf state)
        (t.set SEQ (.int64 s.next))) = some s.next := by
      unfold int64At at hseq ⊢
      rw [hother SEQ (by decide), hseq]
    intro u hu
    rcases mem_append.mp hu with hu | hu
    · exact h.wire u hu
    · rw [mem_singleton.mp hu]
      refine ⟨⟨?_, ?_, ?_, ?_, ?_⟩, ?_⟩
      · unfold RDelivery.stamp
        rw [length_set, length_set]
        exact hlen
      · rw [hother DEST (by decide), hfield DEST (by decide), hdest]
      · rw [hother SRC (by decide), hfield SRC (by decide), hsrc]
      · rw [seqOf, hseq']
        rfl
      · rw [hcseq, cumSeqOf, hcseq]
        rfl
      · rw [cumSeqOf, hcseq]
        exact hsound

lemma Ok.acknowledge (h : s.Ok src dest) (i : ℕ) :
    ∃ s', s.step (.acknowledge i) = some s' ∧ s'.Ok src dest := by
  cases hi : s.acks[i]? with
  | none =>
    refine ⟨s, ?_, h⟩
    simp [step, hi]
  | some a =>
    obtain ⟨hdest, c, hc, hsound⟩ := h.acks a (mem_of_getElem? hi)
    obtain ⟨state, hsole, hcum⟩ := h.sender
    obtain ⟨sender, state', hpush, hsole', hcum'⟩ := RDelivery.sole_push hsole hdest hc
    refine ⟨{ s with sender := sender }, ?_, ⟨state', hsole', ?_⟩, h.wire, h.receiver, h.acks⟩
    · unfold step
      simp [hi, hpush]
    · rcases hcum' with hcum' | hcum'
      · rw [hcum']
        exact hcum
      · rw [hcum']
        exact hsound

lemma Ok.confirms_hear (h : s.Ok src dest) {i : ℕ} (hi : s.wire[i]? = some t)
    (hdue : (Event.deliver i).Due s) {state : Option Connection}
    (hstate : ∀ c ∈ state, Confirms s.received c) :
    Confirms (s.received ++ [seqOf t])
      ((if cumSeqOf t = 0 then {} else state.getD {}).hear (seqOf t) (cumSeqOf t)) := by
  have hsub : ∀ n ∈ s.received, n ∈ s.received ++ [seqOf t] := fun n hn => mem_append_left _ hn
  obtain ⟨-, hstamp⟩ := h.wire t (mem_of_getElem? hi)
  unfold Connection.hear
  by_cases hzero : cumSeqOf t = 0
  · rw [if_pos hzero, if_pos hzero]
    refine ⟨fun n hn hle => ?_, forall_mem_nil _⟩
    by_cases heq : n = seqOf t
    · rw [heq]
      exact mem_append_right _ (mem_singleton_self _)
    · exact hsub n (hdue t hi hzero n hn (Int64.lt_of_le_of_ne hle heq))
  · have hold : Confirms s.received (state.getD {}) := by
      cases state with
      | none =>
        refine ⟨fun n hn hle => ?_, forall_mem_nil _⟩
        exact absurd (Int64.le_trans hn hle) (by decide)
      | some c => exact hstate c rfl
    split_ifs with hlt
    · exact ⟨hstamp.mono hsub, fun q hq => hsub q (hold.queue q hq)⟩
    · exact ⟨hold.sound.mono hsub, fun q hq => hsub q (hold.queue q hq)⟩

lemma Ok.deliver (h : s.Ok src dest) (i : ℕ) :
    ∃ s', s.step (.deliver i) = some s' ∧ ((Event.deliver i).Due s → s'.Ok src dest) ∧
      (s'.AcksSound → (Event.deliver i).Due s) := by
  cases hi : s.wire[i]? with
  | none =>
    refine ⟨s, by simp only [step, hi], fun _ => h, fun _ t ht => ?_⟩
    rw [hi] at ht
    cases ht
  | some t =>
    obtain ⟨hstamped, -⟩ := h.wire t (mem_of_getElem? hi)
    obtain ⟨state, hsole, hstate⟩ := h.receiver
    obtain ⟨a, hack, hfields⟩ := hstamped.basicAck
    have hcast : ∀ j < STACK_SIZE, int64At (j + 2) a = int64At j t := by
      intro j hj
      unfold int64At
      rw [hfields j hj]
    obtain ⟨c, receiver, hc, haction, tcb, hsole'⟩ := at_simple_action hsole
      ((hfields SRC (by decide)).trans hstamped.src)
      ((hcast SEQ (by decide)).trans hstamped.seq)
      ((hcast CUMSEQ (by decide)).trans hstamped.cseq)
    have hlen : CUMSEQ + 2 < a.length := by
      by_contra hge
      have hnone := hfields CUMSEQ (by decide)
      rw [List.getElem?_eq_none (Nat.le_of_not_lt hge)] at hnone
      have hcseq := hstamped.cseq
      unfold int64At at hcseq
      rw [← hnone] at hcseq
      cases hcseq
    have hnumber : (a.set (CUMSEQ + 2) (.int64 c.cumSeq))[CUMSEQ + 2]? = some (.int64 c.cumSeq) :=
      List.getElem?_set_self hlen
    refine ⟨{ s with
      receiver := receiver
      acks := s.acks ++ [a.set (CUMSEQ + 2) (.int64 c.cumSeq)]
      received := s.received ++ [seqOf t] }, ?_, fun hdue => ?_, fun hsound => ?_⟩
    · simp [step, hi, hack, haction]
    · have hsub : ∀ n ∈ s.received, n ∈ s.received ++ [seqOf t] := fun n hn => mem_append_left _ hn
      have hconfirms : Confirms (s.received ++ [seqOf t]) c := by
        rw [hc]
        exact (h.confirms_hear hi hdue hstate).confirm
          (mem_append_right _ (mem_singleton_self _))
      obtain ⟨state', hsender, hcum⟩ := h.sender
      refine ⟨⟨state', hsender, hcum.mono hsub⟩, ?_, ⟨_, hsole', ?_⟩, ?_⟩
      · exact fun u hu => ⟨(h.wire u hu).1, (h.wire u hu).2.mono hsub⟩
      · intro c' hc'
        rw [← some_inj.mp hc']
        exact ⟨hconfirms.sound, hconfirms.queue⟩
      · intro b hb
        rcases mem_append.mp hb with hb | hb
        · obtain ⟨hdest, c', hc', hsound⟩ := h.acks b hb
          exact ⟨hdest, c', hc', hsound.mono hsub⟩
        · rw [mem_singleton.mp hb]
          refine ⟨?_, c.cumSeq, hnumber, hconfirms.sound⟩
          rw [List.getElem?_set_ne (by decide), hfields DEST (by decide), hstamped.dest]
    · intro u hu hzero n hn hlt
      rw [hi, some_inj] at hu
      subst hu
      -- the acknowledgement of a tuple that starts a connection names its number
      have hcum : c.cumSeq = seqOf t := by
        rw [hc, hzero]
        exact cumSeq_confirm_hear_zero
      have hmem := hsound _ (mem_append_right _ (mem_singleton_self _)) c.cumSeq
        (by unfold int64At; rw [hnumber]; rfl) n hn (by rw [hcum]; exact Int64.le_of_lt hlt)
      rcases mem_append.mp hmem with hmem | hmem
      · exact hmem
      · rw [mem_singleton.mp hmem] at hlt
        exact absurd hlt Int64.lt_irrefl

lemma Ok.step (h : s.Ok src dest) (hbetween : e.Between src dest) :
    ∃ s', s.step e = some s' ∧ (e.Due s → s'.Ok src dest) ∧ (s'.AcksSound → e.Due s) := by
  cases e with
  | send t =>
    obtain ⟨s', hstep, hok⟩ := h.send hbetween
    exact ⟨s', hstep, fun _ => hok, fun _ => trivial⟩
  | deliver i => exact h.deliver i
  | acknowledge i =>
    obtain ⟨s', hstep, hok⟩ := h.acknowledge i
    exact ⟨s', hstep, fun _ => hok, fun _ => trivial⟩

/-! ## Runs -/

/-- Each event is due where it happens. -/
def DueRun (s : Transport) (events : List Event) : Prop :=
  Permitted step (fun s e => e.Due s) s events

def SoundRun (s : Transport) (events : List Event) : Prop :=
  ∀ before after, events = before ++ after → ∃ s', s.run before = some s' ∧ s'.AcksSound

lemma Ok.run (h : s.Ok src dest) (hbetween : ∀ e ∈ events, e.Between src dest)
    (hdue : s.DueRun events) : ∃ s', s.run events = some s' ∧ s'.Ok src dest := by
  refine (Permitted.and_mem hdue hbetween).run (fun s e hok he => ?_) h
  obtain ⟨s', hs', hnext, -⟩ := hok.step he.2
  exact ⟨s', hs', hnext he.1⟩

lemma Ok.dueRun (h : s.Ok src dest) (hbetween : ∀ e ∈ events, e.Between src dest)
    (hsound : s.SoundRun events) : s.DueRun events := by
  induction events generalizing s with
  | nil => trivial
  | cons e events ih =>
    obtain ⟨he, hbetween⟩ := forall_mem_cons.mp hbetween
    obtain ⟨s₁, hs₁, hnext, hback⟩ := h.step he
    have hrun (before : List Event) : s.run (e :: before) = s₁.run before := by
      unfold Transport.run
      rw [foldlM_cons, hs₁]
      rfl
    obtain ⟨s₂, hs₂, hacks⟩ := hsound [e] events rfl
    obtain rfl := some.inj (hs₂.symm.trans (hrun []))
    have hdue := hback hacks
    refine permitted_cons hdue hs₁ (ih (hnext hdue) hbetween fun before after heq => ?_)
    rw [← hrun]
    exact hsound (e :: before) after (congrArg (e :: ·) heq)

/-- **Cumulative acknowledgements.** Along a run between two parties, all events return and every
number up to that of each acknowledgement was received, exactly when each tuple that was stamped
zero arrives after all tuples with lower numbers.
Hyps: the tuples sent are from the one party to the other and have a complete header -/
theorem acks_sound_iff (src dest : Value) (maxRetry : UInt32) (events : List Event)
    (h : ∀ e ∈ events, e.Between src dest) :
    ({ sender := { maxRetry := maxRetry } } : Transport).SoundRun events ↔
      ({ sender := { maxRetry := maxRetry } } : Transport).DueRun events := by
  have hstart : ({ sender := { maxRetry := maxRetry } } : Transport).Ok src dest := by
    refine ⟨⟨none, rfl, ?_⟩, ?_, ⟨none, rfl, ?_⟩, ?_⟩
    · exact fun n hn hle => absurd (Int64.le_trans hn hle) (by decide)
    · exact forall_mem_nil _
    · exact fun c hc => absurd hc (some_ne_none _).symm
    · exact forall_mem_nil _
  refine ⟨hstart.dueRun h, fun hdue before after heq => ?_⟩
  obtain ⟨s, hrun, hok⟩ := hstart.run
    (fun e (he : e ∈ before) => h e (heq ▸ mem_append_left _ he)) (heq ▸ hdue).of_append
  exact ⟨s, hrun, hok.acksSound⟩

def sampleTuple : List Value :=
  [.str [98], .str [97], .int64 1, .null, .null, .null, .int64 0, .int64 0]

def overtaking : List Event := [.send sampleTuple, .send sampleTuple, .deliver 1]

lemma between_sampleTuple : (Event.send sampleTuple).Between (.str [97]) (.str [98]) :=
  ⟨by decide, rfl, rfl, _, rfl, rfl⟩

theorem acks_sound_iff_overtaking :
    (∀ e ∈ overtaking, e.Between (.str [97]) (.str [98])) ∧
      ¬ ({ sender := { maxRetry := 3 } } : Transport).SoundRun overtaking := by
  have h : ∀ e ∈ overtaking, e.Between (.str [97]) (.str [98]) := by
    simp only [overtaking, forall_mem_cons, not_mem_nil, false_imp_iff, implies_true,
      and_true]
    exact ⟨between_sampleTuple, between_sampleTuple, trivial⟩
  refine ⟨h, (acks_sound_iff (.str [97]) (.str [98]) 3 overtaking h).not.mpr fun hdue => ?_⟩
  have hlast := ((hdue.2 _ rfl).2 _ rfl).1 _ rfl rfl 1 (by decide) (by decide)
  exact absurd hlast not_mem_nil

/-- In the run above number 2 is acknowledged cumulatively, and number 1 never arrived. -/
theorem overtaken_tuple_acknowledged :
    ∃ s a, ({ sender := { maxRetry := 3 } } : Transport).run overtaking = some s ∧ s.acks = [a] ∧
      int64At (CUMSEQ + 2) a = some 2 ∧ s.received = [2] ∧ ¬ s.AcksSound := by
  refine ⟨_, _, rfl, rfl, rfl, rfl, fun h => ?_⟩
  have hmem := h _ (mem_singleton_self _) 2 rfl 1 (by decide) (by decide)
  exact absurd (mem_singleton.mp hmem) (by decide)

end Transport

end P2.Net
