import P2.Net.Connections
import P2.Net.ODelivery

/-!
# Cumulative acknowledgements

`CumulativeAck` writes into each acknowledgement the number up to which it has seen the tuples of a
source.
-/

namespace P2.Net

open P2.Value P2.Lib Option Int64

namespace CumulativeAck

/-! ## The element -/

structure Connection where
  tcb : Option ℕ := none
  cumSeq : Int64 := 0
  queue : List Int64 := []

namespace Connection

/-- The loop that looks for the place of a number; `none` where it is there already. -/
def place (seq : Int64) (queue : List Int64) : Option (List Int64) := Numbered.place id seq queue

/-- The loop that moves `_cum_seq` over the numbers at the front of the queue. -/
def advance : List Int64 → Int64 → Int64
  | [], cumSeq => cumSeq
  | q :: queue, cumSeq =>
    if cumSeq + 1 = q then advance queue (cumSeq + 1)
    else if cumSeq < q then cumSeq
    else advance queue cumSeq

def settle (c : Connection) : Connection :=
  let cumSeq := advance c.queue c.cumSeq
  { c with cumSeq := cumSeq, queue := c.queue.filter fun q => ¬ q ≤ cumSeq }

def confirm (seq : Int64) (c : Connection) : Connection :=
  if seq < c.cumSeq then c.settle
  else if c.cumSeq + 1 = seq then ({ c with cumSeq := c.cumSeq + 1 } : Connection).settle
  else
    match place seq c.queue with
    | some queue => ({ c with queue := queue } : Connection).settle
    | none => c

/-- The cumulative number of the sender comes in: zero starts at the number of the tuple, a higher
one is taken over. -/
def hear (seq cseq : Int64) (c : Connection) : Connection :=
  if cseq = 0 then { c with cumSeq := seq }
  else if c.cumSeq < cseq then { c with cumSeq := cseq }
  else c

end Connection

end CumulativeAck

structure CumulativeAck where
  connections : Connections CumulativeAck.Connection Value := {}

namespace CumulativeAck

/-- `CumulativeAck::simple_action`: the acknowledgement, with the cumulative number in it; `none`
where a field is missing. -/
def simple_action (t : List Value) (s : CumulativeAck) : Option (List Value × CumulativeAck) := do
  let src ← t[SRC + 2]?
  let seq ← int64At (SEQ + 2) t
  let cseq ← int64At (CUMSEQ + 2) t
  let (cp, connections) := s.connections.connect (·.tcb) {} src cseq
  let c ← connections.objects[cp]?
  let c' := (c.hear seq cseq).confirm seq
  let cack := t.set (CUMSEQ + 2) (.int64 c'.cumSeq)
  let connections := connections.timeCBRemove c'.tcb
  let c' := { c' with tcb := some connections.nextHandle }
  return (cack, { connections := (connections.delayCB src).set cp c' })

/-! ## What an acknowledgement says -/

def Sound (received : List Int64) (cumSeq : Int64) : Prop :=
  ∀ n : Int64, 1 ≤ n → n ≤ cumSeq → n ∈ received

structure Confirms (received : List Int64) (c : Connection) : Prop where
  sound : Sound received c.cumSeq
  queue : ∀ q ∈ c.queue, q ∈ received

variable {received : List Int64} {c : Connection} {seq cseq : Int64}

lemma Sound.mono {received' : List Int64} (h : Sound received seq)
    (hsub : ∀ n ∈ received, n ∈ received') : Sound received' seq :=
  fun n hn hle => hsub n (h n hn hle)

lemma Sound.succ (h : Sound received seq) (hmem : seq + 1 ∈ received) : Sound received (seq + 1) := by
  intro n hn hle
  by_cases heq : n = seq + 1
  · rw [heq]
    exact hmem
  · refine h n hn ?_
    by_cases hmax : seq = maxValue
    · rw [hmax]
      exact le_maxValue n
    · rw [le_iff_toInt_le] at hle ⊢
      rw [Numbered.toInt_add_one hmax] at hle
      have hne : n.toInt ≠ seq.toInt + 1 := by
        rw [← Numbered.toInt_add_one hmax]
        exact fun hint => heq (toInt_inj.mp hint)
      omega

lemma Sound.advance {queue : List Int64} (h : Sound received seq)
    (hqueue : ∀ q ∈ queue, q ∈ received) : Sound received (Connection.advance queue seq) := by
  induction queue generalizing seq with
  | nil => exact h
  | cons q queue ih =>
    rw [List.forall_mem_cons] at hqueue
    unfold Connection.advance
    split_ifs with hnext hgap
    · exact ih (h.succ (hnext ▸ hqueue.1)) hqueue.2
    · exact h
    · exact ih h hqueue.2

lemma Confirms.settle (h : Confirms received c) : Confirms received c.settle where
  sound := h.sound.advance h.queue
  queue q hq := h.queue q (List.mem_of_mem_filter hq)

lemma Confirms.confirm (h : Confirms received c) (hseq : seq ∈ received) :
    Confirms received (c.confirm seq) := by
  unfold Connection.confirm
  split_ifs with hlt hnext
  · exact h.settle
  · exact Confirms.settle ⟨h.sound.succ (hnext ▸ hseq), h.queue⟩
  · cases hplace : Connection.place seq c.queue with
    | none => exact h
    | some queue =>
      refine Confirms.settle ⟨h.sound, fun q hq => ?_⟩
      rcases (Numbered.mem_place hplace q).mp hq with rfl | hq
      · exact hseq
      · exact h.queue q hq

lemma cumSeq_confirm_hear_zero :
    ((({} : Connection).hear seq 0).confirm seq).cumSeq = seq := by
  have hne : seq + 1 ≠ seq := by
    intro heq
    have hbv := congrArg toBitVec heq
    exact absurd hbv (by simp)
  unfold Connection.hear
  rw [if_pos rfl]
  unfold Connection.confirm
  rw [if_neg (Int64.lt_irrefl), if_neg hne]
  show Connection.advance [seq] seq = seq
  unfold Connection.advance
  rw [if_neg hne, if_neg (Int64.lt_irrefl)]
  rfl

/-- **One acknowledgement** of an element that has met one source only: its cumulative number is that
of the connection afterwards. -/
lemma at_simple_action {src : Value} {state : Option Connection} {s : CumulativeAck} {t : List Value}
    (h : s.connections.Sole src state) (hsrc : t[SRC + 2]? = some src)
    (hseq : int64At (SEQ + 2) t = some seq) (hcseq : int64At (CUMSEQ + 2) t = some cseq) :
    ∃ c s', c = ((if cseq = 0 then {} else state.getD {}).hear seq cseq).confirm seq ∧
      s.simple_action t = some (t.set (CUMSEQ + 2) (.int64 c.cumSeq), s') ∧
      ∃ tcb, s'.connections.Sole src (some { c with tcb := tcb }) := by
  have hat := h.connect (·.tcb) {} cseq
  unfold simple_action
  simp only [hsrc, hseq, hcseq, hat.object, bind_eq_bind, bind_some, pure_def]
  exact ⟨_, _, rfl, rfl, _, _, ((hat.timeCBRemove _).delayCB src).set _⟩

end CumulativeAck

end P2.Net
