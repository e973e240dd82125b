import Mathlib.Data.List.Pairwise
import P2.Lib.Numbered
import P2.Net.Connections
import P2.Net.Frag

/-!
# In-order delivery

`ODelivery` holds back the tuples of each source until the numbers before them have been passed on,
or a timer gives up waiting for them: `odelivery_in_order`.
-/

namespace P2.Net

open P2.Value P2.Lib List Option Int64

/-- `Val_Int64::cast((*t)[SEQ])` of a tuple in a queue, which was cast when it arrived. -/
def seqOf (t : List Value) : Int64 := (int64At SEQ t).getD 0

def srcOf (t : List Value) : Value := t[SRC]?.getD .null

namespace ODelivery

structure Connection where
  nextSeq : Int64
  queue : List (List Value) := []
  /-- `tcb_`, the handle of the timer that waits for the next number. -/
  tcb : Option ℕ := none
  lastTouched : ℤ

namespace Connection

/-- The loop that looks for the place of a tuple; `none` where the number is there already. -/
def place (t : List Value) (queue : List (List Value)) : Option (List (List Value)) :=
  Numbered.place seqOf t queue

/-- The loop that moves `next_seq_` over the numbers it meets at the front of the queue. -/
def advance : List (List Value) → Int64 → Int64
  | [], next => next
  | q :: queue, next => if seqOf q = next then advance queue (next + 1) else next

def insert (t : List Value) (c : Connection) : Connection :=
  if c.queue = [] ∧ c.nextSeq ≤ seqOf t then
    { c with queue := [t], nextSeq := advance [t] c.nextSeq }
  else
    match place t c.queue with
    | none => c
    | some queue => { c with queue := queue, nextSeq := advance queue c.nextSeq }

/-- `Connection::touch_duration`: the seconds field of the time passed, between 0 and 59. -/
def touchDuration (now : ℤ) (c : Connection) : ℤ := ((now - c.lastTouched).tdiv 1000000).tmod 60

end Connection

end ODelivery

/-- The element. Its timers are bound to sources. `answers` holds what the output will answer to the
pushes to come, yes when it ends; `output` holds what was pushed to it. -/
structure ODelivery extends Connections ODelivery.Connection Value where
  outOn : Bool := true
  answers : List Bool := []
  output : List (List Value) := []

namespace ODelivery

open Connections (ltEntry findEntry_iff cmap_unmap cmap_map)

def unmap (src : Value) (s : ODelivery) : ODelivery :=
  { s with toConnections := s.toConnections.unmap src }

def setConnection (cp : ℕ) (c : Connection) (s : ODelivery) : ODelivery :=
  { s with toConnections := s.set cp c }

/-- The body of the first branch of `flush`: the front of the queue goes to the output, whose answer
becomes `out_on_`; the timer of the connection is removed. -/
def deliver (cp : ℕ) (c : Connection) (tpl : List Value) (queue : List (List Value))
    (s : ODelivery) : ODelivery :=
  let c' : Connection :=
    { c with
      queue := queue
      nextSeq := if seqOf tpl = c.nextSeq then c.nextSeq + 1 else c.nextSeq
      tcb := none }
  { toConnections := (s.set cp c').timeCBRemove c.tcb
    outOn := s.answers.headD true
    answers := s.answers.tail
    output := s.output ++ [tpl] }

/-- The second branch of `flush`: a timer for the source of the tuple in front. -/
def setTimer (cp : ℕ) (c : Connection) (tpl : List Value) (s : ODelivery) : ODelivery :=
  { s with toConnections := (s.set cp { c with tcb := some s.nextHandle }).delayCB (srcOf tpl) }

/-- The loop of `flush`, for a number of rounds. -/
def flushRounds : ℕ → ℕ → ODelivery → ODelivery
  | 0, _, s => s
  | n + 1, cp, s =>
    match s.objects[cp]? with
    | none => s
    | some c =>
      match c.queue with
      | [] => s
      | tpl :: queue =>
        if s.outOn then
          if seqOf tpl ≤ c.nextSeq then flushRounds n cp (s.deliver cp c tpl queue)
          else if c.tcb = none then s.setTimer cp c tpl
          else s
        else s

def queueLength (cp : ℕ) (s : ODelivery) : ℕ := ((s.objects[cp]?).map (·.queue.length)).getD 0

/-- `ODelivery::flush`: each round but the last takes a tuple off the queue. -/
def flush (cp : ℕ) (s : ODelivery) : ODelivery := flushRounds (s.queueLength cp) cp s

/-- `ODelivery::push`. A tuple without the fields it reads throws before anything changes. -/
def push (now : ℤ) (t : List Value) (s : ODelivery) : ODelivery :=
  match t[SRC]?, int64At SEQ t, int64At CUMSEQ t with
  | some src, some seq, some cseq =>
    let s := if cseq = 0 then s.unmap src else s
    let cp := if cseq = 0 then none else s.lookup src
    match cp.bind fun cp => (s.objects[cp]?).map fun c => (cp, c) with
    | some (cp, c) =>
      if seq < c.nextSeq then s
      else
        let c := ({ c with lastTouched := now } : Connection).insert t
        (s.setConnection cp c).flush cp
    | none =>
      -- the parameter of the constructor is an `unsigned int`
      let c : Connection :=
        { nextSeq := Int64.ofNat (toUnsigned cseq).toNat, lastTouched := now }
      let s : ODelivery :=
        { s with toConnections := (s.alloc (c.insert t)).map src s.objects.length }
      s.flush (s.objects.length - 1)
  | _, _, _ => s

/-- `ODelivery::out_cb`: the objects in the order of the map, while the output takes tuples. -/
def outCb (s : ODelivery) : ODelivery :=
  s.cmap.toList.foldl (fun s entry => if s.outOn then s.flush entry.2 else s)
    { s with outOn := true }

def CONNECTION_TIMEOUT : ℤ := 240

/-- `ODelivery::flushConnectionQ`; `none` where the connection is gone and its pointer null. -/
def flushConnectionQ (now : ℤ) (src : Value) (s : ODelivery) : Option ODelivery := do
  let cp ← s.lookup src
  let c ← s.objects[cp]?
  let s := match c.queue.getLast? with
    | some t => (s.setConnection cp { c with tcb := none, nextSeq := seqOf t + 1 }).flush cp
    | none => s.setConnection cp { c with tcb := none }
  let c ← s.objects[cp]?
  pure (if c.queue = [] ∧ CONNECTION_TIMEOUT < c.touchDuration now then s.unmap src else s)

inductive Event where
  | push (now : ℤ) (t : List Value)
  | outCb
  | timer (now : ℤ) (handle : ℕ)

/-- One event. A timer that is not set does not go off. -/
def step (s : ODelivery) : Event → Option ODelivery
  | .push now t => some (s.push now t)
  | .outCb => some s.outCb
  | .timer now handle =>
    match s.timers.find? (·.1 = handle) with
    | some timer => flushConnectionQ now timer.2
        { s with timers := s.timers.filter fun timer => timer.1 ≠ handle }
    | none => some s

def run (s : ODelivery) (events : List Event) : Option ODelivery := events.foldlM step s

/-! ## One connection -/

/-- What holds of the connection of a source: the queue is sorted, holds tuples of the source, none
with the greatest number, and what was passed on of the source lies below the next number and below
the queue. -/
structure Connection.Ok (S : Set Value) (src : Value) (output : List (List Value))
    (c : Connection) : Prop where
  sorted : c.queue.Pairwise fun p q => seqOf p < seqOf q
  source : ∀ q ∈ c.queue, srcOf q ∈ S ∧ compareTo (srcOf q) src = .eq
  bounded : ∀ q ∈ c.queue, seqOf q ≠ Int64.maxValue
  below : ∀ t ∈ output, compareTo (srcOf t) src = .eq →
    seqOf t < c.nextSeq ∧ ∀ q ∈ c.queue, seqOf t < seqOf q

namespace Connection

variable {S : Set Value} {src : Value} {output : List (List Value)} {c : Connection}
  {t : List Value}

lemma le_advance {queue : List (List Value)} (hbounded : ∀ q ∈ queue, seqOf q ≠ maxValue)
    (next : Int64) : next ≤ advance queue next := by
  fun_induction advance queue next with
  | case1 | case3 => exact Int64.le_refl _
  | case2 q queue ih =>
    have hle := ih fun p hp => hbounded p (mem_cons_of_mem q hp)
    rw [le_iff_toInt_le] at hle ⊢
    rw [Numbered.toInt_add_one (hbounded q mem_cons_self)] at hle
    omega

lemma Ok.insert (h : c.Ok S src output) (hS : srcOf t ∈ S) (hsrc : compareTo (srcOf t) src = .eq)
    (hmax : seqOf t ≠ maxValue)
    (hnew : ∀ u ∈ output, compareTo (srcOf u) src = .eq → seqOf u < seqOf t) :
    (c.insert t).Ok S src output := by
  -- both branches put the tuple into the sorted queue and advance the next number
  have hgoal : ∀ queue, (queue.Pairwise fun p q => seqOf p < seqOf q) →
      (∀ q, q ∈ queue ↔ q = t ∨ q ∈ c.queue) →
      Ok S src output { c with queue := queue, nextSeq := advance queue c.nextSeq } := by
    intro queue hsorted hmem
    have hbounded : ∀ q ∈ queue, seqOf q ≠ maxValue := by
      intro q hq
      rcases (hmem q).mp hq with rfl | hq
      · exact hmax
      · exact h.bounded q hq
    refine ⟨hsorted, fun q hq => ?_, hbounded, fun u hu husrc => ⟨?_, fun q hq => ?_⟩⟩
    · rcases (hmem q).mp hq with rfl | hq
      · exact ⟨hS, hsrc⟩
      · exact h.source q hq
    · exact Int64.lt_of_lt_of_le (h.below u hu husrc).1 (le_advance hbounded c.nextSeq)
    · rcases (hmem q).mp hq with rfl | hq
      · exact hnew u hu husrc
      · exact (h.below u hu husrc).2 q hq
  unfold Connection.insert
  split_ifs with hempty
  · exact hgoal [t] (pairwise_singleton _ _) fun q => by simp [hempty.1]
  · split
    · exact h
    next queue hplace =>
      exact hgoal queue (Numbered.pairwise_place hplace h.sorted) (Numbered.mem_place hplace)

lemma Ok.deliver {queue : List (List Value)} (h : c.Ok S src output) (hqueue : c.queue = t :: queue)
    (hle : seqOf t ≤ c.nextSeq) :
    Ok S src (output ++ [t])
      { c with
        queue := queue
        nextSeq := if seqOf t = c.nextSeq then c.nextSeq + 1 else c.nextSeq
        tcb := none } := by
  have hsorted := h.sorted
  rw [hqueue, pairwise_cons] at hsorted
  have hmem : ∀ q ∈ queue, q ∈ c.queue := fun q hq => hqueue ▸ mem_cons_of_mem t hq
  have hfront : t ∈ c.queue := hqueue ▸ mem_cons_self
  -- the next number is above the tuple passed on and not below what it was
  have hnext : seqOf t < (if seqOf t = c.nextSeq then c.nextSeq + 1 else c.nextSeq) ∧
      c.nextSeq ≤ (if seqOf t = c.nextSeq then c.nextSeq + 1 else c.nextSeq) := by
    split_ifs with heq
    · have hsucc := Numbered.toInt_add_one (heq ▸ h.bounded t hfront)
      rw [lt_iff_toInt_lt, le_iff_toInt_le, heq]
      omega
    · exact ⟨Int64.lt_of_le_of_ne hle heq, Int64.le_refl _⟩
  refine ⟨hsorted.2, fun q hq => h.source q (hmem q hq), fun q hq => h.bounded q (hmem q hq),
    fun u hu husrc => ?_⟩
  rcases mem_append.mp hu with hu | hu
  · obtain ⟨hlt, hbelow⟩ := h.below u hu husrc
    exact ⟨Int64.lt_of_lt_of_le hlt hnext.2, fun q hq => hbelow q (hmem q hq)⟩
  · rw [mem_singleton.mp hu]
    exact ⟨hnext.1, hsorted.1⟩

lemma Ok.other (h : c.Ok S src output) (hother : compareTo (srcOf t) src ≠ .eq) :
    c.Ok S src (output ++ [t]) := by
  refine ⟨h.sorted, h.source, h.bounded, fun u hu husrc => ?_⟩
  rcases mem_append.mp hu with hu | hu
  · exact h.below u hu husrc
  · rw [mem_singleton.mp hu] at husrc
    exact absurd husrc hother

lemma Ok.skip (h : c.Ok S src output) (hlast : c.queue.getLast? = some t) :
    Ok S src output { c with tcb := none, nextSeq := seqOf t + 1 } := by
  have hmem := mem_of_getLast? hlast
  refine ⟨h.sorted, h.source, h.bounded, fun u hu husrc => ⟨?_, (h.below u hu husrc).2⟩⟩
  have hlt := (h.below u hu husrc).2 t hmem
  rw [lt_iff_toInt_lt] at hlt ⊢
  rw [Numbered.toInt_add_one (h.bounded t hmem)]
  omega

end Connection

/-! ## The element -/

def Mapped (S : Set Value) (cmap : SearchTree (Value × ℕ)) (src : Value) : Prop :=
  src ∈ S ∧ ∃ e ∈ cmap.toList, compareTo src e.1 = .eq

def InOrder (output : List (List Value)) : Prop :=
  output.Pairwise fun t u => compareTo (srcOf t) (srcOf u) = .eq → seqOf t < seqOf u

instance (output : List (List Value)) : Decidable (InOrder output) :=
  inferInstanceAs (Decidable (output.Pairwise _))

/-- The invariant: the map has one connection for each source, all objects are in order, and
what was passed on, as every timer, belongs to a source with a connection. -/
structure Ok (S : Set Value) (s : ODelivery) : Prop where
  keys : ∀ e ∈ s.cmap.toList, e.1 ∈ S
  sorted : Sorted ltEntry s.cmap.toList
  /-- No source has two objects, and no connection two sources. -/
  distinct : s.cmap.toList.Pairwise fun a b => compareTo a.1 b.1 ≠ .eq ∧ a.2 ≠ b.2
  connection : ∀ e ∈ s.cmap.toList, ∃ c, s.objects[e.2]? = some c ∧ c.Ok S e.1 s.output
  inOrder : InOrder s.output
  known : ∀ t ∈ s.output, Mapped S s.cmap (srcOf t)
  timers : ∀ timer ∈ s.timers, Mapped S s.cmap timer.2

def opened (src : Value) (c : Connection) (s : ODelivery) : ODelivery :=
  { s with toConnections :=
      ((s.toConnections.unmap src).alloc c).map src (s.toConnections.unmap src).objects.length }

lemma opened_fields (src : Value) (c : Connection) (s : ODelivery) :
    (s.opened src c).objects = s.objects ++ [c] ∧ (s.opened src c).output = s.output ∧
      (s.opened src c).timers = s.timers := by
  refine ⟨?_, rfl, ?_⟩
  · show (((s.toConnections.unmap src).alloc c).map src _).objects = _
    rw [Connections.objects_map]
    exact congrArg (· ++ [c]) Connections.objects_unmap
  · exact Connections.timers_unmap.trans Connections.timers_unmap

section Invariant

variable {S : Set Value} (hS : LawfulOn S) {s : ODelivery} {e : Value × ℕ} {c : Connection}

include hS

variable {src : Value}

lemma mapped_of_mem {cmap cmap' : SearchTree (Value × ℕ)} {cp : ℕ} (hsrc : src ∈ S)
    (hkeys : ∀ a ∈ cmap.toList, a.1 ∈ S)
    (hmem : ∀ a, a ∈ cmap'.toList ↔ a = (src, cp) ∨ a ∈ cmap.toList ∧ compareTo src a.1 ≠ .eq)
    {v : Value} (hv : Mapped S cmap v) : Mapped S cmap' v := by
  obtain ⟨hvS, e, he, hve⟩ := hv
  refine ⟨hvS, ?_⟩
  by_cases heq : compareTo src e.1 = .eq
  · refine ⟨(src, cp), (hmem _).mpr (Or.inl rfl), ?_⟩
    exact hS.eq_trans hvS (hkeys e he) hsrc hve (hS.eq_symm hsrc (hkeys e he) heq)
  · exact ⟨e, (hmem e).mpr (Or.inr ⟨he, heq⟩), hve⟩

lemma Ok.tree (h : s.Ok S) : s.cmap.Proper comparator S := by
  refine ⟨h.keys, (h.sorted.and h.distinct).imp_of_mem fun {a b} ha hb hab => ?_⟩
  have hne := hab.2.1
  have hba : comparator b.1 a.1 = false := Bool.eq_false_iff.mpr hab.1
  rw [ne_eq, ← hS.eq_iff_not_comparator (h.keys a ha) (h.keys b hb), hba] at hne
  simpa using hne

lemma Ok.eq_of_source (h : s.Ok S) {a b : Value × ℕ} (ha : a ∈ s.cmap.toList)
    (hb : b ∈ s.cmap.toList) (hab : compareTo a.1 b.1 = .eq) : a = b := by
  have haS := h.keys a ha
  have hself := (findEntry_iff hS (h.tree hS) haS).mpr ⟨ha, hS.refl a.1 haS⟩
  have hother := (findEntry_iff hS (h.tree hS) haS).mpr ⟨hb, hab⟩
  exact some.inj (hself.symm.trans hother)

lemma Ok.findEntry_eq_none (h : s.Ok S) (hsrc : src ∈ S) (hfind : s.findEntry src = none) :
    ∀ e ∈ s.cmap.toList, compareTo src e.1 ≠ .eq := by
  intro e he heq
  rw [(findEntry_iff hS (h.tree hS) hsrc).mpr ⟨he, heq⟩] at hfind
  cases hfind

omit hS in
lemma Ok.ne_of_ne (h : s.Ok S) {a b : Value × ℕ} (ha : a ∈ s.cmap.toList)
    (hb : b ∈ s.cmap.toList) (hne : a ≠ b) : a.2 ≠ b.2 := by
  have hsymm : Std.Symm fun a b : Value × ℕ => a.2 ≠ b.2 := ⟨fun _ _ hab => hab.symm⟩
  have hpair : s.cmap.toList.Pairwise fun a b => a.2 ≠ b.2 := h.distinct.imp And.right
  exact hpair.forall ha hb hne

omit hS in
lemma Ok.connection_set (h : s.Ok S) (he : e ∈ s.cmap.toList) {output : List (List Value)}
    (hc : c.Ok S e.1 output)
    (hothers : ∀ a ∈ s.cmap.toList, a ≠ e → ∀ c' : Connection, c'.Ok S a.1 s.output →
      c'.Ok S a.1 output) :
    ∀ a ∈ s.cmap.toList, ∃ c', (s.objects.set e.2 c)[a.2]? = some c' ∧ c'.Ok S a.1 output := by
  intro a ha
  obtain ⟨c', hc', hok⟩ := h.connection a ha
  by_cases hae : a = e
  · subst hae
    refine ⟨c, ?_, hc⟩
    rw [List.getElem?_set_self (List.getElem?_eq_some_iff.mp hc').1]
  · refine ⟨c', ?_, hothers a ha hae c' hok⟩
    rw [List.getElem?_set_ne (h.ne_of_ne he ha (Ne.symm hae)), hc']

omit hS in
lemma Ok.setConnection (h : s.Ok S) (he : e ∈ s.cmap.toList) (hc : c.Ok S e.1 s.output) :
    (s.setConnection e.2 c).Ok S :=
  ⟨h.keys, h.sorted, h.distinct, h.connection_set he hc fun _ _ _ _ hok => hok, h.inOrder, h.known,
    h.timers⟩

lemma Ok.deliver (h : s.Ok S) (he : e ∈ s.cmap.toList) (hc : s.objects[e.2]? = some c)
    {tpl : List Value} {queue : List (List Value)} (hqueue : c.queue = tpl :: queue)
    (hle : seqOf tpl ≤ c.nextSeq) : (s.deliver e.2 c tpl queue).Ok S := by
  obtain ⟨c', hc', hok⟩ := h.connection e he
  obtain rfl := some.inj (hc.symm.trans hc')
  obtain ⟨htS, hte⟩ := hok.source tpl (hqueue ▸ mem_cons_self)
  have heS := h.keys e he
  refine ⟨h.keys, h.sorted, h.distinct,
    h.connection_set he (hok.deliver hqueue hle) fun a ha hae c' hok' => hok'.other fun hta => ?_,
    ?_, fun t ht => ?_, fun timer htimer => h.timers timer (mem_of_mem_filter htimer)⟩
  · exact hae (h.eq_of_source hS ha he
      (hS.eq_trans (h.keys a ha) htS heS (hS.eq_symm htS (h.keys a ha) hta) hte))
  · show InOrder (s.output ++ [tpl])
    unfold InOrder
    rw [pairwise_append]
    refine ⟨h.inOrder, pairwise_singleton _ _, fun t ht u hu hsame => ?_⟩
    rw [mem_singleton.mp hu] at hsame ⊢
    have hsrc := hS.eq_trans (h.known t ht).1 htS heS hsame hte
    exact (hok.below t ht hsrc).2 tpl (hqueue ▸ mem_cons_self)
  · rcases mem_append.mp ht with ht | ht
    · exact h.known t ht
    · rw [mem_singleton.mp ht]
      exact ⟨htS, e, he, hte⟩

omit hS in
lemma Ok.setTimer (h : s.Ok S) (he : e ∈ s.cmap.toList) (hc : s.objects[e.2]? = some c)
    {tpl : List Value} (htpl : tpl ∈ c.queue) : (s.setTimer e.2 c tpl).Ok S := by
  obtain ⟨c', hc', hok⟩ := h.connection e he
  obtain rfl := some.inj (hc.symm.trans hc')
  have hset : (s.setConnection e.2 { c with tcb := some s.nextHandle }).Ok S :=
    h.setConnection he ⟨hok.sorted, hok.source, hok.bounded, hok.below⟩
  refine ⟨hset.keys, hset.sorted, hset.distinct, hset.connection, hset.inOrder, hset.known,
    fun timer htimer => ?_⟩
  rcases mem_append.mp htimer with htimer | htimer
  · exact h.timers timer htimer
  · rw [mem_singleton.mp htimer]
    exact ⟨(hok.source tpl htpl).1, e, he, (hok.source tpl htpl).2⟩

omit hS in
lemma cmap_flushRounds (n cp : ℕ) (s : ODelivery) : (flushRounds n cp s).cmap = s.cmap := by
  fun_induction flushRounds n cp s with
  | case4 _ _ _ _ _ _ _ _ _ _ ih => exact ih
  | _ => rfl

lemma Ok.flushRounds (n : ℕ) (h : s.Ok S) (he : e ∈ s.cmap.toList) :
    (flushRounds n e.2 s).Ok S := by
  generalize hcp : e.2 = cp
  fun_induction ODelivery.flushRounds n cp s with
  | case4 n cp s c hc tpl queue hqueue _ hle ih =>
    subst hcp
    exact ih (h.deliver hS he hc hqueue hle) he rfl
  | case5 n cp s c hc tpl queue hqueue =>
    subst hcp
    exact h.setTimer he hc (hqueue ▸ mem_cons_self)
  | _ => exact h

lemma Ok.flush (h : s.Ok S) (he : e ∈ s.cmap.toList) : (s.flush e.2).Ok S := h.flushRounds hS _ he

omit hS in
lemma outCb_induction {P : ODelivery → Prop} (hstart : P { s with outOn := true })
    (hflush : ∀ s', s'.cmap = s.cmap → P s' → ∀ e ∈ s.cmap.toList, P (s'.flush e.2)) :
    P s.outCb := by
  have hloop : ∀ entries ⊆ s.cmap.toList, ∀ s', s'.cmap = s.cmap → P s' →
      P (entries.foldl (fun s e => if s.outOn then s.flush e.2 else s) s') := by
    intro entries
    induction entries with
    | nil => exact fun _ s' _ h => h
    | cons e entries ih =>
      intro hmem s' hcmap h
      obtain ⟨he, hmem⟩ := cons_subset.mp hmem
      rw [foldl_cons]
      split_ifs
      · exact ih hmem _ ((cmap_flushRounds _ _ _).trans hcmap) (hflush s' hcmap h e he)
      · exact ih hmem s' hcmap h
  exact hloop _ (Subset.refl _) { s with outOn := true } rfl hstart

lemma Ok.outCb (h : s.Ok S) : s.outCb.Ok S := by
  refine outCb_induction (P := Ok S) ?_ fun s' hcmap h' e he => h'.flush hS (hcmap ▸ he)
  exact ⟨h.keys, h.sorted, h.distinct, h.connection, h.inOrder, h.known, h.timers⟩

lemma cmap_opened (htree : s.cmap.Proper comparator S) (hsrc : src ∈ S) (c : Connection) :
    (s.opened src c).cmap.Proper comparator S ∧ ∀ a, a ∈ (s.opened src c).cmap.toList ↔
      a = (src, s.objects.length) ∨ a ∈ s.cmap.toList ∧ compareTo src a.1 ≠ .eq := by
  obtain ⟨hunmap, hmem⟩ := cmap_unmap hS htree hsrc
  have hunmap' : ((s.toConnections.unmap src).alloc c).cmap.Proper comparator S := hunmap
  obtain ⟨hproper, hmem'⟩ := cmap_map hS hunmap' hsrc (s.toConnections.unmap src).objects.length
  refine ⟨hproper, fun a => (hmem' a).trans ?_⟩
  rw [Connections.objects_unmap]
  exact or_congr_right ⟨fun ha => (hmem a).mp ha.1, fun ha => ⟨(hmem a).mpr ha, ha.2⟩⟩

/-- What `push` does: nothing with a tuple it cannot read, or whose number is below the next one of its
connection; it inserts it there and flushes the queue; or it makes the connection anew, if there is
none or the cumulative number is zero. -/
lemma push_cases (htree : s.cmap.Proper comparator S)
    (hobject : ∀ e ∈ s.cmap.toList, e.2 < s.objects.length) (now : ℤ) {t : List Value}
    (hsrcS : ∀ src, t[SRC]? = some src → src ∈ S) :
    (¬ (t[SRC]?.isSome ∧ (int64At SEQ t).isSome ∧ (int64At CUMSEQ t).isSome) ∧ s.push now t = s) ∨
    srcOf t ∈ S ∧ int64At SEQ t = some (seqOf t) ∧
      ((∃ e ∈ s.cmap.toList, ∃ c : Connection,
          compareTo (srcOf t) e.1 = .eq ∧ s.objects[e.2]? = some c ∧
          ((seqOf t < c.nextSeq ∧ s.push now t = s) ∨
            (c.nextSeq ≤ seqOf t ∧ s.push now t = (s.setConnection e.2
              (Connection.insert t { c with lastTouched := now })).flush e.2))) ∨
        ((int64At CUMSEQ t = some 0 ∨ s.findEntry (srcOf t) = none) ∧ ∃ c : Connection,
          c.queue = [] ∧
            s.push now t = (s.opened (srcOf t) (c.insert t)).flush s.objects.length)) := by
  unfold ODelivery.push
  split
  next src seq cseq hsrc hseq hcseq =>
    obtain rfl : srcOf t = src := by rw [srcOf, hsrc, getD_some]
    obtain rfl : seqOf t = seq := by rw [seqOf, hseq, getD_some]
    have hS' := hsrcS _ hsrc
    have hnew : ∀ c : Connection,
        (s.opened (srcOf t) c).flush ((s.opened (srcOf t) c).objects.length - 1) =
          (s.opened (srcOf t) c).flush s.objects.length := by
      intro c
      rw [(opened_fields (srcOf t) c s).1, length_append]
      rfl
    refine Or.inr ⟨hS', hseq, ?_⟩
    by_cases hzero : cseq = 0
    · simp only [hzero, if_true, bind_none]
      refine Or.inr ⟨Or.inl (hzero ▸ hcseq), ⟨ofNat (toUnsigned 0).toNat, [], none, now⟩, rfl, ?_⟩
      exact hnew _
    · simp only [hzero, if_false]
      rcases hfind : s.findEntry (srcOf t) with _ | e
      · have hunmap : s.toConnections.unmap (srcOf t) = s.toConnections := by
          unfold Connections.unmap
          rw [hfind]
        refine Or.inr ⟨Or.inr rfl, ⟨ofNat (toUnsigned cseq).toNat, [], none, now⟩, rfl, ?_⟩
        unfold Connections.lookup
        simp only [hfind, map_none, bind_none]
        rw [← hnew]
        unfold opened
        rw [hunmap]
      · obtain ⟨he, heq⟩ := (findEntry_iff hS htree hS').mp hfind
        obtain ⟨c, hget⟩ : ∃ c, s.objects[e.2]? = some c :=
          ⟨_, List.getElem?_eq_getElem (hobject e he)⟩
        refine Or.inl ⟨e, he, c, heq, hget, ?_⟩
        unfold Connections.lookup
        simp only [hfind, bind_some, hget, map_some]
        split_ifs with hlt
        · exact Or.inl ⟨hlt, rfl⟩
        · exact Or.inr ⟨Int64.not_lt.mp hlt, rfl⟩
  next hunread =>
    refine Or.inl ⟨?_, rfl⟩
    rintro ⟨hsrc, hseq, hcseq⟩
    obtain ⟨src, hsrc⟩ := isSome_iff_exists.mp hsrc
    obtain ⟨seq, hseq⟩ := isSome_iff_exists.mp hseq
    obtain ⟨cseq, hcseq⟩ := isSome_iff_exists.mp hcseq
    exact hunread src seq cseq hsrc hseq hcseq

omit hS in
lemma Ok.object (h : s.Ok S) : ∀ a ∈ s.cmap.toList, a.2 < s.objects.length := by
  intro a ha
  obtain ⟨c', hc', -⟩ := h.connection a ha
  exact (List.getElem?_eq_some_iff.mp hc').1

lemma Ok.opened (h : s.Ok S) (hsrc : src ∈ S) (hc : c.Ok S src s.output) :
    (s.opened src c).Ok S := by
  obtain ⟨hproper, hmem⟩ := cmap_opened hS (h.tree hS) hsrc c
  obtain ⟨hobjects, houtput, htimers⟩ := opened_fields src c s
  have hmapped : ∀ v, Mapped S s.cmap v → Mapped S (s.opened src c).cmap v := fun v =>
    mapped_of_mem hS hsrc h.keys hmem
  refine ⟨hproper.keys, hproper.sorted hS.strictWeak, ?_, fun a ha => ?_, houtput ▸ h.inOrder,
    fun t ht => hmapped _ (h.known t (houtput ▸ ht)),
    fun timer ht => hmapped _ (h.timers timer (htimers ▸ ht))⟩
  · refine hproper.ordered.imp_of_mem fun {a b} ha hb hab => ⟨fun heq => ?_, ?_⟩
    · have hnot := (hS.eq_iff_not_comparator (hproper.keys a ha) (hproper.keys b hb)).mpr heq
      rw [hab] at hnot
      cases hnot
    · have hne : a ≠ b := by
        rintro rfl
        exact hS.strictWeak.irrefl (hproper.keys a ha) hab
      rcases (hmem a).mp ha with rfl | ha <;> rcases (hmem b).mp hb with rfl | hb
      · exact absurd rfl hne
      · exact (h.object b hb.1).ne'
      · exact (h.object a ha.1).ne
      · exact h.ne_of_ne ha.1 hb.1 hne
  · rw [hobjects, houtput]
    rcases (hmem a).mp ha with rfl | ha
    · exact ⟨c, by simp, hc⟩
    · obtain ⟨c', hc', hok⟩ := h.connection a ha.1
      refine ⟨c', ?_, hok⟩
      rw [List.getElem?_append_left (h.object a ha.1), hc']

/-- **An arrival keeps the element in order**, if its cumulative number is not zero, its number is
not the greatest and its source is lawfully ordered with the others. -/
lemma Ok.push (h : s.Ok S) (now : ℤ) {t : List Value} (hcum : int64At CUMSEQ t ≠ some 0)
    (hmax : int64At SEQ t ≠ some maxValue) (hsrcS : ∀ src, t[SRC]? = some src → src ∈ S) :
    (s.push now t).Ok S := by
  rcases push_cases hS (h.tree hS) h.object now hsrcS with ⟨-, hpush⟩ | ⟨hS', hseq,
    ⟨e, he, c, heq, hc, ⟨-, hpush⟩ | ⟨hle, hpush⟩⟩ | ⟨hanew, c, hqueue, hpush⟩⟩
  · rw [hpush]
    exact h
  · rw [hpush]
    exact h
  · obtain ⟨c', hc', hok⟩ := h.connection e he
    obtain rfl := some.inj (hc.symm.trans hc')
    have hins : Connection.Ok S e.1 s.output
        (Connection.insert t { c with lastTouched := now }) := by
      refine Connection.Ok.insert ⟨hok.sorted, hok.source, hok.bounded, hok.below⟩ hS' heq
        (fun hlast => hmax (hlast ▸ hseq)) fun u hu heq => ?_
      exact Int64.lt_of_lt_of_le (hok.below u hu heq).1 hle
    rw [hpush]
    exact (h.setConnection he hins).flush hS he
  · -- the first tuple of the source: nothing of it was passed on before
    have hnew : ∀ u ∈ s.output, compareTo (srcOf u) (srcOf t) ≠ .eq := by
      intro u hu heq
      obtain ⟨huS, e, he, hue⟩ := h.known u hu
      exact h.findEntry_eq_none hS hS' (hanew.resolve_left hcum) e he
        (hS.eq_trans hS' huS (h.keys e he) (hS.eq_symm huS hS' heq) hue)
    have hins : Connection.Ok S (srcOf t) s.output (c.insert t) := by
      refine Connection.Ok.insert ⟨?_, ?_, ?_, fun u hu heq => absurd heq (hnew u hu)⟩ hS'
        (hS.refl _ hS') (fun hlast => hmax (hlast ▸ hseq)) fun u hu heq => absurd heq (hnew u hu)
      all_goals rw [hqueue]
      · exact Pairwise.nil
      · exact forall_mem_nil _
      · exact forall_mem_nil _
    rw [hpush]
    exact (h.opened hS hS' hins).flush hS
      (((cmap_opened hS (h.tree hS) hS' _).2 (srcOf t, s.objects.length)).mpr (Or.inl rfl))

omit hS in
lemma Connection.touchDuration_lt (now : ℤ) (c : Connection) :
    ¬ CONNECTION_TIMEOUT < c.touchDuration now := by
  unfold touchDuration CONNECTION_TIMEOUT
  have := Int.tmod_lt_of_pos ((now - c.lastTouched).tdiv 1000000) (show (0 : ℤ) < 60 by decide)
  omega

lemma Ok.flushConnectionQ (h : s.Ok S) (now : ℤ) {src : Value} (hsrc : Mapped S s.cmap src) :
    ∃ s', s.flushConnectionQ now src = some s' ∧ s'.Ok S := by
  obtain ⟨hsrcS, e₀, he₀, heq₀⟩ := hsrc
  obtain ⟨e, hfind⟩ : ∃ e, s.findEntry src = some e := by
    rcases hfind : s.findEntry src with _ | e
    · exact absurd heq₀ (h.findEntry_eq_none hS hsrcS hfind e₀ he₀)
    · exact ⟨e, rfl⟩
  obtain ⟨he, -⟩ := (findEntry_iff hS (h.tree hS) hsrcS).mp hfind
  obtain ⟨c, hc, hok⟩ := h.connection e he
  unfold ODelivery.flushConnectionQ Connections.lookup
  simp only [hfind, hc, map_some, bind_eq_bind, bind_some]
  -- what is left after the timeout is in order, and the connection is not dead
  have hend : ∀ s' : ODelivery, s'.Ok S → s'.cmap = s.cmap →
      ∃ s'', ((s'.objects[e.2]?).bind fun c => pure
        (if c.queue = [] ∧ CONNECTION_TIMEOUT < c.touchDuration now then s'.unmap src else s')) =
          some s'' ∧ s''.Ok S := by
    intro s' h' hcmap
    obtain ⟨c', hc', -⟩ := h'.connection e (hcmap ▸ he)
    refine ⟨s', ?_, h'⟩
    rw [hc', bind_some, if_neg fun hdead => Connection.touchDuration_lt now c' hdead.2]
    rfl
  split
  next t hlast =>
    apply hend
    · exact (h.setConnection he (hok.skip hlast)).flush hS he
    · unfold ODelivery.flush
      rw [cmap_flushRounds]
      rfl
  next hlast =>
    exact hend _ (h.setConnection he ⟨hok.sorted, hok.source, hok.bounded, hok.below⟩) rfl

end Invariant

/-! ## Runs -/

/-- The conditions on an arrival: a cumulative number other than zero, a number other than the
greatest one, and a source lawfully ordered with the other sources. -/
structure Event.Fair (S : Set Value) (t : List Value) : Prop where
  cum : int64At CUMSEQ t ≠ some 0
  seq : int64At SEQ t ≠ some Int64.maxValue
  src : ∀ src, t[SRC]? = some src → src ∈ S

lemma ok_empty (S : Set Value) (answers : List Bool) : Ok S { answers := answers } where
  keys := nofun
  sorted := Pairwise.nil
  distinct := Pairwise.nil
  connection := nofun
  inOrder := Pairwise.nil
  known := nofun
  timers := nofun

lemma Ok.step {S : Set Value} (hS : LawfulOn S) (s : ODelivery) (event : Event) (h : s.Ok S)
    (hevent : ∀ now t, event = .push now t → Event.Fair S t) :
    ∃ s', s.step event = some s' ∧ s'.Ok S := by
  rcases event with ⟨now, t⟩ | _ | ⟨now, handle⟩
  · have hfair := hevent now t rfl
    exact ⟨_, rfl, h.push hS now hfair.cum hfair.seq hfair.src⟩
  · exact ⟨_, rfl, h.outCb hS⟩
  · unfold ODelivery.step
    rcases hfind : s.timers.find? (·.1 = handle) with _ | timer
    · exact ⟨s, by simp only [hfind], h⟩
    · simp only [hfind]
      have hmapped := h.timers timer (List.mem_of_find?_eq_some hfind)
      have hrest : Ok S { s with timers := s.timers.filter fun timer => timer.1 ≠ handle } :=
        ⟨h.keys, h.sorted, h.distinct, h.connection, h.inOrder, h.known,
          fun timer htimer => h.timers timer (mem_of_mem_filter htimer)⟩
      exact hrest.flushConnectionQ hS now hmapped

/-- **In-order delivery.** In every run of arrivals, unblockings and timers, whatever the output
answers, what is passed on of each source is strictly increasing; no run ends in a null pointer. The
arrivals carry a non-zero cumulative number, no sequence number is `2 ^ 63 - 1`, and `compareTo` is
a total order on the sources.
Hyps: `LawfulOn` on the sources; `Event.Fair` on the arrivals -/
theorem odelivery_in_order {S : Set Value} (hS : LawfulOn S) {events : List Event}
    (hevents : ∀ now t, Event.push now t ∈ events → Event.Fair S t) (answers : List Bool) :
    ∃ s, run { answers := answers } events = some s ∧ InOrder s.output := by
  have hfair : ∀ event ∈ events, ∀ now t, event = .push now t → Event.Fair S t := by
    rintro _ hmem now t rfl
    exact hevents now t hmem
  obtain ⟨s, hs, h⟩ := (permitted_of_mem hfair).run (Ok.step hS) (ok_empty S answers)
  exact ⟨s, hs, h.inOrder⟩

def message (src : Value) (seq : Int64) : List Value :=
  [.str [98], src, .null, .null, .null, .null, .int64 1, .int64 seq, .int64 5]

lemma fair_message (s : List UInt8) {seq : Int64} (hseq : seq ≠ maxValue) :
    Event.Fair (Set.range Value.str) (message (.str s) seq) where
  cum h := absurd (some.inj h) (by decide)
  seq h := hseq (some.inj h)
  src src h := ⟨s, some.inj h⟩

theorem odelivery_in_order_two_sources :
    ∃ s, run { answers := [true, false] }
      [.push 0 (message (.str [97]) 1), .push 1 (message (.str [98]) 1),
        .push 2 (message (.str [97]) 3), .outCb, .timer 3 0, .push 4 (message (.str [97]) 2)] =
          some s ∧ InOrder s.output := by
  refine odelivery_in_order lawfulOn_str (fun now t hmem => ?_) _
  simp only [mem_cons, Event.push.injEq, reduceCtorEq, not_mem_nil, false_or,
    or_false] at hmem
  rcases hmem with ⟨-, rfl⟩ | ⟨-, rfl⟩ | ⟨-, rfl⟩ | ⟨-, rfl⟩
  · exact fair_message _ (by decide)
  · exact fair_message _ (by decide)
  · exact fair_message _ (by decide)
  · exact fair_message _ (by decide)

/-- A string and a list as sources; the tuple of the list arrives twice. -/
def stringAndList : List Event :=
  [.push 0 (message (.str [97]) 1), .push 0 (message (.list []) 1),
    .push 0 (message (.list []) 1)]

/-- **A tuple is delivered twice.** The sources are a string and a list, each less than the other
for `compareTo`. The connection of the list is stored to the left of that of the string, `find` goes
to the right, and the second copy of the tuple opens a new connection. -/
theorem odelivery_delivers_twice :
    (∀ now t, Event.push now t ∈ stringAndList → int64At CUMSEQ t = some 1) ∧
      ∃ s, run {} stringAndList = some s ∧
        s.output.map (fun t => (seqOf t, (srcOf t).typeCode)) =
          [(1, .STR), (1, .LIST), (1, .LIST)] ∧ ¬ InOrder s.output := by
  have hrun : (run {} stringAndList).map (fun s => (s.output.map
      (fun t => (seqOf t, (srcOf t).typeCode)), decide (InOrder s.output))) =
        some ([(1, .STR), (1, .LIST), (1, .LIST)], false) := by decide
  obtain ⟨s, hs, hout⟩ := map_eq_some_iff.mp hrun
  obtain ⟨houtput, horder⟩ := Prod.mk.inj hout
  refine ⟨fun now t hmem => ?_, s, hs, houtput, of_decide_eq_false horder⟩
  simp only [stringAndList, mem_cons, Event.push.injEq, not_mem_nil, or_false] at hmem
  rcases hmem with ⟨-, rfl⟩ | ⟨-, rfl⟩ | ⟨-, rfl⟩
  · rfl
  · rfl
  · rfl

/-- The greatest number makes `next_seq_` wrap: behind a blocked output it leaves the queue after
its predecessor, and a tuple with number 3 that comes later is passed on after it. -/
example : (run { answers := [false] }
    [.push 0 (message (.str [97]) (Int64.maxValue - 1)), .push 0 (message (.str [98]) 1),
      .timer 0 0, .push 0 (message (.str [97]) Int64.maxValue), .outCb,
      .push 0 (message (.str [97]) 3), .timer 0 1]).map (fun s => s.output.map seqOf) =
        some [1, Int64.maxValue - 1, Int64.maxValue, 3] := by decide

end ODelivery

end P2.Net
