import Mathlib.Data.List.Nodup
import P2.Elements.Ports
import P2.Lib.Runs

/-!
# `DuplicateConservative` and `DDuplicateConservative`

Every tuple is pushed to all outputs, and the pusher has to wait until all of them take more:
`duplicate_lossless`, `dDuplicate_reaches`. `push` and `unblock` have the same text in both
elements; outputs come and go in the second one.
-/

namespace P2.Elements

open P2.Lib List

/-- The element, with what it did to its neighbours. `owed` are the outputs that answered 0 and have
still to call `unblock`, `output` is what was pushed to them; `called` counts the calls of the pusher's
callback, `refused` the zeros that the pusher got. -/
structure Duplicate (α : Type) extends Ports, Flags where
  push_cb : Bool := false
  owed : List ℕ := []
  output : List (ℕ × α) := []
  called : ℕ := 0
  refused : ℕ := 0

namespace Duplicate

variable {α : Type}

/-! ## The elements -/

def setup (α : Type) (n : ℕ) : Duplicate α :=
  { toPorts := Ports.setup n, toFlags := { flags := replicate n false } }

/-- The loop of `push`; the outputs answer whether they take more. -/
def pushAll (p : α) (answer : ℕ → Bool) : List ℕ → Duplicate α → Option (Duplicate α)
  | [], s => some s
  | i :: rest, s =>
    if s.Live i ∧ s.flags[i]? = some false ∧ i ∉ s.owed then
      let s := { s with output := s.output ++ [(i, p)] }
      if answer i then pushAll p answer rest s
      else pushAll p answer rest { s with toFlags := s.toFlags.raise i, owed := s.owed ++ [i] }
    else none

def push (p : α) (answer : ℕ → Bool) (s : Duplicate α) : Option (Bool × Duplicate α) :=
  if 0 < s.count then
    -- the tuple is dropped
    if s.push_cb then some (false, s) else none
  else if s.push_cb then none
  else do
    let s ← pushAll p answer (range s.nports) s
    if 0 < s.count then return (false, { s with push_cb := true }) else return (true, s)

def unblock (output : ℕ) (s : Duplicate α) : Option (Duplicate α) :=
  if output ≤ s.nports then do
    let s := { s with toFlags := ← s.toFlags.lower output }
    if s.count = 0 then
      if s.push_cb then return { s with push_cb := false, called := s.called + 1 } else none
    else return s
  else none

def add_output (s : Duplicate α) : Option (Duplicate α) := do
  let (_, ports) ← s.toPorts.add
  return { s with toPorts := ports, flags := s.flags ++ [false] }

def remove_output (port : ℕ) (s : Duplicate α) : Duplicate α :=
  { s with toPorts := (s.toPorts.delete port).getD s.toPorts }

inductive Event (α : Type) where
  | push (p : α) (answer : ℕ → Bool)
  | unblock (output : ℕ)

inductive DEvent (α : Type) where
  | common (e : Event α)
  | add_output
  | remove_output (port : ℕ)

/-- What an event does. The pusher counts the zeros it gets. -/
def step (s : Duplicate α) : Event α → Option (Duplicate α)
  | .push p answer => do
    let (accepts, s) ← s.push p answer
    return { s with refused := s.refused + if accepts then 0 else 1 }
  | .unblock output => { s with owed := s.owed.erase output }.unblock output

def dStep (s : Duplicate α) : DEvent α → Option (Duplicate α)
  | .common e => s.step e
  | .add_output => s.add_output
  | .remove_output port => some (s.remove_output port)

def DAllowed (s : Duplicate α) : DEvent α → Prop
  | .common (.unblock output) => output ∈ s.owed
  | .remove_output port => s.Live port
  | _ => True

def Allowed (s : Duplicate α) : Event α → Prop
  | .push _ _ => s.called = s.refused
  | .unblock output => output ∈ s.owed

/-- The last output is removed, and not while it is blocked. -/
def RemovesLast (s : Duplicate α) : DEvent α → Prop
  | .remove_output port => port + 1 = s.nports ∧ port ∉ s.owed
  | _ => True

def toOutput (i : ℕ) (s : Duplicate α) : List α := (s.output.filter (·.1 = i)).map (·.2)

/-- The tuples that an event pushes into the element. -/
def Event.pushed : Event α → List α
  | .push p _ => [p]
  | .unblock _ => []

/-! ## The invariant -/

structure Tidy (ports : Ports) (f : Flags) (owed : List ℕ) : Prop where
  compact : ports.Compact
  wf : f.Wf
  length : ports.nports ≤ f.flags.length
  nodup : owed.Nodup
  flag : ∀ i : ℕ, f.flags[i]? = some true ↔ i ∈ owed
  owed : ∀ i ∈ owed, i < ports.nports

structure Ok (s : Duplicate α) : Prop where
  tidy : Tidy s.toPorts s.toFlags s.owed
  stored : s.push_cb = true ↔ s.owed ≠ []

variable {s s' : Duplicate α} {p : α} {answer : ℕ → Bool} {L owed : List ℕ} {i n : ℕ}
  {ports : Ports} {f : Flags}

lemma Tidy.count_eq_zero (h : Tidy ports f owed) : f.count = 0 ↔ owed = [] := by
  rw [show f.count = _ from h.wf, List.count_eq_zero, eq_nil_iff_forall_not_mem]
  refine ⟨fun hnot i hi => hnot (mem_of_getElem? ((h.flag i).mpr hi)), fun hnone hmem => ?_⟩
  obtain ⟨i, hi⟩ := mem_iff_getElem?.mp hmem
  exact hnone i ((h.flag i).mp hi)

lemma Ok.setup (n : ℕ) : (setup α n).Ok where
  tidy :=
    { compact := Ports.compact_setup n
      wf := by simp [Flags.Wf, Duplicate.setup, count_replicate]
      length := length_replicate.ge
      nodup := nodup_nil
      flag := fun i => by simp [Duplicate.setup, getElem?_replicate]
      owed := nofun }
  stored := by simp [Duplicate.setup]

lemma Tidy.unblocked (h : Tidy ports f owed) (hi : i < ports.nports) (howed : i ∉ owed) :
    f.flags[i]? = some false := by
  rw [← h.flag, List.getElem?_eq_getElem (hi.trans_le h.length)] at howed
  rw [List.getElem?_eq_getElem (hi.trans_le h.length)]
  simpa using howed

lemma Tidy.raise (h : Tidy ports f owed) (hi : i < ports.nports) (howed : i ∉ owed) :
    Tidy ports (f.raise i) (owed ++ [i]) where
  compact := h.compact
  wf := h.wf.raise (h.unblocked hi howed)
  length := by simpa [Flags.raise] using h.length
  nodup := nodup_append.mpr ⟨h.nodup, nodup_singleton i, fun j hj k hk hjk =>
    howed (mem_singleton.mp hk ▸ hjk ▸ hj)⟩
  flag j := by
    rw [mem_append, ← h.flag, Flags.raise, getElem?_set]
    have hlt := hi.trans_le h.length
    split_ifs with hij
    · simp [← hij]
    · simp [Ne.symm hij]
  owed := forall_mem_append.mpr ⟨h.owed, forall_mem_singleton.mpr hi⟩

lemma Tidy.pushAll (h : Tidy s.toPorts s.toFlags s.owed) (hL : L.Nodup)
    (hready : ∀ i ∈ L, i < s.nports ∧ i ∉ s.owed) :
    ∃ f, Duplicate.pushAll p answer L s = some { s with
        toFlags := f, output := s.output ++ L.map (·, p),
        owed := s.owed ++ L.filter (!answer ·) } ∧
      Tidy s.toPorts f (s.owed ++ L.filter (!answer ·)) := by
  induction L generalizing s with
  | nil => exact ⟨s.toFlags, by simp [Duplicate.pushAll], by simpa using h⟩
  | cons i L ih =>
    rw [nodup_cons] at hL
    rw [forall_mem_cons] at hready
    obtain ⟨⟨hi, howed⟩, hrest⟩ := hready
    unfold Duplicate.pushAll
    rw [if_pos ⟨(h.compact i).mpr hi, h.unblocked hi howed, howed⟩]
    cases hanswer : answer i with
    | true =>
      obtain ⟨f, hpush, htidy⟩ := @ih { s with output := s.output ++ [(i, p)] } h hL.2 hrest
      exact ⟨f, by simpa [hanswer] using hpush, by simpa [hanswer] using htidy⟩
    | false =>
      have hfree : ∀ j ∈ L, j ∉ s.owed ++ [i] := by
        intro j hj hmem
        rcases mem_append.mp hmem with hmem | hmem
        · exact (hrest j hj).2 hmem
        · exact hL.1 (mem_singleton.mp hmem ▸ hj)
      obtain ⟨f, hpush, htidy⟩ := @ih
        { s with output := s.output ++ [(i, p)], toFlags := s.toFlags.raise i, owed := s.owed ++ [i] }
        (h.raise hi howed) hL.2 fun j hj => ⟨(hrest j hj).1, hfree j hj⟩
      exact ⟨f, by simpa [hanswer] using hpush, by simpa [hanswer] using htidy⟩

lemma Ok.push (h : s.Ok) (hfree : s.owed = []) (p : α) (answer : ℕ → Bool) :
    ∃ r s', s.push p answer = some (r, s') ∧ r = !s'.push_cb ∧ s'.Ok ∧ s'.nports = s.nports ∧
      s'.output = s.output ++ (range s.nports).map (·, p) ∧ s'.called = s.called ∧
      s'.refused = s.refused := by
  have hcb : s.push_cb = false := by simpa [hfree] using h.stored
  obtain ⟨f, hpush, htidy⟩ := @Tidy.pushAll _ s p answer (range s.nports) h.tidy nodup_range
    fun i hi => ⟨mem_range.mp hi, hfree ▸ not_mem_nil⟩
  have hiff := htidy.count_eq_zero
  simp only [Duplicate.push, if_neg (Nat.not_lt.mpr (h.tidy.count_eq_zero.mpr hfree).le), hcb,
    if_neg Bool.false_ne_true, hpush, Option.bind_eq_bind, Option.bind_some]
  by_cases hf : f.count = 0
  · rw [if_neg (Nat.not_lt.mpr hf.le)]
    exact ⟨_, _, rfl, rfl, ⟨htidy, nofun, fun hne => absurd (hiff.mp hf) hne⟩, rfl, rfl, rfl, rfl⟩
  · rw [if_pos (Nat.pos_of_ne_zero hf)]
    exact ⟨_, _, rfl, rfl, ⟨htidy, fun _ hnil => hf (hiff.mpr hnil), fun _ => rfl⟩, rfl, rfl, rfl, rfl⟩

lemma Ok.unblock (h : s.Ok) (hi : i ∈ s.owed) :
    ∃ s', s.step (.unblock i) = some s' ∧ s'.Ok ∧ s'.nports = s.nports ∧ s'.output = s.output ∧
      s'.refused = s.refused ∧ s'.owed = s.owed.erase i ∧
      s'.called = s.called + if s'.push_cb then 0 else 1 := by
  have hlt := h.tidy.owed i hi
  obtain ⟨f, hlower, hflags, hwf⟩ := h.tidy.wf.lower (hlt.trans_le h.tidy.length)
  have hcb : s.push_cb = true := h.stored.mpr (ne_nil_of_mem hi)
  have htidy : Tidy s.toPorts f (s.owed.erase i) := by
    refine ⟨h.tidy.compact, hwf, ?_, h.tidy.nodup.erase i, fun j => ?_, fun j hj =>
      h.tidy.owed j (mem_of_mem_erase hj)⟩
    · rw [hflags, length_set]
      exact h.tidy.length
    · rw [hflags, h.tidy.nodup.mem_erase_iff, ← h.tidy.flag, getElem?_set]
      split_ifs with hij hbound
      · simp [hij]
      · simp [hij]
      · simp [Ne.symm hij]
  have hiff := htidy.count_eq_zero
  simp only [Duplicate.step, Duplicate.unblock, if_pos hlt.le, hlower, Option.bind_eq_bind,
    Option.bind_some]
  by_cases hf : f.count = 0
  · refine ⟨_, (if_pos hf).trans (if_pos hcb), ⟨htidy, ?_⟩, rfl, rfl, rfl, rfl, rfl⟩
    exact ⟨nofun, fun hne => absurd (hiff.mp hf) hne⟩
  · exact ⟨_, if_neg hf, ⟨htidy, fun _ hnil => hf (hiff.mpr hnil), fun _ => hcb⟩, rfl, rfl, rfl, rfl,
      by simp [hcb]⟩

/-! ## The static element -/

lemma step_push {r : Bool} (hpush : s.push p answer = some (r, s')) : s.step (.push p answer) =
    some { s' with refused := s'.refused + if r then 0 else 1 } := by
  simp [Duplicate.step, hpush]

lemma toOutput_of_range (hi : i < n) (houtput : s'.output = s.output ++ (range n).map (·, p)) :
    s'.toOutput i = s.toOutput i ++ [p] := by
  have hone : ((range n).map (·, p)).filter (·.1 = i) = [(i, p)] := by
    rw [filter_map, show ((fun x : ℕ × α => decide (x.1 = i)) ∘ (·, p)) = (· == i) from
      rfl, filter_beq]
    simp [hi]
  rw [toOutput, houtput, filter_append, hone, map_append]
  rfl

/-- What each output got is what was pushed, and every 0 but the last was followed by a call. -/
structure Served (n : ℕ) (pushed : List α) (s : Duplicate α) : Prop where
  ok : s.Ok
  nports : s.nports = n
  delivered : ∀ i < n, s.toOutput i = pushed
  called : s.refused = s.called + if s.push_cb then 1 else 0

lemma Served.step {pushed : List α} (h : Served n pushed s) {e : Event α} (he : s.Allowed e) :
    ∃ s', s.step e = some s' ∧ Served n (pushed ++ e.pushed) s' := by
  cases e with
  | push p answer =>
    have hcb : s.push_cb = false := by
      have := h.called
      rw [show s.called = s.refused from he] at this
      simpa using this
    have hfree : s.owed = [] := not_not.mp fun hne => by simp [h.ok.stored.mpr hne] at hcb
    obtain ⟨r, s', hpush, rfl, hok, hnports, houtput, hcalled, hrefused⟩ := h.ok.push hfree p answer
    refine ⟨_, step_push hpush, ⟨hok.tidy, hok.stored⟩, hnports.trans h.nports, fun i hi => ?_, ?_⟩
    · exact (toOutput_of_range (h.nports.symm ▸ hi) houtput).trans (by rw [h.delivered i hi]; rfl)
    · rw [hrefused, hcalled, show s.called = s.refused from he]
      cases s'.push_cb <;> rfl
  | unblock i =>
    obtain ⟨s', hstep, hok, hnports, houtput, hrefused, -, hcalled⟩ := h.ok.unblock he
    refine ⟨s', hstep, hok, hnports.trans h.nports, fun j hj => ?_, ?_⟩
    · rw [toOutput, houtput, show pushed ++ Event.pushed (.unblock i) = pushed from append_nil _]
      exact h.delivered j hj
    · rw [hrefused, hcalled, h.called, h.ok.stored.mpr (ne_nil_of_mem he)]
      cases s'.push_cb <;> rfl

/-- **The static element is lossless**: no assertion fails, every output gets every tuple once and in
order, and each 0 is followed by one call of the pusher, when the last output has called back. -/
theorem duplicate_lossless (n : ℕ) (events : List (Event α))
    (h : Permitted step Allowed (setup α n) events) :
    ∃ s, events.foldlM step (setup α n) = some s ∧
      (∀ i < n, s.toOutput i = events.flatMap Event.pushed) ∧
      (s.owed = [] → s.called = s.refused) ∧ (s.owed ≠ [] → s.called + 1 = s.refused) := by
  obtain ⟨s, hrun, hs⟩ := h.run_events (fun events s => Served n (events.flatMap Event.pushed) s)
    (fun events s e hs he => by simpa using hs.step he) ⟨Ok.setup n, rfl, fun i _ => rfl, rfl⟩
  refine ⟨s, hrun, hs.delivered, fun hnil => ?_, fun hne => ?_⟩
  · have hcb : s.push_cb = false := by simpa [hnil] using hs.ok.stored
    simp [hs.called, hcb]
  · simp [hs.called, hs.ok.stored.mpr hne]

theorem duplicate_lossless_two : ∃ s : Duplicate ℕ,
    [.push 5 fun i => i = 0, .unblock 1].foldlM step (setup ℕ 2) = some s ∧
      (∀ i < 2, s.toOutput i = [5]) ∧ s.refused = 1 ∧ s.called = 1 := by
  obtain ⟨s, hrun, hall, hcalled, -⟩ := duplicate_lossless 2 [.push 5 fun i => i = 0, .unblock 1]
    ⟨rfl, fun s' hs' => ⟨by cases hs'; exact mem_cons_self, fun _ _ => trivial⟩⟩
  refine ⟨s, hrun, hall, ?_⟩
  cases hrun
  exact ⟨rfl, hcalled rfl⟩

/-! ## The dynamic element -/

lemma Ok.dStep (s : Duplicate α) (e : DEvent α) (h : s.Ok) (he : s.DAllowed e ∧ s.RemovesLast e) :
    ∃ s', s.dStep e = some s' ∧ s'.Ok := by
  cases e with
  | common e =>
    cases e with
    | push p answer =>
      by_cases hfree : s.owed = []
      · obtain ⟨r, s', hpush, -, hok, -⟩ := h.push hfree p answer
        exact ⟨_, step_push hpush, hok.tidy, hok.stored⟩
      · have hpos : 0 < s.count := Nat.pos_of_ne_zero fun h0 => hfree (h.tidy.count_eq_zero.mp h0)
        have hcb := h.stored.mpr hfree
        refine ⟨_, step_push ((if_pos hpos).trans (if_pos hcb)), h.tidy, h.stored⟩
    | unblock i =>
      obtain ⟨s', hstep, hok, -⟩ := h.unblock he.1
      exact ⟨s', hstep, hok⟩
  | add_output =>
    obtain ⟨ports, hadd, hnports, hcompact⟩ := h.tidy.compact.add
    refine ⟨{ s with toPorts := ports, flags := s.flags ++ [false] },
      by simp [Duplicate.dStep, Duplicate.add_output, hadd], ⟨hcompact, ?_, ?_, h.tidy.nodup,
        fun i => ?_, fun i hi => ?_⟩, h.stored⟩
    · rw [Flags.Wf, count_append]
      exact h.tidy.wf
    · rw [length_append, hnports]
      exact Nat.succ_le_succ h.tidy.length
    · rw [← h.tidy.flag, getElem?_append]
      split_ifs with hlt
      · rfl
      · rw [List.getElem?_eq_none (not_lt.mp hlt), getElem?_singleton]
        split_ifs <;> simp
    · rw [hnports]
      exact (h.tidy.owed i hi).trans (Nat.lt_succ_self _)
  | remove_output port =>
    obtain ⟨hlast, howed⟩ := he.2
    obtain ⟨ports, hdelete, hnports, hcompact⟩ := h.tidy.compact.delete hlast
    refine ⟨{ s with toPorts := ports }, by simp [Duplicate.dStep, Duplicate.remove_output, hdelete],
      ⟨hcompact, h.tidy.wf, ?_, h.tidy.nodup, h.tidy.flag, fun i hi => ?_⟩, h.stored⟩
    · have := h.tidy.length
      simp only [hnports]
      omega
    · have hlt := h.tidy.owed i hi
      have hne : i ≠ port := fun heq => howed (heq ▸ hi)
      simp only [hnports]
      omega

/-- **The dynamic element reaches every live output** where only the last output is removed, and not
while it is blocked: a tuple that is accepted is pushed to the live outputs, and once these have
called back no callback is stored. When the last of them calls back, the pusher is called. -/
theorem dDuplicate_reaches (n : ℕ) (events : List (DEvent α))
    (h : Permitted dStep (fun s e => s.DAllowed e ∧ s.RemovesLast e) (setup α n) events) :
    ∃ s, events.foldlM dStep (setup α n) = some s ∧
      (s.count = 0 → ∀ p answer, ∃ r s', s.push p answer = some (r, s') ∧
        s'.output = s.output ++ ((range s.ports.length).filter (s.Live ·)).map (·, p)) ∧
      ((∀ i, s.Live i → i ∉ s.owed) → s.push_cb = false) ∧
      ∀ i, s.owed = [i] → ∃ s', s.dStep (.common (.unblock i)) = some s' ∧
        s'.push_cb = false ∧ s'.called = s.called + 1 := by
  obtain ⟨s, hrun, hok⟩ := h.run Ok.dStep (Ok.setup n)
  refine ⟨s, hrun, fun hcount p answer => ?_, fun hnone => ?_, fun i howed => ?_⟩
  · obtain ⟨r, s', hpush, -, -, -, houtput, -⟩ :=
      hok.push (hok.tidy.count_eq_zero.mp hcount) p answer
    refine ⟨r, s', hpush, ?_⟩
    rw [houtput]
    obtain ⟨k, hk⟩ := Nat.exists_eq_add_of_le hok.tidy.compact.nports_le
    rw [hk, range_add, filter_append, filter_eq_self.mpr, filter_eq_nil_iff.mpr, append_nil]
    · intro i hi
      obtain ⟨j, -, rfl⟩ := mem_map.mp hi
      simp [hok.tidy.compact _]
    · intro i hi
      simpa [hok.tidy.compact i] using hi
  · rw [Bool.eq_false_iff, ne_eq, hok.stored, not_not]
    refine eq_nil_iff_forall_not_mem.mpr fun i hi => hnone i ?_ hi
    exact (hok.tidy.compact i).mpr (hok.tidy.owed i hi)
  · obtain ⟨s', hstep, hok', -, -, -, hless, hcalled⟩ := hok.unblock (howed ▸ mem_singleton_self i)
    have hcb : s'.push_cb = false := by simpa [hless, howed] using hok'.stored
    exact ⟨s', hstep, hcb, by simpa [hcb] using hcalled⟩

theorem dDuplicate_reaches_add : ∃ s : Duplicate ℕ,
    [.remove_output 1, .add_output, .common (.push 5 fun i => i = 0)].foldlM dStep (setup ℕ 2) = some s ∧
      s.output = [(0, 5), (1, 5)] ∧ s.owed = [1] ∧
      ∃ s', s.dStep (.common (.unblock 1)) = some s' ∧ s'.push_cb = false ∧ s'.called = 1 := by
  obtain ⟨s, hrun, -, -, hlast⟩ := dDuplicate_reaches 2
    [.remove_output 1, .add_output, .common (.push 5 fun i => i = 0)]
    ⟨⟨rfl, rfl, not_mem_nil⟩, fun _ _ => ⟨⟨trivial, trivial⟩, fun _ _ => ⟨⟨trivial, trivial⟩,
      fun _ _ => trivial⟩⟩⟩
  refine ⟨s, hrun, ?_⟩
  cases hrun
  exact ⟨rfl, rfl, hlast 1 rfl⟩

/-- The first of two outputs is removed, and the next push uses it. A blocked output is removed, and
the pusher is not called although no live output is blocked. -/
theorem dDuplicate_removal : [.remove_output 0, .common (.push 5 fun _ => true)].foldlM dStep
      (setup ℕ 2) = none ∧
    ∃ s : Duplicate ℕ, [.common (.push 5 fun i => i = 0), .remove_output 1].foldlM dStep
      (setup ℕ 2) = some s ∧ s.Live 0 ∧ s.nports = 1 ∧ s.owed = [1] ∧ s.push_cb = true :=
  ⟨rfl, _, rfl, rfl, rfl, rfl, rfl⟩

end Duplicate

end P2.Elements
