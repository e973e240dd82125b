import Mathlib.Data.List.Nodup
import Mathlib.Order.Nat
import P2.Lib.Runs

/-!
# Timed callbacks

`timeCBCatchup` invokes the callbacks whose time has come, in the order of their times
(`invoked_in_order`). A callback may schedule others and cancel them, and the clock goes on while it
runs.
-/

namespace P2.Core.Loop

open P2.Lib List

structure Handle where
  time : ℕ
  ID : ℕ
  active : Bool

def Handle.Less (a b : Handle) : Prop := a.time < b.time ∨ a.time = b.time ∧ a.ID < b.ID

instance (a b : Handle) : Decidable (a.Less b) := inferInstanceAs (Decidable (_ ∨ _))

/-- `callbacks.insert`, for a handle that is not there. -/
def insert (h : Handle) : List Handle → List Handle
  | [] => [h]
  | g :: l => if h.Less g then h :: g :: l else g :: insert h l

/-- The queue and the loop. `invoked` and `cancelled` record what happened; no operation reads them. -/
structure State where
  clock : ℕ := 0
  passed : List Handle := []
  /-- The handles from the iterator on; all of them outside of the loop. -/
  rest : List Handle := []
  nextID : ℕ := 0
  looping : Bool := false
  now : ℕ := 0
  invoked : List ℕ := []
  cancelled : List ℕ := []

namespace State

def queue (s : State) : List Handle := s.passed ++ s.rest

def Front (s : State) (h : Handle) : Prop := s.looping = true ∧ ∀ g ∈ s.rest.head?, h.Less g

instance (s : State) (h : Handle) : Decidable (s.Front h) := inferInstanceAs (Decidable (_ ∧ _))

def handle (delay : ℕ) (s : State) : Handle := ⟨s.clock + delay, s.nextID, true⟩

def delayCB (delay : ℕ) (s : State) : State :=
  let h := s.handle delay
  { s with nextID := s.nextID + 1
           passed := if s.Front h then insert h s.passed else s.passed
           rest := if s.Front h then s.rest else insert h s.rest }

def mark (ID : ℕ) (h : Handle) : Handle := if h.ID = ID then { h with active := false } else h

def timeCBRemove (ID : ℕ) (s : State) : State :=
  { s with passed := s.passed.map (mark ID)
           rest := s.rest.map (mark ID)
           cancelled := if ID < s.nextID then s.cancelled ++ [ID] else s.cancelled }

inductive Action where
  | advance (d : ℕ)
  | delayCB (delay : ℕ)
  | timeCBRemove (ID : ℕ)

def act (s : State) : Action → State
  | .advance d => { s with clock := s.clock + d }
  | .delayCB delay => s.delayCB delay
  | .timeCBRemove ID => s.timeCBRemove ID

def enter (s : State) : State :=
  { s with passed := [], rest := s.queue, looping := true, now := s.clock }

/-- One round of the loop; the callback, if it is invoked, does as given. -/
def iterate (actions : List Action) (s : State) : Option State :=
  match s.rest with
  | [] => none
  | h :: rest =>
    let s := { s with rest }
    let s := if h.active then actions.foldl act { s with invoked := s.invoked ++ [h.ID] } else s
    some { s with now := s.clock }

def leave (s : State) : State :=
  { s with passed := [], rest := s.queue.filter (·.active), looping := false }

inductive Event where
  | act (a : Action)
  | enter
  | iterate (actions : List Action)
  | leave

def step (s : State) : Event → Option State
  | .act a => some (s.act a)
  | .enter => some s.enter
  | .iterate actions => s.iterate actions
  | .leave => some s.leave

def Due (s : State) (h : Handle) (rest : List Handle) : Prop :=
  s.looping = true ∧ s.rest = h :: rest ∧ h.time ≤ s.now

/-- The loop goes on as long as the callback at the iterator is due. -/
def Allowed (s : State) : Event → Prop
  | .act _ | .enter => s.looping = false
  | .iterate _ => ∃ h rest, s.Due h rest
  | .leave => s.looping = true ∧ ∀ h rest, ¬ s.Due h rest

def clockAfter (clock : ℕ) : List Action → ℕ
  | [] => clock
  | .advance d :: actions => clockAfter (clock + d) actions
  | _ :: actions => clockAfter clock actions

def scheduled (clock : ℕ) : List Action → List ℕ
  | [] => []
  | .advance d :: actions => scheduled (clock + d) actions
  | .delayCB delay :: actions => (clock + delay) :: scheduled clock actions
  | .timeCBRemove _ :: actions => scheduled clock actions

/-- Where a callback schedules others before the time of the one that comes next, that one is not due
when the callback returns. -/
def Timely (s : State) : Event → Prop
  | .iterate actions => ∀ g ∈ s.rest.tail.head?,
      (∀ time ∈ scheduled s.clock actions, g.time ≤ time) ∨ clockAfter s.clock actions < g.time
  | _ => True

/-! ## The queue -/

variable {s : State} {g h : Handle} {l passed rest : List Handle}

lemma perm_insert : (insert h l).Perm (h :: l) := by
  induction l with
  | nil => exact .refl _
  | cons a l ih =>
    unfold insert
    split_ifs
    · exact .refl _
    · exact (ih.cons a).trans (.swap h a l)

lemma mem_insert : g ∈ insert h l ↔ g = h ∨ g ∈ l := perm_insert.mem_iff.trans mem_cons

lemma less_trans {a b c : Handle} (hab : a.Less b) (hbc : b.Less c) : a.Less c := by
  unfold Handle.Less at *
  omega

lemma less_or_less (hne : g.ID ≠ h.ID) : g.Less h ∨ h.Less g := by
  unfold Handle.Less
  omega

lemma pairwise_insert (hl : l.Pairwise Handle.Less) (hne : ∀ g ∈ l, g.ID ≠ h.ID) :
    (insert h l).Pairwise Handle.Less := by
  induction l with
  | nil => exact pairwise_singleton _ _
  | cons a l ih =>
    rw [forall_mem_cons] at hne
    unfold insert
    split_ifs with hlt
    · refine pairwise_cons.mpr ⟨forall_mem_cons.mpr ⟨hlt, fun b hb => ?_⟩, hl⟩
      exact less_trans hlt ((pairwise_cons.mp hl).1 b hb)
    · rw [pairwise_cons] at hl ⊢
      refine ⟨fun b hb => ?_, ih hl.2 hne.2⟩
      rcases mem_insert.mp hb with rfl | hb
      · exact (less_or_less hne.1).resolve_right hlt
      · exact hl.1 b hb

lemma insert_append_left (hrest : ∀ g ∈ rest.head?, h.Less g) :
    insert h (passed ++ rest) = insert h passed ++ rest := by
  induction passed with
  | nil =>
    cases rest with
    | nil => rfl
    | cons g rest => exact if_pos (hrest g rfl)
  | cons a passed ih =>
    simp only [cons_append, insert, ih]
    split_ifs <;> rfl

lemma insert_append_right (hpassed : ∀ g ∈ passed, ¬ h.Less g) :
    insert h (passed ++ rest) = passed ++ insert h rest := by
  induction passed with
  | nil => rfl
  | cons a passed ih =>
    rw [forall_mem_cons] at hpassed
    rw [cons_append, insert, if_neg hpassed.1, ih hpassed.2]
    rfl

/-! ## The invariant -/

/-- Handles are in order, under different IDs, not invoked yet, and inactive if they were
cancelled. -/
structure Ok (s : State) : Prop where
  sorted : s.queue.Pairwise Handle.Less
  distinct : (s.queue.map (·.ID)).Nodup
  waiting : ∀ h ∈ s.queue, h.ID < s.nextID ∧ h.ID ∉ s.invoked ∧ (h.ID ∈ s.cancelled → h.active = false)
  known : ∀ i ∈ s.invoked ++ s.cancelled, i < s.nextID
  outside : s.looping = false → s.passed = []

def Stops (s : State) : Prop := s.looping = true → s.passed ≠ [] → ∀ g ∈ s.rest.head?, s.now < g.time

lemma queue_delayCB (h : s.Ok) (delay : ℕ) :
    (s.delayCB delay).queue = insert (s.handle delay) s.queue := by
  simp only [queue, delayCB]
  split_ifs with hfront
  · exact (insert_append_left hfront.2).symm
  · refine (insert_append_right fun g hg hless => hfront ⟨?_, fun a ha => ?_⟩).symm
    · rw [← Bool.not_eq_false]
      exact fun hout => absurd (h.outside hout ▸ hg) not_mem_nil
    · exact less_trans hless ((pairwise_append.mp h.sorted).2.2 g hg a (mem_of_mem_head? ha))

lemma Ok.delayCB (h : s.Ok) (delay : ℕ) : (s.delayCB delay).Ok := by
  have hqueue := queue_delayCB h delay
  have hfresh : s.nextID ∉ s.invoked ++ s.cancelled := fun hmem => lt_irrefl _ (h.known _ hmem)
  rw [mem_append, not_or] at hfresh
  refine ⟨?_, ?_, fun g hg => ?_, fun i hi => (h.known i hi).trans (Nat.lt_succ_self _),
    fun hout => ?_⟩
  · rw [hqueue]
    exact pairwise_insert h.sorted fun g hg => ((h.waiting g hg).1).ne
  · rw [hqueue, (perm_insert.map _).nodup_iff, map_cons, nodup_cons]
    refine ⟨fun hmem => ?_, h.distinct⟩
    obtain ⟨g, hg, heq⟩ := mem_map.mp hmem
    exact ((h.waiting g hg).1).ne heq
  · rw [hqueue] at hg
    rcases mem_insert.mp hg with rfl | hg
    · exact ⟨Nat.lt_succ_self _, hfresh.1, fun hmem => absurd hmem hfresh.2⟩
    · exact ⟨((h.waiting g hg).1).trans (Nat.lt_succ_self _), (h.waiting g hg).2⟩
  · have hnot : ¬ s.Front (s.handle delay) := fun hfront => by
      exact absurd (hfront.1.symm.trans hout) nofun
    exact (if_neg hnot).trans (h.outside hout)

lemma mark_ID (ID : ℕ) (h : Handle) : (mark ID h).ID = h.ID ∧ (mark ID h).time = h.time := by
  unfold mark
  split_ifs <;> exact ⟨rfl, rfl⟩

lemma Ok.timeCBRemove (h : s.Ok) (ID : ℕ) : (s.timeCBRemove ID).Ok := by
  have hqueue : (s.timeCBRemove ID).queue = s.queue.map (mark ID) := (map_append ..).symm
  have hcancelled : ∀ i, i ∈ (s.timeCBRemove ID).cancelled →
      i ∈ s.cancelled ∨ i = ID ∧ ID < s.nextID := by
    intro i hi
    simp only [State.timeCBRemove] at hi
    split_ifs at hi with hlt
    · simpa [hlt] using hi
    · exact Or.inl hi
  refine ⟨?_, ?_, fun g hg => ?_, fun i hi => ?_, fun hout => ?_⟩
  · rw [hqueue, pairwise_map]
    refine h.sorted.imp fun {a b} hab => ?_
    unfold Handle.Less at hab ⊢
    rwa [(mark_ID ID a).1, (mark_ID ID a).2, (mark_ID ID b).1, (mark_ID ID b).2]
  · have hIDs : s.queue.map ((·.ID) ∘ mark ID) = s.queue.map (·.ID) :=
      map_congr_left fun a _ => (mark_ID ID a).1
    rw [hqueue, map_map, hIDs]
    exact h.distinct
  · obtain ⟨a, ha, rfl⟩ := mem_map.mp (hqueue ▸ hg)
    rw [(mark_ID ID a).1]
    refine ⟨(h.waiting a ha).1, (h.waiting a ha).2.1, fun hmem => ?_⟩
    unfold mark
    split_ifs with heq
    · rfl
    · exact (h.waiting a ha).2.2 ((hcancelled _ hmem).resolve_right fun h => heq h.1)
  · rcases mem_append.mp hi with hi | hi
    · exact h.known i (mem_append_left _ hi)
    · rcases hcancelled i hi with hi | ⟨rfl, hlt⟩
      · exact h.known i (mem_append_right _ hi)
      · exact hlt
  · simp [State.timeCBRemove, h.outside hout]

lemma Ok.act (h : s.Ok) (a : Action) : (s.act a).Ok := by
  cases a with
  | advance d => exact ⟨h.sorted, h.distinct, h.waiting, h.known, h.outside⟩
  | delayCB delay => exact h.delayCB delay
  | timeCBRemove ID => exact h.timeCBRemove ID

/-! ## A round of the loop -/

/-- Where a callback is scheduled while the loop runs: the callback at the iterator stays the same,
and nothing is passed over that is not before it. -/
lemma delayCB_spec (h : s.Ok) (hloop : s.looping = true) (delay : ℕ) :
    (s.delayCB delay).rest.head? = s.rest.head? ∧
      (∀ g ∈ s.rest.head?, g.time ≤ s.clock + delay → (s.delayCB delay).passed = s.passed) := by
  simp only [delayCB]
  cases hrest : s.rest with
  | nil =>
    have hfront : s.Front (s.handle delay) := ⟨hloop, by simp [hrest]⟩
    simp [hfront]
  | cons g rest =>
    have hg := (h.waiting g (mem_append_right _ (hrest ▸ mem_cons_self))).1
    by_cases hless : (s.handle delay).Less g
    · have hfront : s.Front (s.handle delay) := ⟨hloop, by simpa [hrest] using hless⟩
      refine ⟨by rw [if_pos hfront], fun a ha hle => ?_⟩
      cases ha
      unfold Handle.Less handle at hless
      simp only at hless
      omega
    · have hfront : ¬ s.Front (s.handle delay) := fun hf => hless (hf.2 g (by rw [hrest]; rfl))
      rw [if_neg hfront, if_neg hfront, insert, if_neg hless]
      exact ⟨rfl, fun _ _ _ => rfl⟩

lemma Ok.foldl_act (h : s.Ok) (hloop : s.looping = true) (actions : List Action) :
    (actions.foldl State.act s).Ok ∧ (actions.foldl State.act s).looping = true ∧
      (actions.foldl State.act s).clock = clockAfter s.clock actions ∧
      (actions.foldl State.act s).rest.head?.map (·.time) = s.rest.head?.map (·.time) ∧
      ∀ T, s.rest.head?.map (·.time) = some T → (∀ time ∈ scheduled s.clock actions, T ≤ time) →
        s.passed = [] → (actions.foldl State.act s).passed = [] := by
  induction actions generalizing s with
  | nil => exact ⟨h, hloop, rfl, rfl, fun _ _ _ hnil => hnil⟩
  | cons a actions ih =>
    have hok := h.act a
    cases a with
    | advance d => exact ih hok hloop
    | delayCB delay =>
      obtain ⟨hhead, hpassed⟩ := delayCB_spec h hloop delay
      obtain ⟨hok', hloop', hclock, htime, hkeep⟩ := ih hok hloop
      refine ⟨hok', hloop', hclock, htime.trans (congrArg _ hhead), fun T hT hle hnil => ?_⟩
      obtain ⟨g, hg, hgT⟩ := Option.map_eq_some_iff.mp hT
      refine hkeep T ((congrArg _ hhead).trans hT) (fun t ht => hle t (mem_cons_of_mem _ ht)) ?_
      exact (hpassed g hg (hgT ▸ hle _ mem_cons_self)).trans hnil
    | timeCBRemove ID =>
      obtain ⟨hok', hloop', hclock, htime, hkeep⟩ := ih hok hloop
      have hhead : (s.timeCBRemove ID).rest.head?.map (·.time) = s.rest.head?.map (·.time) := by
        simp only [State.timeCBRemove, head?_map, Option.map_map]
        exact congrArg (Option.map · _) (funext fun a => (mark_ID ID a).2)
      refine ⟨hok', hloop', hclock, htime.trans hhead, fun T hT hle hnil => ?_⟩
      refine hkeep T (hhead.trans hT) hle ?_
      simp [State.act, State.timeCBRemove, hnil]

lemma Stops.passed_eq_nil (h : s.Stops) {a : Handle} (hdue : s.Due a rest) : s.passed = [] := by
  obtain ⟨hloop, hrest, hdue⟩ := hdue
  by_contra hne
  have := h hloop hne a (by rw [hrest]; rfl)
  omega

lemma Ok.take (h : s.Ok) {a : Handle} (hrest : s.rest = a :: rest) (hpassed : s.passed = []) :
    Ok { s with rest, invoked := s.invoked ++ [a.ID] } ∧ Ok { s with rest } := by
  have hqueue : s.queue = a :: rest := by rw [queue, hpassed, hrest, nil_append]
  have ha := h.waiting a (hqueue ▸ mem_cons_self)
  have hsub : s.passed ++ rest = rest := by rw [hpassed, nil_append]
  have hsorted : (s.passed ++ rest).Pairwise Handle.Less := by
    rw [hsub]
    exact (pairwise_cons.mp (hqueue ▸ h.sorted)).2
  have hdistinct := h.distinct
  rw [hqueue, map_cons, nodup_cons] at hdistinct
  have hIDs : ((s.passed ++ rest).map (·.ID)).Nodup := by
    rw [hsub]
    exact hdistinct.2
  have hwaiting : ∀ g ∈ s.passed ++ rest, g.ID < s.nextID ∧ g.ID ∉ s.invoked ∧
      (g.ID ∈ s.cancelled → g.active = false) := by
    intro g hg
    rw [hsub] at hg
    exact h.waiting g (hqueue ▸ mem_cons_of_mem _ hg)
  refine ⟨⟨hsorted, hIDs, fun g hg => ?_, fun i hi => ?_, h.outside⟩,
    ⟨hsorted, hIDs, hwaiting, h.known, h.outside⟩⟩
  · refine ⟨(hwaiting g hg).1, fun hmem => ?_, (hwaiting g hg).2.2⟩
    rcases mem_append.mp hmem with hmem | hmem
    · exact (hwaiting g hg).2.1 hmem
    · exact hdistinct.1 (mem_singleton.mp hmem ▸ mem_map_of_mem (hsub ▸ hg))
  · simp only [mem_append, mem_singleton] at hi
    rcases hi with (hi | rfl) | hi
    · exact h.known i (mem_append_left _ hi)
    · exact ha.1
    · exact h.known i (mem_append_right _ hi)

lemma Ok.iterate (h : s.Ok) (hstops : s.Stops) {a : Handle} (hdue : s.Due a rest)
    {actions : List Action} (htimely : s.Timely (.iterate actions)) :
    ∃ s', s.iterate actions = some s' ∧ s'.Ok ∧ s'.Stops := by
  have hpassed := hstops.passed_eq_nil hdue
  obtain ⟨hloop, hrest, -⟩ := hdue
  obtain ⟨hfree, hskip⟩ := h.take hrest hpassed
  cases hactive : a.active with
  | false =>
    simp only [State.iterate, hrest, hactive, Bool.false_eq_true, if_false]
    exact ⟨_, rfl, ⟨hskip.sorted, hskip.distinct, hskip.waiting, hskip.known, hskip.outside⟩,
      fun _ hne => absurd hpassed hne⟩
  | true =>
    simp only [State.iterate, hrest, hactive, if_true]
    obtain ⟨hok, -, hclock, htime, hkeep⟩ := hfree.foldl_act hloop actions
    refine ⟨_, rfl, ⟨hok.sorted, hok.distinct, hok.waiting, hok.known, hok.outside⟩,
      fun _ hne g hg => ?_⟩
    have hT : rest.head?.map (·.time) = some g.time := htime.symm.trans (congrArg _ hg)
    obtain ⟨b, hb, hbtime⟩ := Option.map_eq_some_iff.mp hT
    have htail := htimely b (by rw [hrest]; exact hb)
    rw [hbtime] at htail
    rcases htail with htail | htail
    · exact absurd (hkeep g.time hT htail hpassed) hne
    · exact hclock.symm ▸ htail

lemma Ok.step (s : State) (e : Event) (h : s.Ok ∧ s.Stops) (he : s.Allowed e ∧ s.Timely e) :
    ∃ s', s.step e = some s' ∧ s'.Ok ∧ s'.Stops := by
  obtain ⟨h, hstops⟩ := h
  obtain ⟨hallowed, htimely⟩ := he
  cases e with
  | act a =>
    have hloop : (s.act a).looping = s.looping := by cases a <;> rfl
    refine ⟨_, rfl, h.act a, fun hlooping => ?_⟩
    rw [hloop, show s.looping = false from hallowed] at hlooping
    cases hlooping
  | enter =>
    exact ⟨_, rfl, ⟨h.sorted, h.distinct, h.waiting, h.known, nofun⟩, fun _ hne => absurd rfl hne⟩
  | leave =>
    have hsub : (s.queue.filter (·.active)).Sublist s.queue := filter_sublist
    exact ⟨_, rfl, ⟨h.sorted.sublist hsub, h.distinct.sublist (hsub.map _),
      fun g hg => h.waiting g (hsub.subset hg), h.known, fun _ => rfl⟩, nofun⟩
  | iterate actions =>
    obtain ⟨a, rest, hdue⟩ := hallowed
    exact h.iterate hstops hdue htimely

/-- **Callbacks are invoked in order** where nothing is scheduled in front of a callback that is due
by then: whenever one is invoked, the active ones that wait come later, it was not cancelled and not
invoked before. -/
theorem invoked_in_order (events : List Event)
    (h : Permitted step (fun s e => s.Allowed e ∧ s.Timely e) {} events) :
    ∃ s, events.foldlM step {} = some s ∧ ∀ a rest, s.Due a rest → a.active = true →
      (∀ g ∈ s.passed ++ rest, g.active = true → a.Less g) ∧ a.ID ∉ s.cancelled ∧
      a.ID ∉ s.invoked := by
  obtain ⟨s, hrun, hok, hstops⟩ := h.run Ok.step
    ⟨⟨Pairwise.nil, nodup_nil, nofun, nofun, fun _ => rfl⟩, nofun⟩
  refine ⟨s, hrun, ?_⟩
  intro a rest hdue hactive
  have hpassed := hstops.passed_eq_nil hdue
  obtain ⟨-, hrest, -⟩ := hdue
  have hqueue : s.queue = a :: rest := by rw [queue, hpassed, hrest, nil_append]
  obtain ⟨-, hinvoked, hcancelled⟩ := hok.waiting a (hqueue ▸ mem_cons_self)
  refine ⟨fun g hg _ => ?_, fun hmem => ?_, hinvoked⟩
  · rw [hpassed] at hg
    exact (pairwise_cons.mp (hqueue ▸ hok.sorted)).1 g hg
  · rw [hcancelled hmem] at hactive
    cases hactive

theorem invoked_in_order_twice : ∃ s a, [.act (.delayCB 0), .act (.delayCB 0), .enter,
      .iterate [.delayCB 3]].foldlM step {} = some s ∧ s.Due a [⟨3, 2, true⟩] ∧ s.invoked = [0] ∧
    a.ID ∉ s.invoked := by
  obtain ⟨s, hrun, hs⟩ := invoked_in_order
    [.act (.delayCB 0), .act (.delayCB 0), .enter, .iterate [.delayCB 3]] (by
      refine ⟨⟨rfl, trivial⟩, fun s₁ h₁ => ?_⟩
      cases h₁
      refine ⟨⟨rfl, trivial⟩, fun s₂ h₂ => ?_⟩
      cases h₂
      refine ⟨⟨rfl, trivial⟩, fun s₃ h₃ => ?_⟩
      cases h₃
      refine ⟨⟨⟨_, _, rfl, rfl, le_rfl⟩, ?_⟩, fun _ _ => trivial⟩
      rintro g ⟨⟩
      exact Or.inl (by decide))
  cases hrun
  have hlast := hs ⟨0, 1, true⟩ [⟨3, 2, true⟩] ⟨rfl, rfl, le_rfl⟩ rfl
  exact ⟨_, _, rfl, ⟨rfl, rfl, le_rfl⟩, rfl, hlast.2.2⟩

/-- The callback of time 1 schedules one for time 10, and returns when the one of time 12 is due: it
is invoked while the one of time 10 waits. -/
theorem invoked_out_of_order : ∃ s, [.act (.delayCB 1), .act (.delayCB 12), .act (.advance 10), .enter,
      .iterate [.delayCB 0, .advance 5]].foldlM step {} = some s ∧
    s.Due ⟨12, 1, true⟩ [] ∧ s.passed = [⟨10, 2, true⟩] :=
  ⟨_, rfl, ⟨rfl, rfl, by decide⟩, rfl⟩

end State

end P2.Core.Loop
