import P2.Lib.KeyedTree
import P2.Lib.Runs
import P2.Value.Order

/-!
# Rate control

`RateCCT` releases a tuple while fewer than `trate_` pairs of a destination and a sequence number
are in its index. Each release sets a timer; the index keeps the timer with which a pair came in.

* `RateCCT.feedback` computes the rate from what an acknowledgement says.
* `RateCCT.flights` reads off what happened which pairs are in transit.
* `RateCCT.rate_counts_transit`: the index has these pairs, and they alone hold up a release.
-/

namespace P2.Net

open P2.Value P2.Lib List SearchTree

abbrev Pair := Value × Int64

namespace Pair

def before (a b : Pair) : Bool := comparator a.1 b.1 || !comparator b.1 a.1 && decide (a.2 < b.2)

def same (a b : Pair) : Bool := compareTo a.1 b.1 == .eq && a.2 == b.2

variable {S : Set Value}

lemma strictWeak_before (hS : LawfulOn S) : StrictWeak before {p | p.1 ∈ S} where
  asymm a ha b hb hab := by
    have hasymm := hS.strictWeak.asymm a.1 ha b.1 hb
    simp only [before, Bool.or_eq_true, Bool.and_eq_true, Bool.not_eq_true', decide_eq_true_eq]
      at hab ⊢
    grind
  not_lt_trans a ha b hb c hc hab hbc := by
    have habc := hS.strictWeak.not_lt_trans a.1 ha b.1 hb c.1 hc
    have hcab := hS.strictWeak.not_lt_trans c.1 hc a.1 ha b.1 hb
    have hbca := hS.strictWeak.not_lt_trans b.1 hb c.1 hc a.1 ha
    simp only [before, Bool.or_eq_true, Bool.and_eq_true, Bool.not_eq_true', decide_eq_true_eq]
      at hab hbc ⊢
    grind

lemma same_iff (hS : LawfulOn S) {a b : Pair} (ha : a.1 ∈ S) (hb : b.1 ∈ S) :
    same a b ↔ before b a = false ∧ before a b = false := by
  have heq := hS.eq_iff_not_comparator ha hb
  simp only [same, before, Bool.and_eq_true, beq_iff_eq, ← heq, Bool.or_eq_false_iff,
    Bool.not_eq_true', Bool.and_eq_false_iff, Bool.not_eq_false', decide_eq_false_iff_not]
  grind

end Pair

inductive RateCCT.Happening
  | released (pair : Pair) (timer : ℕ)
  | acknowledged (pair : Pair)
  | fired (timer : ℕ)

/-- The arithmetic in `double` of `feedback`, whose results are cut off to 32 bits. -/
structure RateCCT.Fpu where
  /-- `RTT_FILTER * rtt_ + (1. - RTT_FILTER) * rt` -/
  filter (rtt rt : UInt32) : UInt32
  /-- `1000. / (rtt_ * f)`, where `f` is `sqrt(2.*p/3.) + (12.*sqrt(3.*p/8.) * p * (1.+32*pow(p, 2)))` -/
  X_calc (rtt : UInt32) (p : Int64) : UInt32

/-- The element; timers are named by the order in which they were set, and no operation reads
`history`. `rrate` has no value before the first feedback, and is not read before it. -/
structure RateCCT where
  dataOn : Bool := true
  dataCbv : Bool := false
  trate : UInt32 := 1
  rtt : UInt32 := 100
  rrate : UInt32 := 0
  /-- The timer `nofeedback_` is set. -/
  nofeedback : Bool := false
  index : SearchTree (Pair × ℕ) := .nil
  /-- The timers that are set, with the pairs that they are bound to. -/
  timers : List (ℕ × Pair) := []
  made : ℕ := 0
  history : List RateCCT.Happening := []

namespace RateCCT

open Pair

/-! ## The element -/

def tuplesInFlight (s : RateCCT) : ℕ := s.index.size

/-- A pair that is in the index keeps its timer, though a new one is set. -/
def map (pair : Pair) (s : RateCCT) : RateCCT :=
  { s with
    timers := s.timers ++ [(s.made, pair)]
    index := s.index.insertKeyed before pair s.made
    made := s.made + 1 }

def remove (pair : Pair) (s : RateCCT) : RateCCT :=
  match s.index.findKeyed before pair with
  | none => s
  | some e =>
    { s with
      timers := s.timers.filter (·.1 ≠ e.2)
      index := s.index.eraseFound before pair }

def unmap (pair : Pair) (s : RateCCT) : RateCCT :=
  let s := s.remove pair
  if s.tuplesInFlight < s.trate.toNat ∧ s.dataCbv then { s with dataCbv := false } else s

/-- The tuple that is released, if any. -/
def pull (offer : Option Pair) (s : RateCCT) : Option Pair × RateCCT :=
  if s.tuplesInFlight < s.trate.toNat then
    match offer with
    | some pair => (some pair, { s.map pair with dataOn := true })
    | none => (none, { s with dataOn := false, dataCbv := true })
  else (none, { s with dataCbv := true })

section Rate

variable (fpu : Fpu)

/-- `tld` is the time since `tld_`. -/
def feedback (rt X_recv : UInt32) (p : Int64) (tld : UInt32) (s : RateCCT) : RateCCT :=
  let rtt := if s.rtt = 0 then rt else fpu.filter s.rtt rt
  let trate :=
    if 0 < p then max (min (fpu.X_calc rtt p) (2 * X_recv)) 1
    else if rtt < tld then max (min (2 * s.trate) (2 * X_recv)) 2
    else s.trate
  { s with rtt := rtt, trate := trate, rrate := X_recv, nofeedback := true }

def feedback_timeout (tld : UInt32) (s : RateCCT) : RateCCT :=
  let rrate := if 2 * s.rrate < s.trate then max (s.trate / 2) 1 else s.trate / 4
  s.feedback fpu s.rtt rrate 0 tld

inductive Event
  /-- What the input offers to a pull. -/
  | pull (offer : Option Pair)
  | ready
  /-- An acknowledgement, with its cumulative number, and the times since its time stamp and `tld_`. -/
  | ack (pair : Pair) (cumseq : Int64) (rt tld : UInt32)
  | feedbackTimeout (tld : UInt32)
  | fire (timer : ℕ)

/-- An event. The rate and the loss are read where an acknowledgement has its cumulative number and its
number: `STACK_SIZE` is the field of `CUMSEQ` behind the two fields before the stack. -/
def step (s : RateCCT) : Event → RateCCT
  | .pull offer =>
    let (released, s') := s.pull offer
    { s' with history := s.history ++ released.toList.map (.released · s.made) }
  | .ready => { s with dataOn := true, dataCbv := false }
  | .ack pair cumseq rt tld =>
    feedback fpu rt cumseq.toUInt64.toUInt32 pair.2 tld
      { s.unmap pair with history := s.history ++ [.acknowledged pair] }
  | .feedbackTimeout tld => if s.nofeedback then s.feedback_timeout fpu tld else s
  | .fire timer =>
    match s.timers.find? (·.1 = timer) with
    | none => s
    | some t =>
      { unmap t.2 { s with timers := s.timers.filter (·.1 ≠ timer) } with
        history := s.history ++ [.fired timer] }

end Rate

/-! ## Transit -/

/-- The pairs in transit after something happened: an acknowledgement ends all transits of a pair,
a timer only the one that it was set for, and a release begins a new one. -/
def flightsStep (fs : List (Pair × ℕ)) : Happening → List (Pair × ℕ)
  | .released pair timer => (pair, timer) :: fs.filter fun f => !same pair f.1
  | .acknowledged pair => fs.filter fun f => !same pair f.1
  | .fired timer => fs.filter (·.2 ≠ timer)

/-- The pairs that were released, with the timer of the latest release, that were not acknowledged
since and whose timer has not gone off. -/
def flights (history : List Happening) : List (Pair × ℕ) := history.foldl flightsStep []

lemma flights_append (history : List Happening) (happening : Happening) :
    flights (history ++ [happening]) = flightsStep (flights history) happening := by
  unfold flights
  rw [foldl_append]
  rfl

/-- Destinations are from the set, and a pair is not offered while it is in the index. -/
def Fresh (S : Set Value) (s : RateCCT) : Event → Prop
  | .pull (some pair) => pair.1 ∈ S ∧ s.index.findKeyed before pair = none
  | .ack pair _ _ _ => pair.1 ∈ S
  | _ => True

/-- The index has the pairs in transit, and the timers that are set are theirs. -/
structure Ok (S : Set Value) (s : RateCCT) : Prop where
  tree : SearchTree.Proper before {p | p.1 ∈ S} s.index
  flights : s.index.toList.Perm (flights s.history)
  timers : ∀ timer pair, (timer, pair) ∈ s.timers ↔ (pair, timer) ∈ s.index.toList
  unique : ∀ a ∈ s.index.toList, ∀ b ∈ s.index.toList, a.2 = b.2 → a = b
  made : ∀ e ∈ s.index.toList, e.2 < s.made

variable {S : Set Value} {s : RateCCT} {pair : Pair} {fpu : Fpu}

/-- What `Ok` says is not of the rate. -/
lemma Ok.congr (h : Ok S s) {s' : RateCCT} (hindex : s'.index = s.index)
    (hhistory : s'.history = s.history) (htimers : s'.timers = s.timers) (hmade : s'.made = s.made) :
    Ok S s' := by
  obtain ⟨htree, hflights, hset, hunique, hlt⟩ := h
  rw [← hindex] at htree hflights hset hunique hlt
  rw [← hhistory] at hflights
  rw [← htimers] at hset
  rw [← hmade] at hlt
  exact ⟨htree, hflights, hset, hunique, hlt⟩

lemma Ok.feedback (h : Ok S s) (rt X_recv : UInt32) (p : Int64) (tld : UInt32) :
    Ok S (s.feedback fpu rt X_recv p tld) := h.congr rfl rfl rfl rfl

lemma Ok.found (h : Ok S s) (hS : LawfulOn S) (hpair : pair.1 ∈ S) (e : Pair × ℕ) :
    s.index.findKeyed before pair = some e ↔ e ∈ s.index.toList ∧ same pair e.1 := by
  rw [h.tree.findKeyed_iff (strictWeak_before hS) hpair]
  refine and_congr_right fun he => ?_
  rw [same_iff hS hpair (h.tree.keys e he)]

lemma Ok.remove (h : Ok S s) (hS : LawfulOn S) (hpair : pair.1 ∈ S) :
    Proper before {p | p.1 ∈ S} (s.remove pair).index ∧
      (s.remove pair).index.toList.Perm (s.index.toList.filter fun e => !same pair e.1) ∧
      ∀ timer p, (timer, p) ∈ (s.remove pair).timers ↔
        (p, timer) ∈ (s.remove pair).index.toList := by
  have hfound := h.found hS hpair
  unfold RateCCT.remove
  rcases hfind : s.index.findKeyed before pair with _ | e
  · refine ⟨h.tree, ?_, h.timers⟩
    rw [filter_eq_self.mpr]
    intro a ha
    by_contra hsame
    have ha := (hfound a).mpr ⟨ha, by simpa using hsame⟩
    rw [hfind] at ha
    cases ha
  · have hmem := h.tree.mem_eraseFound (strictWeak_before hS) hfind
    obtain ⟨htree, hperm⟩ := h.tree.eraseFound hfind
    obtain ⟨he, hsame⟩ := (hfound e).mp hfind
    refine ⟨htree, ?_, fun timer p => ?_⟩
    · refine .trans (.of_eq ?_) (hperm.filter _).symm
      rw [filter_cons_of_neg (by simp [hsame]), filter_eq_self.mpr]
      intro a ha
      obtain ⟨ha, hne⟩ := (hmem a).mp ha
      by_contra hsame
      have heq := (hfound a).mpr ⟨ha, by simpa using hsame⟩
      rw [hfind] at heq
      exact hne (Option.some.inj heq).symm
    · simp only [mem_filter, h.timers, hmem, decide_eq_true_eq]
      refine and_congr_right fun hp => not_congr ⟨fun heq => h.unique _ hp _ he heq, ?_⟩
      rintro rfl
      rfl

lemma Ok.unmap (h : Ok S s) (hS : LawfulOn S) (hpair : pair.1 ∈ S) {happening : Happening}
    (hflights : flightsStep (RateCCT.flights s.history) happening =
      (RateCCT.flights s.history).filter fun f => !same pair f.1) :
    Ok S { s.unmap pair with history := s.history ++ [happening] } := by
  obtain ⟨htree, hperm, htimers⟩ := h.remove hS hpair
  have hindex : (s.unmap pair).index = (s.remove pair).index := by
    unfold RateCCT.unmap
    dsimp only
    split <;> rfl
  have hset : (s.unmap pair).timers = (s.remove pair).timers := by
    unfold RateCCT.unmap
    dsimp only
    split <;> rfl
  have hmade : (s.unmap pair).made = s.made := by
    unfold RateCCT.unmap RateCCT.remove
    dsimp only
    split <;> split <;> rfl
  have hsub : ∀ a ∈ (s.remove pair).index.toList, a ∈ s.index.toList :=
    fun a ha => mem_of_mem_filter (hperm.mem_iff.mp ha)
  refine ⟨by rwa [hindex], ?_, by rwa [hset, hindex], ?_, ?_⟩
  · rw [hindex, flights_append, hflights]
    exact hperm.trans (h.flights.filter _)
  · dsimp only
    rw [hindex]
    exact fun a ha b hb => h.unique a (hsub a ha) b (hsub b hb)
  · dsimp only
    rw [hindex, hmade]
    exact fun a ha => h.made a (hsub a ha)

lemma Ok.map (h : Ok S s) (hS : LawfulOn S) (hpair : pair.1 ∈ S)
    (hnew : s.index.findKeyed before pair = none) :
    Ok S { s.map pair with
      dataOn := true, history := s.history ++ [.released pair s.made] } := by
  obtain ⟨htree, hperm⟩ := h.tree.insertKeyed (v := s.made) (strictWeak_before hS) hpair fun e he =>
    h.tree.findKeyed_eq_none (strictWeak_before hS) hpair hnew he
  have hother : ∀ f ∈ RateCCT.flights s.history, (!same pair f.1) = true := by
    intro f hf
    by_contra hsame
    have hf := (h.found hS hpair f).mpr ⟨h.flights.mem_iff.mpr hf, by simpa using hsame⟩
    rw [hnew] at hf
    cases hf
  refine ⟨htree, ?_, fun timer p => ?_, ?_, ?_⟩
  · rw [flights_append]
    dsimp only [flightsStep]
    rw [filter_eq_self.mpr hother]
    exact hperm.trans (h.flights.cons _)
  · dsimp only [RateCCT.map]
    rw [hperm.mem_iff, mem_append, mem_singleton, mem_cons, h.timers, or_comm]
    rw [Prod.mk.injEq, Prod.mk.injEq p, and_comm]
  · intro a ha b hb hab
    have hlt := h.made
    rcases mem_cons.mp (hperm.mem_iff.mp ha) with rfl | ha
    · rcases mem_cons.mp (hperm.mem_iff.mp hb) with rfl | hb
      · rfl
      · exact absurd hab (hlt b hb).ne'
    · rcases mem_cons.mp (hperm.mem_iff.mp hb) with rfl | hb
      · exact absurd hab (hlt a ha).ne
      · exact h.unique a ha b hb hab
  · intro a ha
    rcases mem_cons.mp (hperm.mem_iff.mp ha) with rfl | ha
    · exact Nat.lt_succ_self _
    · exact (h.made a ha).trans (Nat.lt_succ_self _)

lemma Ok.fire (h : Ok S s) (hS : LawfulOn S) (timer : ℕ) : Ok S (s.step fpu (.fire timer)) := by
  rcases hfind : s.timers.find? (·.1 = timer) with _ | ⟨t, p⟩
  · simpa only [RateCCT.step, hfind] using h
  obtain rfl : t = timer := by simpa using find?_some hfind
  have hmem := (h.timers t p).mp (mem_of_find?_eq_some hfind)
  have hp := h.tree.keys _ hmem
  have hfound := h.found hS hp
  have hsame : same p p := by simp [same, compareTo_self]
  -- the timer that goes off is the one that the index has, so `unmap` takes it again
  have hkeyed := (hfound (p, t)).mpr ⟨hmem, hsame⟩
  have hunmap : RateCCT.unmap p { s with timers := s.timers.filter (·.1 ≠ t) } = s.unmap p := by
    simp [RateCCT.unmap, RateCCT.remove, hkeyed]
  have hflights : flightsStep (RateCCT.flights s.history) (.fired t) =
      (RateCCT.flights s.history).filter fun f => !same p f.1 := by
    refine filter_congr fun f hf => ?_
    have hf := h.flights.mem_iff.mpr hf
    have hiff : f.2 = t ↔ same p f.1 := by
      constructor
      · intro heq
        rwa [h.unique f hf (p, t) hmem heq]
      · intro hsame
        have heq := (hfound f).mpr ⟨hf, hsame⟩
        rw [hkeyed] at heq
        rw [← Option.some.inj heq]
    simp [hiff]
  simp only [RateCCT.step, hfind, hunmap]
  exact h.unmap hS hp hflights

lemma Ok.step (h : Ok S s) (hS : LawfulOn S) {e : Event} (he : Fresh S s e) :
    Ok S (s.step fpu e) := by
  cases e with
  | pull offer =>
    by_cases hfree : s.tuplesInFlight < s.trate.toNat
    · simp only [RateCCT.step, pull, if_pos hfree]
      cases offer with
      | some pair => exact h.map hS he.1 he.2
      | none => exact h.congr rfl (append_nil _) rfl rfl
    · simp only [RateCCT.step, pull, if_neg hfree]
      exact h.congr rfl (append_nil _) rfl rfl
  | ready => exact h.congr rfl rfl rfl rfl
  | ack pair => exact (h.unmap hS he rfl).feedback ..
  | feedbackTimeout tld =>
    unfold RateCCT.step
    split_ifs
    · exact h.feedback ..
    · exact h
  | fire timer => exact h.fire hS timer

lemma ok_init : Ok S {} := ⟨proper_nil, .nil, fun _ _ => by simp [toList], nofun, nofun⟩

/-- **Rate control counts transmissions exactly**: a pair is in the index if and only if it is in
transit, and what is offered is released if and only if fewer than `trate_` pairs are in transit.
Hyps: `hS` says that destinations compare lawfully; `hrun` that no pair is offered while it is in the
index -/
theorem rate_counts_transit (fpu : Fpu) (hS : LawfulOn S) (events : List Event)
    (hrun : Throughout (step fpu) (Fresh S) {} events) :
    let s := events.foldl (step fpu) {}
    (∀ pair : Pair, pair.1 ∈ S → ((s.index.findKeyed before pair).isSome ↔
      ∃ f ∈ flights s.history, same pair f.1)) ∧
    ∀ offer, (s.pull offer).1 = if (flights s.history).length < s.trate.toNat then offer else none := by
  intro s
  have h : Ok S s := hrun.foldl (Ok S) (fun s e h he => h.step hS he) ok_init
  refine ⟨fun pair hpair => ?_, fun offer => ?_⟩
  · simp [Option.isSome_iff_exists, h.found hS hpair, h.flights.mem_iff]
  · rw [← h.flights.length_eq, SearchTree.length_toList]
    unfold pull tuplesInFlight
    split_ifs
    · cases offer <;> rfl
    · rfl

/-- What doubles give for the numbers below. -/
def sampleFpu : Fpu := ⟨fun rtt rt => (9 * rtt + rt) / 10, fun _ _ => 0⟩

/-- A tuple is sent and acknowledged, and no feedback comes for a while. The rate is 2 then. -/
def untilTwo (more : List Event) : List Event :=
  [.pull (some (.str [65], 1)), .ack (.str [65], 1) 1 100 100, .feedbackTimeout 8000] ++ more

theorem rate_counts_transit_untilTwo :
    let s := (untilTwo [.pull (some (.str [65], 2))]).foldl (step sampleFpu) {}
    (s.index.findKeyed before (.str [65], 2)).isSome ∧
      (∃ f ∈ flights s.history, same (.str [65], 2) f.1) ∧ s.trate = 2 ∧
      (s.pull (some (.str [65], 3))).1 = some (.str [65], 3) := by
  intro s
  have hfound : (s.index.findKeyed before (.str [65], 2)).isSome := rfl
  obtain ⟨hiff, hpull⟩ := rate_counts_transit sampleFpu lawfulOn_str
    (untilTwo [.pull (some (.str [65], 2))])
    ⟨⟨⟨_, rfl⟩, rfl⟩, ⟨_, rfl⟩, trivial, ⟨⟨_, rfl⟩, rfl⟩, trivial⟩
  exact ⟨hfound, (hiff _ ⟨_, rfl⟩).mp hfound, rfl, hpull _⟩

/-- **The timer of an earlier transmission removes a later one**: with the rate at 2 the pair with the
number 2 is released twice, and the timer of its first release goes off. -/
theorem earlier_timer_removes :
    let s := (untilTwo [.pull (some (.str [65], 2)), .pull (some (.str [65], 2)), .fire 1]).foldl
      (step sampleFpu) {}
    s.index.findKeyed before (.str [65], 2) = none ∧ flights s.history = [((.str [65], 2), 2)] :=
  ⟨rfl, rfl⟩

end RateCCT

end P2.Net
