import Mathlib.Data.List.Nodup
import Mathlib.Data.Nat.ModEq
import P2.Elements.Ports
import P2.Lib.Runs

/-!
# `RoundRobin` and `DRoundRobin`

A pull is passed on to the inputs in turn, from the one behind the last that was served, until one
of them has a tuple. An input that has none is blocked until it calls back. Each gets its turn:
`served_within_round`.
-/

namespace P2.Elements

open P2.Lib List Option Nat

/-- The element. `polls` is the record of the pulls made to the inputs; no operation reads it. -/
structure RoundRobin (α : Type) extends Ports, Flags where
  pull_cb : Bool := false
  nextInput : ℕ := 0
  owed : List ℕ := []
  polls : List (ℕ × Option α) := []

namespace RoundRobin

variable {α : Type}

/-! ## The elements -/

def setup (α : Type) (n : ℕ) : RoundRobin α :=
  { toPorts := Ports.setup n, toFlags := { flags := replicate n false } }

/-- The loop of `pull`; the assertion behind it fails. -/
def scan (blocked : RoundRobin α → ℕ → Option Bool) (answer : ℕ → Option α) :
    List ℕ → RoundRobin α → Option (Option α × RoundRobin α)
  | [], _ => none
  | current :: rest, s =>
    match blocked s current with
    | none => none
    | some true => scan blocked answer rest s
    | some false =>
      let s := { s with polls := s.polls ++ [(current, answer current)] }
      match answer current with
      | some p => some (some p, { s with nextInput := (current + 1) % s.nports })
      | none =>
        let s := { s with toFlags := s.toFlags.raise current, owed := s.owed ++ [current] }
        if s.count = s.nports then
          some (none, { s with nextInput := (current + 1) % s.nports, pull_cb := true })
        else scan blocked answer rest s

def turn (s : RoundRobin α) : List ℕ := (range s.nports).map fun i => (s.nextInput + i) % s.nports

/-- A pull, where each input answers as given if it is polled; `none` where an assertion fails. -/
def pullWith (blocked : RoundRobin α → ℕ → Option Bool) (answer : ℕ → Option α)
    (s : RoundRobin α) : Option (Option α × RoundRobin α) :=
  if s.count = s.nports then some (none, { s with pull_cb := true })
  else if s.pull_cb then none
  else scan blocked answer s.turn s

def pull (answer : ℕ → Option α) (s : RoundRobin α) : Option (Option α × RoundRobin α) :=
  s.pullWith (fun s i => s.flags[i]?) answer

/-- Inputs that are not there are passed over, too. -/
def dBlocked (s : RoundRobin α) (i : ℕ) : Option Bool := do
  if ← s.flags[i]? then return true else return !(← s.ports[i]?)

def dPull (answer : ℕ → Option α) (s : RoundRobin α) : Option (Option α × RoundRobin α) :=
  s.pullWith dBlocked answer

def unblock (input : ℕ) (s : RoundRobin α) : Option (RoundRobin α) :=
  if input ≤ s.nports then do
    return { s with toFlags := ← s.toFlags.lower input, pull_cb := false }
  else none

/-- The callback of the puller is kept if the input is no longer there. -/
def dUnblock (input : ℕ) (s : RoundRobin α) : Option (RoundRobin α) := do
  let flags ← s.toFlags.lower input
  if s.pull_cb then return { s with toFlags := flags, pull_cb := !(← s.ports[input]?) }
  else return { s with toFlags := flags }

def add_input (s : RoundRobin α) : Option (RoundRobin α) := do
  let (port, ports) ← s.toPorts.add
  let s := { s with toPorts := ports, count := s.count + 1, owed := s.owed ++ [port] }
  if port = s.flags.length then return { s with flags := s.flags ++ [true] }
  else if port < s.flags.length then return { s with flags := s.flags.set port true }
  else none

def remove_input (port : ℕ) (s : RoundRobin α) : Option (RoundRobin α) :=
  match s.toPorts.delete port with
  | none => some s
  | some ports => do
    let flags ← s.toFlags.lower port
    let s := { s with toPorts := ports, toFlags := flags }
    if port + 1 = s.flags.length then return { s with flags := s.flags.dropLast } else return s

inductive Event (α : Type) where
  | pull (answer : ℕ → Option α)
  | unblock (input : ℕ)

inductive DEvent (α : Type) where
  | common (e : Event α)
  | add_input
  | remove_input (port : ℕ)

def step (s : RoundRobin α) : Event α → Option (RoundRobin α)
  | .pull answer => (s.pull answer).map (·.2)
  | .unblock input => { s with owed := s.owed.erase input }.unblock input

def dStep (s : RoundRobin α) : DEvent α → Option (RoundRobin α)
  | .common (.pull answer) => (s.dPull answer).map (·.2)
  | .common (.unblock input) => { s with owed := s.owed.erase input }.dUnblock input
  | .add_input => s.add_input
  | .remove_input port => s.remove_input port

def answered (s : RoundRobin α) : Event α → Option α
  | .pull answer => (s.pull answer).bind (·.1)
  | .unblock _ => none

/-- The tuples that the pulls of a run return. -/
def returned (s : RoundRobin α) : List (Event α) → List α
  | [] => []
  | e :: events => (s.answered e).toList ++ (s.step e).elim [] (·.returned events)

/-- Inputs call back only after refusing a pull. -/
def Allowed (s : RoundRobin α) : Event α → Prop
  | .pull _ => True
  | .unblock input => input ∈ s.owed

def DAllowed (s : RoundRobin α) : DEvent α → Prop
  | .common e => s.Allowed e
  | .add_input => True
  | .remove_input port => s.Live port

/-- The last input is removed, and not while it has still to call back. -/
def RemovesLast (s : RoundRobin α) : DEvent α → Prop
  | .remove_input port => port + 1 = s.nports ∧ port ∉ s.owed
  | _ => True

/-- Live unblocked inputs are polled until one yields a tuple or all have refused. -/
structure Asks (s : RoundRobin α) (answer : ℕ → Option α) (polled : List (ℕ × Option α))
    (r : Option α) : Prop where
  asked : ∀ x ∈ polled, s.Live x.1 ∧ s.flags[x.1]? = some false ∧ x.2 = answer x.1
  nodup : (polled.map (·.1)).Nodup
  until_one : ∃ refused : List ℕ, r = none ∧ polled = refused.map (·, none) ∨
    ∃ c p, r = some p ∧ polled = refused.map (·, none) ++ [(c, some p)]
  all_refused : r = none → ∀ i, s.Live i → s.flags[i]? = some false → (i, none) ∈ polled

/-! ## The invariant -/

structure Ok (s : RoundRobin α) : Prop where
  compact : s.toPorts.Compact
  wf : s.toFlags.Wf
  length : s.flags.length = s.nports
  stored : s.pull_cb = true → s.count = s.nports
  owed : ∀ i ∈ s.owed, i < s.nports

variable {s s' : RoundRobin α} {answer : ℕ → Option α} {L : List ℕ}
  {blocked : RoundRobin α → ℕ → Option Bool}

lemma Ok.setup (n : ℕ) : (setup α n).Ok where
  compact := Ports.compact_setup n
  wf := by simp [Flags.Wf, RoundRobin.setup, count_replicate]
  length := length_replicate
  stored := nofun
  owed := nofun

lemma Ok.lt (h : s.Ok) {i : ℕ} {b : Bool} (hi : s.flags[i]? = some b) : i < s.nports :=
  h.length ▸ (List.getElem?_eq_some_iff.mp hi).1

lemma Ok.flag (h : s.Ok) {i : ℕ} (hi : i < s.nports) : ∃ b, s.flags[i]? = some b :=
  ⟨_, List.getElem?_eq_getElem (h.length.symm ▸ hi)⟩

/-- What a round of polls over some inputs did. An unblocked input that was not polled comes behind
the one that was served. -/
structure Polled (answer : ℕ → Option α) (L : List ℕ) (s s' : RoundRobin α)
    (polled : List (ℕ × Option α)) (r : Option α) : Prop where
  ok : s'.Ok
  nports : s'.nports = s.nports
  log : s'.polls = s.polls ++ polled
  asks : Asks s answer polled r
  kept : ∀ i, s.flags[i]? = some false → i ∉ polled.map (·.1) → s'.flags[i]? = some false ∧
    ∃ L₁ c L₂, L = L₁ ++ c :: L₂ ∧ i ∈ L₂ ∧ s'.nextInput = (c + 1) % s.nports

abbrev refuse (c : ℕ) (s : RoundRobin α) : RoundRobin α :=
  { s with polls := s.polls ++ [(c, none)], toFlags := s.toFlags.raise c, owed := s.owed ++ [c] }

lemma flags_refuse {c : ℕ} (hc : s.flags[c]? = some false) (i : ℕ) :
    (s.refuse c).flags[i]? = some false ↔ i ≠ c ∧ s.flags[i]? = some false := by
  change (s.flags.set c true)[i]? = _ ↔ _
  by_cases hic : i = c
  · subst hic
    simp [List.getElem?_set_self (List.getElem?_eq_some_iff.mp hc).1]
  · simp [List.getElem?_set_ne (Ne.symm hic), hic]

lemma Ok.refuse {c : ℕ} (h : s.Ok) (hc : s.flags[c]? = some false) (hcb : s.pull_cb = false) :
    (s.refuse c).Ok where
  compact := h.compact
  wf := h.wf.raise hc
  length := length_set.trans h.length
  stored hcb' := absurd hcb' (by simp [hcb])
  owed := forall_mem_append.mpr ⟨h.owed, forall_mem_singleton.mpr (h.lt hc)⟩

/-- A refusal comes before what happened to the inputs behind it. -/
lemma Polled.cons {c : ℕ} {polled : List (ℕ × Option α)} {r : Option α} (hlive : s.Live c)
    (hc : s.flags[c]? = some false) (hanswer : answer c = none)
    (h : Polled answer L (s.refuse c) s' polled r) :
    Polled answer (c :: L) s s' ((c, none) :: polled) r := by
  have hflags := flags_refuse hc
  refine ⟨h.ok, h.nports, h.log.trans (append_assoc ..), ⟨?_, ?_, ?_, ?_⟩, ?_⟩
  · refine forall_mem_cons.mpr ⟨⟨hlive, hc, hanswer.symm⟩, fun x hx => ?_⟩
    obtain ⟨hx₁, hx₂, hx₃⟩ := h.asks.asked x hx
    exact ⟨hx₁, ((hflags x.1).mp hx₂).2, hx₃⟩
  · refine nodup_cons.mpr ⟨fun hmem => ?_, h.asks.nodup⟩
    obtain ⟨x, hx, rfl⟩ := mem_map.mp hmem
    exact ((hflags _).mp (h.asks.asked x hx).2.1).1 rfl
  · obtain ⟨refused, ⟨hr, rfl⟩ | ⟨d, p, hr, rfl⟩⟩ := h.asks.until_one
    · exact ⟨c :: refused, Or.inl ⟨hr, rfl⟩⟩
    · exact ⟨c :: refused, Or.inr ⟨d, p, hr, rfl⟩⟩
  · intro hr i hi hflag
    by_cases hic : i = c
    · exact hic ▸ mem_cons_self
    · exact mem_cons_of_mem _ (h.asks.all_refused hr i hi ((hflags i).mpr ⟨hic, hflag⟩))
  · intro i hi hnot
    rw [map_cons, mem_cons, not_or] at hnot
    obtain ⟨hkept, L₁, d, L₂, rfl, hmem, hnext⟩ := h.kept i ((hflags i).mpr ⟨hnot.1, hi⟩) hnot.2
    exact ⟨hkept, c :: L₁, d, L₂, rfl, hmem, hnext⟩

lemma Ok.scan (hb : ∀ s : RoundRobin α, s.Ok → ∀ i < s.nports, blocked s i = s.flags[i]?)
    (h : s.Ok) (hcb : s.pull_cb = false) (hne : s.count ≠ s.nports)
    (hL : ∀ i, s.flags[i]? = some false → i ∈ L) (hlt : ∀ i ∈ L, i < s.nports) :
    ∃ r s' polled, scan blocked answer L s = some (r, s') ∧ Polled answer L s s' polled r := by
  induction L generalizing s with
  | nil =>
    obtain ⟨i, hi⟩ := h.wf.exists_false (h.length ▸ hne)
    exact absurd (hL i hi) not_mem_nil
  | cons c L ih =>
    rw [forall_mem_cons] at hlt
    obtain ⟨b, hc⟩ := h.flag hlt.1
    unfold RoundRobin.scan
    rw [hb s h c hlt.1, hc]
    cases b with
    | true =>
      obtain ⟨r, s', polled, hscan, hp⟩ := ih h hcb hne (fun i hi =>
        (mem_cons.mp (hL i hi)).resolve_left fun heq => by simp_all) hlt.2
      refine ⟨r, s', polled, hscan, { hp with kept := fun i hi hnot => ?_ }⟩
      obtain ⟨hflags, L₁, d, L₂, rfl, hmem, hnext⟩ := hp.kept i hi hnot
      exact ⟨hflags, c :: L₁, d, L₂, rfl, hmem, hnext⟩
    | false =>
      have hlive := (h.compact c).mpr hlt.1
      cases hanswer : answer c with
      | some p =>
        refine ⟨_, _, [(c, some p)], rfl, ⟨h.compact, h.wf, h.length, h.stored, h.owed⟩, rfl, rfl,
          ⟨?_, nodup_singleton c, ⟨[], Or.inr ⟨c, p, rfl, rfl⟩⟩, nofun⟩, fun i hi hnot => ⟨hi, [],
            c, L, rfl, (mem_cons.mp (hL i hi)).resolve_left fun heq => hnot (by simp [heq]), rfl⟩⟩
        exact forall_mem_singleton.mpr ⟨hlive, hc, hanswer.symm⟩
      | none =>
        have hok := h.refuse hc hcb
        have hflags := flags_refuse hc
        by_cases hall : s.count + 1 = s.nports
        · -- the last unblocked input has refused
          have hnone : ∀ i : ℕ, (s.refuse c).flags[i]? ≠ some false := by
            intro i hi
            have hcount := hok.wf.count_lt hi
            rw [hok.length] at hcount
            exact absurd hall (Nat.ne_of_lt hcount)
          refine ⟨_, _, _, if_pos hall, Polled.cons hlive hc hanswer
            (show Polled answer L _ _ [] _ from ⟨⟨h.compact, hok.wf, hok.length, fun _ => hall,
              hok.owed⟩, rfl, (append_nil _).symm, ⟨nofun, nodup_nil, ⟨[], Or.inl ⟨rfl, rfl⟩⟩, ?_⟩,
              fun i hi => absurd hi (hnone i)⟩)⟩
          exact fun _ i _ hi => absurd hi (hnone i)
        · obtain ⟨r, s', polled, hscan, hp⟩ := @ih (s.refuse c) hok hcb hall (fun i hi =>
            (mem_cons.mp (hL i ((hflags i).mp hi).2)).resolve_left ((hflags i).mp hi).1) hlt.2
          exact ⟨r, s', _, (if_neg hall).trans hscan, hp.cons hlive hc hanswer⟩

lemma mem_turn {i : ℕ} (hi : i < s.nports) : ∃ k < s.nports, (s.nextInput + k) % s.nports = i := by
  refine ⟨(i + (s.nports - s.nextInput % s.nports)) % s.nports, mod_lt _ (by omega), ?_⟩
  have hlt := mod_lt s.nextInput (show 0 < s.nports by omega)
  rw [add_mod, mod_mod, ← add_mod_mod, mod_mod, add_mod_mod]
  have hsum : s.nextInput % s.nports + (i + (s.nports - s.nextInput % s.nports)) =
      i + s.nports := by omega
  rw [hsum, add_mod_right, mod_eq_of_lt hi]

lemma Ok.pullWith (hb : ∀ s : RoundRobin α, s.Ok → ∀ i < s.nports, blocked s i = s.flags[i]?)
    (h : s.Ok) (answer : ℕ → Option α) : ∃ r s' polled,
      s.pullWith blocked answer = some (r, s') ∧ Polled answer s.turn s s' polled r := by
  unfold RoundRobin.pullWith
  by_cases hall : s.count = s.nports
  · have hnone : ∀ i : ℕ, s.flags[i]? ≠ some false := by
      intro i hi
      exact absurd (h.length ▸ h.wf.count_lt hi) (by rw [hall]; exact lt_irrefl _)
    refine ⟨_, _, [], if_pos hall, ⟨h.compact, h.wf, h.length, fun _ => hall, h.owed⟩, rfl,
      (append_nil _).symm, ⟨nofun, nodup_nil, ⟨[], Or.inl ⟨rfl, rfl⟩⟩, fun _ i _ hi => ?_⟩,
        fun i hi => absurd hi (hnone i)⟩
    exact absurd hi (hnone i)
  · have hcb : s.pull_cb = false := Bool.eq_false_iff.mpr fun hcb => hall (h.stored hcb)
    rw [if_neg hall, hcb]
    refine h.scan hb hcb hall (fun i hi => ?_) fun i hi => ?_
    · obtain ⟨k, hk, heq⟩ := mem_turn (h.lt hi)
      exact mem_map.mpr ⟨k, mem_range.mpr hk, heq⟩
    · obtain ⟨k, hk, rfl⟩ := mem_map.mp hi
      exact mod_lt _ (zero_lt_of_lt (mem_range.mp hk))

lemma Ok.pull (h : s.Ok) (answer : ℕ → Option α) :
    ∃ r s' polled, s.pull answer = some (r, s') ∧ Polled answer s.turn s s' polled r :=
  h.pullWith (fun _ _ _ _ => rfl) answer

lemma Ok.dPull (h : s.Ok) (answer : ℕ → Option α) :
    ∃ r s' polled, s.dPull answer = some (r, s') ∧ Polled answer s.turn s s' polled r := by
  refine h.pullWith (fun s h i hi => ?_) answer
  have hlive : s.ports[i]? = some true := (h.compact i).mpr hi
  obtain ⟨b, hb⟩ := h.flag hi
  unfold dBlocked
  rw [hlive, hb]
  cases b <;> rfl

lemma Ok.unblock (h : s.Ok) {i : ℕ} (hi : i ∈ s.owed) :
    ∃ s', s.step (.unblock i) = some s' ∧ s'.Ok ∧ s'.flags = s.flags.set i false ∧
      s'.nextInput = s.nextInput ∧ s'.nports = s.nports ∧ s'.polls = s.polls := by
  obtain ⟨flags, hlower, hflags, hwf⟩ := h.wf.lower (h.length.symm ▸ h.owed i hi)
  have hstep : s.step (.unblock i) =
      some { s with owed := s.owed.erase i, toFlags := flags, pull_cb := false } := by
    simp [step, RoundRobin.unblock, (h.owed i hi).le, hlower]
  refine ⟨_, hstep, ⟨h.compact, hwf, ?_, nofun, fun j hj => h.owed j (mem_of_mem_erase hj)⟩, hflags,
    rfl, rfl, rfl⟩
  rw [hflags, length_set, h.length]

/-! ## The static element -/

lemma getElem?_turn {i x : ℕ} (h : s.turn[i]? = some x) :
    i < s.nports ∧ (s.nextInput + i) % s.nports = x := by
  rw [turn, getElem?_map, map_eq_some_iff] at h
  obtain ⟨m, hm, rfl⟩ := h
  obtain ⟨hlt, rfl⟩ := List.getElem?_eq_some_iff.mp hm
  rw [length_range] at hlt
  rw [getElem_range]
  exact ⟨hlt, rfl⟩

lemma Asks.filterMap_eq {polled : List (ℕ × Option α)} {r : Option α}
    (h : Asks s answer polled r) : polled.filterMap (·.2) = r.toList := by
  obtain ⟨refused, ⟨rfl, rfl⟩ | ⟨c, p, rfl, rfl⟩⟩ := h.until_one
  · simp
  · simp

lemma Polled.nearer {polled : List (ℕ × Option α)} {r : Option α} {j k : ℕ}
    (h : Polled answer s.turn s s' polled r) (hj : s.flags[j]? = some false)
    (hnot : j ∉ polled.map (·.1)) (hk : k < s.nports)
    (hnear : (s.nextInput + k) % s.nports = j) :
    ∃ k' < k, (s'.nextInput + k') % s'.nports = j := by
  obtain ⟨-, L₁, c, L₂, heq, hmem, hnext⟩ := h.kept j hj hnot
  obtain ⟨b, hb⟩ := mem_iff_getElem?.mp hmem
  have hc : s.turn[L₁.length]? = some c := by
    rw [heq, getElem?_append_right le_rfl, Nat.sub_self]
    rfl
  have hlast : s.turn[L₁.length + 1 + b]? = some j := by
    rw [heq, getElem?_append_right (by omega), ← hb]
    have hidx : L₁.length + 1 + b - L₁.length = b + 1 := by omega
    rw [hidx, getElem?_cons_succ]
  obtain ⟨hlt, hmod⟩ := getElem?_turn hlast
  have hsame : L₁.length + 1 + b = k :=
    (Nat.ModEq.add_left_cancel' s.nextInput (hmod.trans hnear.symm)).eq_of_lt_of_lt hlt hk
  refine ⟨b, by omega, ?_⟩
  rw [h.nports, hnext, ← (getElem?_turn hc).2, ← hmod, mod_add_mod, Nat.add_assoc, mod_add_mod]
  congr 1
  omega

/-- What an event does: its polls found the tuple that is returned, if any, and to an unblocked input
that was not polled the turn comes nearer by one if a tuple was returned. -/
structure Turned (s : RoundRobin α) (e : Event α) (s' : RoundRobin α)
    (polled : List (ℕ × Option α)) : Prop where
  ok : s'.Ok
  nports : s'.nports = s.nports
  polls : s'.polls = s.polls ++ polled
  answered : polled.filterMap (·.2) = (s.answered e).toList
  nearer : ∀ j k, s.flags[j]? = some false → j ∉ polled.map (·.1) → k < s.nports →
    (s.nextInput + k) % s.nports = j → s'.flags[j]? = some false ∧
      ∃ k', k' + (s.answered e).toList.length ≤ k ∧ (s'.nextInput + k') % s'.nports = j

lemma Ok.turned (h : s.Ok) {e : Event α} (he : s.Allowed e) :
    ∃ s' polled, s.step e = some s' ∧ Turned s e s' polled := by
  cases e with
  | pull answer =>
    obtain ⟨r, s', polled, hpull, hp⟩ := h.pull answer
    have hr : s.answered (.pull answer) = r := by simp [answered, hpull]
    refine ⟨s', polled, by simp [step, hpull], hp.ok, hp.nports, hp.log,
      hr.symm ▸ hp.asks.filterMap_eq, fun j k hj hnot hk hnear => ⟨(hp.kept j hj hnot).1, ?_⟩⟩
    obtain ⟨k', hk', hnear'⟩ := hp.nearer hj hnot hk hnear
    have hone : (s.answered (.pull answer)).toList.length ≤ 1 := Option.length_toList_le
    exact ⟨k', by omega, hnear'⟩
  | unblock i =>
    obtain ⟨s', hstep, hok, hflags, hnext, hnports, hpolls⟩ := h.unblock he
    refine ⟨s', [], hstep, hok, hnports, hpolls.trans (append_nil _).symm, rfl,
      fun j k hj _ _ hnear => ⟨?_, k, le_rfl, hnext ▸ hnports ▸ hnear⟩⟩
    rw [hflags, getElem?_set]
    split_ifs with hij hlt
    · rfl
    · exact absurd (h.length ▸ hij ▸ h.lt hj) hlt
    · exact hj

/-- The polls of a run found the tuples that its pulls return, and before an unblocked input is polled
only so many as there are inputs from the next one to it. -/
lemma Ok.polls_run {more : List (Event α)} (h : s.Ok) (hmore : Permitted step Allowed s more)
    (hrun : more.foldlM step s = some s') : ∃ new, s'.polls = s.polls ++ new ∧
      new.filterMap (·.2) = s.returned more ∧
      ∀ j k, s.flags[j]? = some false → j ∉ new.map (·.1) → k < s.nports →
        (s.nextInput + k) % s.nports = j → (s.returned more).length ≤ k := by
  induction more generalizing s with
  | nil =>
    cases hrun
    exact ⟨[], (append_nil _).symm, rfl, fun _ k _ _ _ _ => Nat.zero_le k⟩
  | cons e more ih =>
    obtain ⟨s₁, polled, hstep, hturned⟩ := h.turned hmore.1
    rw [foldlM_cons, hstep] at hrun
    obtain ⟨rest, hrest, hreturned, hle⟩ := ih hturned.ok (hmore.2 s₁ hstep) hrun
    unfold returned
    rw [hstep]
    refine ⟨polled ++ rest, by rw [hrest, hturned.polls, append_assoc], ?_,
      fun j k hj hnot hk hnear => ?_⟩
    · rw [filterMap_append, hturned.answered, hreturned]
      rfl
    · rw [map_append, mem_append, not_or] at hnot
      obtain ⟨hj', k', hk', hnear'⟩ := hturned.nearer j k hj hnot.1 hk hnear
      have hrest := hle j k' hj' hnot.2 (hturned.nports ▸ by omega) hnear'
      rw [length_append]
      simp only [Option.elim]
      omega

lemma Ok.step {n : ℕ} (s : RoundRobin α) (e : Event α) (h : s.Ok ∧ s.nports = n)
    (he : s.Allowed e) : ∃ s', s.step e = some s' ∧ s'.Ok ∧ s'.nports = n := by
  obtain ⟨s', polled, hstep, hturned⟩ := h.1.turned he
  exact ⟨s', hstep, hturned.ok, hturned.nports.trans h.2⟩

/-- **The static element is safe and fair**: no assertion fails, the count is that of the flags, a
callback is stored only while all inputs are blocked, and among `n` tuples that pulls return there is
one of each input that is not blocked before and refuses no pull.
Hyps: `h` says that inputs call back only after refusing -/
theorem served_within_round (n : ℕ) (events : List (Event α))
    (h : Permitted step Allowed (setup α n) events) :
    ∃ s, events.foldlM step (setup α n) = some s ∧ s.count = s.flags.count true ∧
      (s.pull_cb = true → ∀ b ∈ s.flags, b = true) ∧
      ∀ more s', Permitted step Allowed s more → more.foldlM step s = some s' →
        ∃ new, s'.polls = s.polls ++ new ∧ new.filterMap (·.2) = s.returned more ∧
          ∀ j, n ≤ (s.returned more).length → s.flags[j]? = some false →
            (∀ x ∈ new, x.1 = j → x.2.isSome) → ∃ p ∈ s.returned more, (j, some p) ∈ new := by
  obtain ⟨s, hrun, hok, rfl⟩ := h.run Ok.step ⟨Ok.setup n, rfl⟩
  refine ⟨s, hrun, hok.wf, fun hcb b hb => ?_, fun more s' hmore hrun' => ?_⟩
  · have hall : s.flags.count true = s.flags.length := by
      rw [← hok.wf, hok.stored hcb, hok.length]
    exact (count_eq_length.mp hall b hb).symm
  · obtain ⟨new, hnew, hreturned, hle⟩ := hok.polls_run hmore hrun'
    refine ⟨new, hnew, hreturned, fun j hcount hj hanswers => ?_⟩
    obtain ⟨k, hk, hnear⟩ := mem_turn (hok.lt hj)
    have hpolled : j ∈ new.map (·.1) := by
      by_contra hnot
      have := hle j k hj hnot hk hnear
      omega
    obtain ⟨⟨_, answer⟩, hx, rfl⟩ := mem_map.mp hpolled
    obtain ⟨p, rfl⟩ := Option.isSome_iff_exists.mp (hanswers _ hx rfl)
    exact ⟨p, hreturned ▸ mem_filterMap.mpr ⟨_, hx, rfl⟩, hx⟩

theorem served_within_round_two : ∃ s s' : RoundRobin ℕ,
    [.pull fun i => if i = 0 then none else some i, .unblock 0].foldlM step (setup ℕ 2) = some s ∧
      [.pull some, .pull some].foldlM step s = some s' ∧
      ∃ p ∈ s.returned [.pull some, .pull some], (1, some p) ∈ s'.polls := by
  obtain ⟨s, hrun, -, -, hfair⟩ := served_within_round 2
    [.pull fun i => if i = 0 then none else some i, .unblock 0]
    ⟨trivial, fun s' hs' => ⟨by cases hs'; exact mem_cons_self, fun _ _ => trivial⟩⟩
  cases hrun
  obtain ⟨new, hnew, -, hserved⟩ := hfair [.pull some, .pull some] _
    ⟨trivial, fun _ _ => ⟨trivial, fun _ _ => trivial⟩⟩ rfl
  obtain rfl : [(0, some 0), (1, some 1)] = new := append_cancel_left
    (show [(0, none), (1, some 1)] ++ [(0, some 0), (1, some 1)] = _ ++ new from hnew)
  obtain ⟨p, hp, hmem⟩ := hserved 1 le_rfl rfl (by decide)
  exact ⟨_, _, rfl, rfl, p, hp, mem_append_right [(0, none), (1, some 1)] hmem⟩

/-! ## The dynamic element -/

lemma Ok.dUnblock (h : s.Ok) {i : ℕ} (hi : i ∈ s.owed) :
    ∃ s', s.dStep (.common (.unblock i)) = some s' ∧ s'.Ok := by
  obtain ⟨flags, hlower, hflags, hwf⟩ := h.wf.lower (h.length.symm ▸ h.owed i hi)
  have hlive : s.ports[i]? = some true := (h.compact i).mpr (h.owed i hi)
  have hlen : flags.flags.length = s.nports := by rw [hflags, length_set, h.length]
  have howed : ∀ j ∈ s.owed.erase i, j < s.nports := fun j hj => h.owed j (mem_of_mem_erase hj)
  simp only [dStep, RoundRobin.dUnblock, hlower, hlive]
  cases hcb : s.pull_cb with
  | true => exact ⟨_, rfl, h.compact, hwf, hlen, nofun, howed⟩
  | false =>
    exact ⟨_, rfl, h.compact, hwf, hlen, fun h => absurd (hcb ▸ h) Bool.false_ne_true, howed⟩

lemma Ok.add_input (h : s.Ok) : ∃ s', s.add_input = some s' ∧ s'.Ok := by
  obtain ⟨ports, hadd, hnports, hcompact⟩ := h.compact.add
  have hadded : s.add_input = some { s with
      toPorts := ports, count := s.count + 1, owed := s.owed ++ [s.nports],
      flags := s.flags ++ [true] } := by
    simp [RoundRobin.add_input, hadd, h.length]
  refine ⟨_, hadded, hcompact, ?_, ?_, fun hcb => ?_, fun i hi => ?_⟩
  · rw [Flags.Wf, count_append, h.wf]
    rfl
  · rw [length_append, h.length, hnports]
    rfl
  · rw [h.stored hcb, hnports]
  · rw [hnports]
    rcases mem_append.mp hi with hi | hi
    · exact (h.owed i hi).trans (lt_succ_self _)
    · rw [mem_singleton.mp hi]
      exact lt_succ_self _

lemma Ok.remove_input (h : s.Ok) {i : ℕ} (hlast : i + 1 = s.nports) (howed : i ∉ s.owed) :
    ∃ s', s.remove_input i = some s' ∧ s'.Ok := by
  obtain ⟨ports, hdelete, hnports, hcompact⟩ := h.compact.delete hlast
  have hlen : i < s.flags.length := by rw [h.length]; omega
  obtain ⟨flags, hlower, hflags, hwf⟩ := h.wf.lower hlen
  have hlength : flags.flags.length = i + 1 := by rw [hflags, length_set, h.length, hlast]
  have hsplit : flags.flags = flags.flags.dropLast ++ [false] := by
    have hne : flags.flags ≠ [] := ne_nil_of_length_eq_add_one hlength
    have hget : flags.flags.getLast hne = false := by
      rw [getLast_eq_getElem, ← some.injEq, ← List.getElem?_eq_getElem, hlength, hflags]
      exact List.getElem?_set_self hlen
    rw [← hget, dropLast_append_getLast]
  have hcount : flags.count = flags.flags.dropLast.count true := by
    rw [hwf, hsplit, count_append, dropLast_concat]
    rfl
  have hremoved : s.remove_input i = some { s with
      toPorts := ports, count := flags.count, flags := flags.flags.dropLast } := by
    simp [RoundRobin.remove_input, hdelete, hlower, hlength]
  refine ⟨_, hremoved, hcompact, hcount, ?_, fun hcb => ?_, fun j hj => ?_⟩
  · rw [length_dropLast, hlength, hnports, Nat.add_sub_cancel]
  · -- all inputs are blocked, and so are those that are left
    have hall := h.stored hcb
    have hflag : s.flags[i] = true := by
      have hfull : s.flags.count true = s.flags.length := by rw [← h.wf, hall, h.length]
      exact (count_eq_length.mp hfull _ (getElem_mem hlen)).symm
    have hcount' := hwf
    rw [Flags.Wf, hflags, count_set hlen, hflag, ← h.wf] at hcount'
    simp only [hnports, hcount']
    simp
    omega
  · have hj' := h.owed j hj
    have hne : j ≠ i := fun heq => howed (heq ▸ hj)
    simp only [hnports]
    omega

lemma Ok.dStep (s : RoundRobin α) (e : DEvent α) (h : s.Ok)
    (he : s.DAllowed e ∧ s.RemovesLast e) : ∃ s', s.dStep e = some s' ∧ s'.Ok := by
  obtain ⟨he, hlast⟩ := he
  cases e with
  | common e =>
    cases e with
    | pull answer =>
      obtain ⟨r, s', polled, hpull, hp⟩ := h.dPull answer
      exact ⟨s', by simp [RoundRobin.dStep, hpull], hp.ok⟩
    | unblock i => exact h.dUnblock he
  | add_input => exact h.add_input
  | remove_input port => exact h.remove_input hlast.1 hlast.2

/-- **The dynamic element polls every live input** where only the last input is removed, and not
while it has still to call back. -/
theorem dRoundRobin_polls (n : ℕ) (events : List (DEvent α))
    (h : Permitted dStep (fun s e => s.DAllowed e ∧ s.RemovesLast e) (setup α n) events) :
    ∃ s, events.foldlM dStep (setup α n) = some s ∧ s.count = blockedPorts s.toPorts s.toFlags ∧
      ∀ answer, (∃ i, s.Live i ∧ s.flags[i]? = some false) → ∃ r s' polled,
        s.dPull answer = some (r, s') ∧ s'.polls = s.polls ++ polled ∧ Asks s answer polled r := by
  obtain ⟨s, hrun, hok⟩ := h.run Ok.dStep (Ok.setup n)
  refine ⟨s, hrun, blockedPorts_eq hok.compact hok.wf hok.length, fun answer _ => ?_⟩
  obtain ⟨r, s', polled, hpull, hp⟩ := hok.dPull answer
  exact ⟨r, s', polled, hpull, hp.log, hp.asks⟩

theorem dRoundRobin_polls_add : ∃ s : RoundRobin ℕ,
    [.remove_input 1, .add_input].foldlM dStep (setup ℕ 2) = some s ∧ ∃ r s' polled,
      s.dPull some = some (r, s') ∧ s'.polls = s.polls ++ polled ∧ Asks s some polled r := by
  obtain ⟨s, hrun, -, hpull⟩ := dRoundRobin_polls 2 [.remove_input 1, .add_input]
    ⟨⟨rfl, rfl, not_mem_nil⟩, fun _ _ => ⟨⟨trivial, trivial⟩, fun _ _ => trivial⟩⟩
  cases hrun
  exact ⟨_, rfl, hpull some ⟨0, by decide, rfl⟩⟩

/-- The first of two inputs is removed: the loop runs over input 0 only, and the assertion behind it
fails although input 1 is there and unblocked. -/
theorem dRoundRobin_skips_input :
    (∃ s : RoundRobin ℕ, (setup ℕ 2).dStep (.remove_input 0) = some s ∧ s.Live 1 ∧
      s.flags[1]? = some false ∧ s.dPull (fun i => some i) = none) ∧ (setup ℕ 2).Live 0 :=
  ⟨⟨_, rfl, rfl, rfl, rfl⟩, rfl⟩

end RoundRobin

end P2.Elements
