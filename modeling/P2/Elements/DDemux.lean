import Mathlib.Data.List.Nodup
import P2.Elements.Ports
import P2.Lib.KeyedTree
import P2.Lib.Runs
import P2.Value.Order

/-!
# `DDemux`

A tuple is pushed to the output of its key, or to output 0 if the key has none: `demux_routes`.
Outputs with their keys are added and removed at any time.
-/

namespace P2.Elements

open P2.Value P2.Lib List Option

/-- The element. `owed` are the calls of `unblock` that are to come; `output` is what was pushed to
the outputs, which no operation reads. -/
structure DDemux (α : Type) extends Ports, Flags where
  port_map : SearchTree (Value × ℕ) := .nil
  push_cb : Bool := false
  owed : List ℕ := []
  output : List (ℕ × α) := []

namespace DDemux

variable {α : Type}

/-! ## The element -/

def setup (α : Type) : DDemux α := { toPorts := Ports.setup 1, toFlags := { flags := [false] } }

def find (key : Value) (s : DDemux α) : Option ℕ :=
  (s.port_map.findKeyed comparator key).map (·.2)

def route (key : Value) (s : DDemux α) : ℕ := (s.find key).getD 0

def add_output (key : Value) (s : DDemux α) : Option (ℕ × DDemux α) :=
  match s.find key with
  | some port => some (port, s)
  | none => do
    let (port, ports) ← s.toPorts.add
    let s := { s with toPorts := ports, port_map := s.port_map.insertKeyed comparator key port }
    if port = s.flags.length then return (port, { s with flags := s.flags ++ [false] })
    else if s.flags[port]? = some false then return (port, s) else none

def remove_block_flag (port : ℕ) (s : DDemux α) : Option (DDemux α) := do
  let flags ← s.toFlags.lower port
  if port + 1 = flags.flags.length then
    return { s with toFlags := { flags with flags := flags.flags.dropLast } }
  else return { s with toFlags := flags }

/-- The calls of `remove_output` within `remove_output`, at most as many as there are keys. -/
def removePortLoop (port : ℕ) : ℕ → DDemux α → Option (DDemux α)
  | 0, s => some s
  | fuel + 1, s =>
    match s.port_map.toList.findIdx? (·.2 = port) with
    | none => some s
    | some i => do
      removePortLoop port fuel
        (← { s with port_map := s.port_map.eraseIdx i }.remove_block_flag port)

/-- Returns -1 once no key has the port, as it does in the end. -/
def removePort (port : ℕ) (s : DDemux α) : Option (Option ℕ × DDemux α) :=
  if port = 0 then none
  else (removePortLoop port s.port_map.toList.length s).map fun s => (none, s)

def removeKey (key : Value) (s : DDemux α) : Option (Option ℕ × DDemux α) :=
  if (s.find key).isSome then some (none, s) else none

def unblock (output : ℕ) (s : DDemux α) : Option (DDemux α) :=
  if output ≤ s.flags.length then do
    let flags ← s.toFlags.lower output
    if s.push_cb then return { s with toFlags := flags, push_cb := !(← s.ports[output]?) }
    else return { s with toFlags := flags }
  else none

/-- A push to an output, and its answer. `ready` is the assertion about the callback of the pusher
where all outputs are blocked then. -/
def pushTo (i : ℕ) (p : α) (answer ready : Bool) (s : DDemux α) : Option (Bool × DDemux α) := do
  if ← s.flags[i]? then
    -- the tuple is dropped
    if s.count < s.nports then return (true, s) else none
  else
    let s := { s with output := s.output ++ [(i, p)] }
    if answer then return (true, s)
    else
      let s := { s with toFlags := s.toFlags.raise i, owed := s.owed ++ [i] }
      if s.count = s.nports then if ready then return (false, { s with push_cb := true }) else none
      else return (true, s)

/-- The assertion is the other way round for the default output. -/
def push (key : Value) (p : α) (answer : Bool) (s : DDemux α) : Option (Bool × DDemux α) :=
  if s.count = s.nports then some (false, { s with push_cb := true })
  else match s.find key with
    | some i => s.pushTo i p answer (!s.push_cb)
    | none => s.pushTo 0 p answer s.push_cb

inductive Event (α : Type) where
  | add_output (key : Value)
  | removePort (port : ℕ)
  | removeKey (key : Value)
  /-- A tuple with its key, and whether the output it is pushed to takes more. -/
  | push (key : Value) (p : α) (answer : Bool)
  | unblock (output : ℕ)

def step (s : DDemux α) : Event α → Option (DDemux α)
  | .add_output key => (s.add_output key).map (·.2)
  | .removePort port => (s.removePort port).map (·.2)
  | .removeKey key => (s.removeKey key).map (·.2)
  | .push key p answer => (s.push key p answer).map (·.2)
  | .unblock output => { s with owed := s.owed.erase output }.unblock output

/-- Nothing is removed, and a push that blocks the last output is to the output of a key, while no
callback is stored. Outputs call back after a 0, once; keys are from the set. -/
def Admits (S : Set Value) (s : DDemux α) : Event α → Prop
  | .add_output key => key ∈ S
  | .push key _ answer => key ∈ S ∧ (answer = false → s.count + 1 = s.nports →
      s.flags[s.route key]? = some false → s.find key ≠ none ∧ s.push_cb = false)
  | .unblock output => output ∈ s.owed
  | _ => False

/-! ## The invariant -/

structure Ok (S : Set Value) (s : DDemux α) : Prop where
  compact : s.toPorts.Compact
  wf : s.toFlags.Wf
  length : s.flags.length = s.nports
  owed : ∀ i ∈ s.owed, i < s.nports
  tree : s.port_map.Proper comparator S
  nodup : (s.port_map.toList.map (·.2)).Nodup
  onto : ∀ i, i ∈ s.port_map.toList.map (·.2) ↔ 0 < i ∧ i < s.nports
  pos : 0 < s.nports

variable {S : Set Value} {s s' : DDemux α} {key : Value} {p : α} {answer ready r : Bool} {i : ℕ}

lemma Ok.setup (S : Set Value) : (setup α).Ok S where
  compact := Ports.compact_setup 1
  wf := rfl
  length := rfl
  owed := nofun
  tree := SearchTree.proper_nil
  nodup := nodup_nil
  onto i := by
    show i ∈ [] ↔ 0 < i ∧ i < 1
    simp only [not_mem_nil, false_iff]
    omega
  pos := Nat.one_pos

lemma Ok.add_output (h : s.Ok S) (hS : LawfulOn S) (hkey : key ∈ S) :
    ∃ port s', s.add_output key = some (port, s') ∧ s'.Ok S := by
  unfold DDemux.add_output
  cases hfind : s.find key with
  | some port => exact ⟨port, s, rfl, h⟩
  | none =>
    obtain ⟨ports, hadd, hnports, hcompact⟩ := h.compact.add
    obtain ⟨htree, hperm⟩ := h.tree.insertKeyed (v := s.nports) hS.strictWeak hkey fun e he =>
      h.tree.findKeyed_eq_none hS.strictWeak hkey (map_eq_none_iff.mp hfind) he
    have hperm' := hperm.map (·.2)
    have hfresh : s.nports ∉ s.port_map.toList.map (·.2) := fun hmem =>
      lt_irrefl _ ((h.onto _).mp hmem).2
    simp only [hadd, bind_eq_bind, bind_some, h.length, if_true]
    refine ⟨_, _, rfl, hcompact, ?_, ?_, fun i hi => ?_, htree, ?_, fun i => ?_, ?_⟩
    · rw [Flags.Wf, count_append]
      exact h.wf
    · rw [length_append, h.length, hnports]
      rfl
    · simp only [hnports]
      exact (h.owed i hi).trans (Nat.lt_succ_self _)
    · exact hperm'.nodup_iff.mpr (nodup_cons.mpr ⟨hfresh, h.nodup⟩)
    · rw [hperm'.mem_iff, map_cons, mem_cons, h.onto, hnports]
      have := h.pos
      omega
    · simp only [hnports]
      exact Nat.succ_pos _

lemma Ok.pushTo (h : s.Ok S) (hi : i < s.nports) (hcount : s.count ≠ s.nports)
    (hready : answer = false → s.count + 1 = s.nports → s.flags[i]? = some false → ready = true) :
    ∃ r s', s.pushTo i p answer ready = some (r, s') ∧ s'.Ok S ∧
      (s.flags[i]? = some false → s'.output = s.output ++ [(i, p)]) := by
  have hlt : i < s.flags.length := h.length.symm ▸ hi
  have hle : s.count ≤ s.nports := by
    rw [h.wf, ← h.length]
    exact count_le_length
  unfold DDemux.pushTo
  rw [List.getElem?_eq_getElem hlt] at hready ⊢
  cases hflag : s.flags[i] with
  | true => exact ⟨_, _, if_pos (lt_of_le_of_ne hle hcount), h, nofun⟩
  | false =>
    rw [hflag] at hready
    have hflag' : s.flags[i]? = some false := hflag ▸ List.getElem?_eq_getElem hlt
    have hok : ∀ cb (log : List (ℕ × α)), Ok S { s with
        output := log, toFlags := s.toFlags.raise i, owed := s.owed ++ [i], push_cb := cb } :=
      fun cb log => ⟨h.compact, h.wf.raise hflag', by simpa [Flags.raise] using h.length,
        forall_mem_append.mpr ⟨h.owed, forall_mem_singleton.mpr hi⟩, h.tree, h.nodup, h.onto, h.pos⟩
    cases answer with
    | true =>
      exact ⟨_, _, rfl, ⟨h.compact, h.wf, h.length, h.owed, h.tree, h.nodup, h.onto, h.pos⟩,
        fun _ => rfl⟩
    | false =>
      by_cases hall : s.count + 1 = s.nports
      · exact ⟨_, _, (if_pos hall).trans (if_pos (hready rfl hall rfl)), hok _ _, fun _ => rfl⟩
      · exact ⟨_, _, if_neg hall, hok _ _, fun _ => rfl⟩

lemma Ok.find_lt (h : s.Ok S) (hS : LawfulOn S) (hkey : key ∈ S) (hfind : s.find key = some i) :
    i < s.nports := by
  obtain ⟨e, he, rfl⟩ := map_eq_some_iff.mp hfind
  have hmem := (h.tree.of_findKeyed hS.strictWeak hkey he).1
  exact ((h.onto e.2).mp (mem_map_of_mem hmem)).2

lemma Ok.push (h : s.Ok S) (hS : LawfulOn S) (he : s.Admits S (.push key p answer)) :
    ∃ r s', s.push key p answer = some (r, s') ∧ s'.Ok S ∧
      (s.flags[s.route key]? = some false → s'.output = s.output ++ [(s.route key, p)]) := by
  obtain ⟨hkey, hlast⟩ := he
  unfold DDemux.push
  by_cases hall : s.count = s.nports
  · refine ⟨_, _, if_pos hall, ⟨h.compact, h.wf, h.length, h.owed, h.tree, h.nodup, h.onto, h.pos⟩,
      fun hflag => ?_⟩
    have := h.wf.count_lt hflag
    rw [h.length, hall] at this
    exact absurd this (lt_irrefl _)
  · rw [if_neg hall]
    unfold route at hlast ⊢
    cases hfind : s.find key with
    | some i =>
      rw [hfind] at hlast
      refine h.pushTo (h.find_lt hS hkey hfind) hall fun hanswer hcount hflag => ?_
      simp [(hlast hanswer hcount hflag).2]
    | none =>
      rw [hfind] at hlast
      exact h.pushTo h.pos hall fun hanswer hcount hflag =>
        absurd rfl (hlast hanswer hcount hflag).1

lemma Ok.unblock (h : s.Ok S) (hi : i ∈ s.owed) :
    ∃ s', s.step (.unblock i) = some s' ∧ s'.Ok S := by
  have hlt := h.owed i hi
  obtain ⟨flags, hlower, hflags, hwf⟩ := h.wf.lower (h.length.symm ▸ hlt)
  have hlive : s.ports[i]? = some true := (h.compact i).mpr hlt
  have hok : ∀ cb, Ok S { s with owed := s.owed.erase i, toFlags := flags, push_cb := cb } :=
    fun cb => ⟨h.compact, hwf, by rw [hflags, length_set, h.length],
      fun j hj => h.owed j (mem_of_mem_erase hj), h.tree, h.nodup, h.onto, h.pos⟩
  simp only [DDemux.step, DDemux.unblock, h.length, hlt.le, if_true, hlower, hlive]
  cases hcb : s.push_cb with
  | true => exact ⟨_, rfl, hok _⟩
  | false => exact ⟨_, rfl, hok _⟩

lemma Ok.step (hS : LawfulOn S) (s : DDemux α) (e : Event α) (h : s.Ok S) (he : s.Admits S e) :
    ∃ s', s.step e = some s' ∧ s'.Ok S := by
  cases e with
  | add_output key =>
    obtain ⟨port, s', hadd, hok⟩ := h.add_output hS he
    exact ⟨s', by simp [DDemux.step, hadd], hok⟩
  | push key p answer =>
    obtain ⟨r, s', hpush, hok, -⟩ := h.push hS he
    exact ⟨s', by simp [DDemux.step, hpush], hok⟩
  | unblock i => exact h.unblock he
  | removePort port => exact he.elim
  | removeKey key => exact he.elim

/-- **Routing by key** where nothing is removed and the default output does not block last: no
assertion fails, the map is one to one onto the live outputs but the default one, a tuple is pushed
to its output if that is not blocked, and the count is that of the blocked outputs.
Hyps: `hS` says that the keys are ordered -/
theorem demux_routes (S : Set Value) (hS : LawfulOn S) (events : List (Event α))
    (h : Permitted step (Admits S) (setup α) events) :
    ∃ s, events.foldlM step (setup α) = some s ∧ (s.port_map.toList.map (·.2)).Nodup ∧
      (∀ i, i ∈ s.port_map.toList.map (·.2) ↔ s.Live i ∧ i ≠ 0) ∧
      s.count = blockedPorts s.toPorts s.toFlags ∧
      ∀ key p answer, s.Admits S (.push key p answer) → s.flags[s.route key]? = some false →
        ∃ r s', s.push key p answer = some (r, s') ∧
          s'.output = s.output ++ [(s.route key, p)] := by
  obtain ⟨s, hrun, hok⟩ := h.run (Ok.step hS) (Ok.setup S)
  refine ⟨s, hrun, hok.nodup, fun i => ?_, blockedPorts_eq hok.compact hok.wf hok.length,
    fun key p answer he hflag => ?_⟩
  · rw [hok.onto, hok.compact i]
    omega
  · obtain ⟨r, s', hpush, -, houtput⟩ := hok.push hS he
    exact ⟨r, s', hpush, houtput hflag⟩

theorem demux_routes_one : ∃ s : DDemux ℕ, [.add_output (.str [107]), .push (.str [107]) 5 false,
      .unblock 1].foldlM step (setup ℕ) = some s ∧ ∃ r s', s.push (.str [107]) 6 true = some (r, s') ∧
        s'.output = [(1, 5), (1, 6)] := by
  obtain ⟨s, hrun, -, -, -, hpush⟩ := demux_routes (Set.range Value.str) lawfulOn_str
    [.add_output (.str [107]), .push (.str [107]) 5 false, .unblock 1] (by
      refine ⟨⟨_, rfl⟩, fun s hs => ⟨⟨⟨_, rfl⟩, ?_⟩, fun s' hs' => ⟨?_, fun _ _ => trivial⟩⟩⟩
      · cases hs
        exact fun _ _ _ => ⟨nofun, rfl⟩
      · cases hs
        cases hs'
        exact mem_cons_self)
  cases hrun
  exact ⟨_, rfl, hpush (.str [107]) 6 true ⟨⟨_, rfl⟩, nofun⟩ rfl⟩

/-- An output is removed by its key, or by its number: both return -1, and the port stays. The
default output blocks while it is the only one: the assertion fails. -/
theorem demux_never_removes : ∃ s : DDemux ℕ, (setup ℕ).step (.add_output (.str [107])) = some s ∧
    s.removeKey (.str [107]) = some (none, s) ∧
    (∃ s', s.removePort 1 = some (none, s') ∧ s'.Live 1) ∧
    (setup ℕ).push (.str [107]) 5 false = none :=
  ⟨_, rfl, rfl, ⟨_, rfl, rfl⟩, rfl⟩

end DDemux

end P2.Elements
