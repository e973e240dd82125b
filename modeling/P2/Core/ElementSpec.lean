import Mathlib.Data.List.Nodup
import Mathlib.Logic.Function.Basic
import P2.Elements.Ports
import P2.Lib.Runs

/-!
# Port personalities

A dataflow resolves which of its ports push and which pull: along the hookups, and within an element
along the groups that its flow code makes of its ports. The spec of a dynamic element follows the
ports of the element.

* `unify_complete`: when the unification of a port reaches its whole group.
* `check_push_and_pull_resolves`: when the check of a dataflow ends with a consistent answer.
-/

namespace P2.Core

open P2.Lib List Function

inductive Processing where
  | AGNOSTIC
  | PUSH
  | PULL
  deriving DecidableEq

inductive Side where
  | input
  | output
  deriving DecidableEq

def Side.other : Side → Side
  | input => output
  | output => input

lemma Side.eq_other {side side' : Side} (h : side' ≠ side) : side' = side.other := by
  revert h
  cases side <;> cases side' <;> simp [Side.other]

/-- The ports of an element. -/
structure ElementSpec where
  /-- The flow codes of the ports of a side that belong to a group. -/
  flow : Side → List (Option Char)
  personality : Side × ℕ → Processing

inductive UnificationResult where
  | PROGRESS
  | UNCHANGED
  | CONFLICT
  deriving DecidableEq

namespace ElementSpec

/-- The codes of `n` ports: one after the other, and the last one for the ports that remain. -/
def spread {α : Type} (current : α) : List α → ℕ → List α
  | _, 0 => []
  | [], n + 1 => current :: spread current [] n
  | code :: codes, n + 1 => code :: spread code codes n

/-- `initializePorts`, on the codes before and behind the slash; `none` where the assertion fails. -/
def initializePorts (processing : List Processing × List Processing) (flow : List Char × List Char)
    (ninputs noutputs : ℕ) : Option ElementSpec :=
  let association (c : Char) : Option Char := if c = '-' then none else some c
  if processing.1.length ≤ ninputs ∧ flow.1.length ≤ ninputs then some
    { flow := fun
        | .input => (spread '-' flow.1 ninputs).map association
        | .output => (spread '-' flow.2 noutputs).map association
      personality := fun
        | (.input, n) => (spread .AGNOSTIC processing.1 ninputs).getD n .AGNOSTIC
        | (.output, n) => (spread .AGNOSTIC processing.2 noutputs).getD n .AGNOSTIC }
  else none

def group (s : ElementSpec) (side : Side) (code : Char) : List ℕ :=
  (range (s.flow side).length).filter fun i => decide ((s.flow side)[i]? = some (some code))

def setPersonality (port : Side × ℕ) (p : Processing) (s : ElementSpec) : ElementSpec :=
  { s with personality := Function.update s.personality port p }

def unify (processing p : Processing) : UnificationResult × Processing :=
  if processing = .AGNOSTIC then (.PROGRESS, p)
  else if processing = p then (.UNCHANGED, processing)
  else (.CONFLICT, processing)

/-- The loops of `unifyInput`, on what they read in the lists of a group; `none` where they read
behind the end of a list. -/
def unifyLoop (p : Processing) :
    List (Option (Side × ℕ)) → UnificationResult → ElementSpec →
      Option (UnificationResult × ElementSpec)
  | [], entireResult, s => some (entireResult, s)
  | none :: _, _, _ => none
  | some port :: others, entireResult, s =>
    match unify (s.personality port) p with
    | (.CONFLICT, _) => some (.CONFLICT, s)
    | (.PROGRESS, q) => unifyLoop p others .PROGRESS (s.setPersonality port q)
    | (.UNCHANGED, _) => unifyLoop p others entireResult s

/-- What the loops read: in the list of the port's own side all positions but `portNumber`, then the
list of the other side. -/
def reads (port : Side × ℕ) (code : Char) (s : ElementSpec) : List (Option (Side × ℕ)) :=
  let own := s.group port.1 code
  (range port.2 ++ range' (port.2 + 1) (own.length - (port.2 + 1))).map
      (fun i => own[i]?.map (Prod.mk port.1)) ++
    (s.group port.1.other code).map fun n => some (port.1.other, n)

/-- `unifyInput` and `unifyOutput`, without their assertion. -/
def unifyPort (port : Side × ℕ) (s : ElementSpec) : Option (UnificationResult × ElementSpec) :=
  if s.personality port = .AGNOSTIC then some (.UNCHANGED, s)
  else
    match (s.flow port.1)[port.2]? with
    | some (some code) => unifyLoop (s.personality port) (s.reads port code) .UNCHANGED s
    | _ => some (.UNCHANGED, s)

def unifyInput (portNumber : ℕ) : ElementSpec → Option (UnificationResult × ElementSpec) :=
  unifyPort (.input, portNumber)

def unifyOutput (portNumber : ℕ) : ElementSpec → Option (UnificationResult × ElementSpec) :=
  unifyPort (.output, portNumber)

/-! ## What unification does -/

variable {s s' : ElementSpec} {side : Side} {port : Side × ℕ} {p : Processing} {n : ℕ} {code : Char}

/-- Ports keep their groups, and a port that pushes or pulls goes on to. -/
structure Keeps (s s' : ElementSpec) : Prop where
  flow : s'.flow = s.flow
  personality : ∀ m, s.personality m ≠ .AGNOSTIC → s'.personality m = s.personality m

lemma Keeps.refl (s : ElementSpec) : Keeps s s := ⟨rfl, fun _ _ => rfl⟩

lemma Keeps.trans {s'' : ElementSpec} (h : Keeps s s') (h' : Keeps s' s'') : Keeps s s'' := by
  refine ⟨h'.flow.trans h.flow, fun m hm => ?_⟩
  have heq := h.personality m hm
  rw [h'.personality m (heq ▸ hm), heq]

lemma keeps_setPersonality (h : s.personality port = .AGNOSTIC) :
    Keeps s (s.setPersonality port p) := by
  refine ⟨rfl, fun m hm => update_of_ne (fun heq => hm ?_) _ _⟩
  rw [heq, h]

lemma mem_group : n ∈ s.group side code ↔ (s.flow side)[n]? = some (some code) := by
  simp only [group, mem_filter, mem_range, decide_eq_true_eq, and_iff_right_iff_imp]
  intro h
  exact (List.getElem?_eq_some_iff.mp h).1

def Opposed (p : Processing) (s : ElementSpec) (m : Side × ℕ) : Prop :=
  s.personality m ≠ .AGNOSTIC ∧ s.personality m ≠ p

/-- A port that takes the personality is not opposed to it before or afterwards. -/
lemma opposed_setPersonality (hagn : s.personality port = .AGNOSTIC) (m : Side × ℕ) :
    Opposed p (s.setPersonality port p) m ↔ Opposed p s m := by
  have hself : (s.setPersonality port p).personality port = p := update_self ..
  by_cases hm : m = port
  · subst hm
    simp [Opposed, hself, hagn]
  · simp [Opposed, setPersonality, update_of_ne hm]

lemma unifyLoop_spec (hp : p ≠ .AGNOSTIC) (ms : List (Side × ℕ)) {r : UnificationResult}
    (hr : r ≠ .CONFLICT) : ∃ r' s', unifyLoop p (ms.map some) r s = some (r', s') ∧ Keeps s s' ∧
      (r' = .CONFLICT ↔ ∃ m ∈ ms, Opposed p s m) ∧
      (r' ≠ .CONFLICT → ∀ m ∈ ms, s'.personality m = p) ∧
      ∀ m ∉ ms, s'.personality m = s.personality m := by
  induction ms generalizing s r with
  | nil => exact ⟨r, s, rfl, .refl s, by simp [hr], by simp, fun _ _ => rfl⟩
  | cons port ms ih =>
    simp only [map_cons, unifyLoop, unify, exists_mem_cons_iff, forall_mem_cons]
    split_ifs with hagn heq
    · obtain ⟨r', s', hloop, hkeeps, hconf, hall, hframe⟩ :=
        ih (s := s.setPersonality port p) (r := .PROGRESS) (by decide)
      have hself : (s.setPersonality port p).personality port = p := update_self ..
      refine ⟨r', s', hloop, (keeps_setPersonality hagn).trans hkeeps, hconf.trans ?_, ?_,
        fun m hm => ?_⟩
      · have hport : ¬ Opposed p s port := fun h => h.1 hagn
        simp [opposed_setPersonality hagn, hport]
      · intro hr'
        refine ⟨?_, hall hr'⟩
        rw [hkeeps.personality port (by rw [hself]; exact hp), hself]
      · obtain ⟨hne, hm⟩ := not_or.mp (mt mem_cons.mpr hm)
        exact (hframe m hm).trans (update_of_ne hne _ _)
    · obtain ⟨r', s', hloop, hkeeps, hconf, hall, hframe⟩ := ih (s := s) hr
      have hport : ¬ Opposed p s port := fun h => h.2 heq
      refine ⟨r', s', hloop, hkeeps, hconf.trans (by simp [hport]), fun hr' => ?_,
        fun m hm => hframe m (mt (mem_cons_of_mem port) hm)⟩
      exact ⟨(hkeeps.personality port hagn).trans heq, hall hr'⟩
    · exact ⟨.CONFLICT, s, rfl, .refl s, by simp [Opposed, hagn, heq], by simp, fun _ _ => rfl⟩

/-- A read behind the end of a list, unless there is a conflict before. -/
lemma unifyLoop_behind (p : Processing) (ms : List (Side × ℕ)) (rest : List (Option (Side × ℕ)))
    (r : UnificationResult) :
    (∃ s', unifyLoop p (ms.map some ++ none :: rest) r s = some (.CONFLICT, s') ∧ Keeps s s') ∧
        (∃ m ∈ ms, Opposed p s m) ∨
      unifyLoop p (ms.map some ++ none :: rest) r s = none ∧ ¬ ∃ m ∈ ms, Opposed p s m := by
  induction ms generalizing s r with
  | nil => exact Or.inr ⟨rfl, by simp⟩
  | cons port ms ih =>
    simp only [map_cons, cons_append, unifyLoop, unify, exists_mem_cons_iff]
    split_ifs with hagn heq
    · have hport : ¬ Opposed p s port := fun h => h.1 hagn
      have hrest := ih (s := s.setPersonality port p) .PROGRESS
      simp only [opposed_setPersonality hagn] at hrest
      simp only [hport, false_or]
      refine hrest.imp_left (And.imp_left ?_)
      exact fun ⟨s', hs', hkeeps⟩ => ⟨s', hs', (keeps_setPersonality hagn).trans hkeeps⟩
    · have hport : ¬ Opposed p s port := fun h => h.2 heq
      simpa only [hport, false_or] using ih (s := s) r
    · exact Or.inl ⟨⟨s, rfl, .refl s⟩, Or.inl ⟨hagn, heq⟩⟩

lemma map_getElem?_range {l : List ℕ} (h : n ≤ l.length) :
    (range n).map (l[·]?) = (l.take n).map some := by
  refine ext_getElem? fun i => ?_
  rcases lt_or_ge i n with hi | hi
  · simp [hi, hi.trans_le h]
  · simp [hi, h]

lemma map_getElem?_range' (l : List ℕ) (n : ℕ) :
    (range' n (l.length - n)).map (l[·]?) = (l.drop n).map some := by
  refine ext_getElem? fun i => ?_
  rcases lt_or_ge i (l.length - n) with hi | hi
  · have hlen : n + i < l.length := by omega
    simp [hi]
  · simp [hi]

/-- The ports that the loops read when they stay within the lists. -/
def others (port : Side × ℕ) (code : Char) (s : ElementSpec) : List (Side × ℕ) :=
  let own := s.group port.1 code
  (own.take port.2 ++ own.drop (port.2 + 1)).map (Prod.mk port.1) ++
    (s.group port.1.other code).map (Prod.mk port.1.other)

lemma reads_eq (h : port.2 ≤ (s.group port.1 code).length) :
    s.reads port code = (s.others port code).map some := by
  have hown := congrArg (map (Option.map (Prod.mk port.1))) (congrArg₂ (· ++ ·)
    (map_getElem?_range h) (map_getElem?_range' (s.group port.1 code) (port.2 + 1)))
  simp only [reads, others, map_append, map_map, comp_def] at hown ⊢
  rw [hown]
  simp

def InGroup (s : ElementSpec) (code : Char) (m : Side × ℕ) : Prop :=
  (s.flow m.1)[m.2]? = some (some code)

lemma inGroup_of_mem_others {m : Side × ℕ} (h : m ∈ s.others port code) : s.InGroup code m := by
  simp only [others, mem_append, mem_map] at h
  rcases h with ⟨n, hn, rfl⟩ | ⟨n, hn, rfl⟩
  · exact mem_group.mp (hn.elim mem_of_mem_take mem_of_mem_drop)
  · exact mem_group.mp hn

/-- Where the list of the group is shorter than the number of the port, the loops read behind it. -/
lemma reads_behind (h : (s.group port.1 code).length < port.2) :
    ∃ rest, s.reads port code =
      ((s.group port.1 code).map (Prod.mk port.1)).map some ++ none :: rest := by
  obtain ⟨k, hk⟩ := Nat.exists_eq_add_of_lt h
  have hlist : (range port.2).map ((s.group port.1 code)[·]?) =
      (s.group port.1 code).map some ++ none :: (range k).map fun _ => none := by
    rw [hk, Nat.add_assoc, range_add, map_append, map_getElem?_range le_rfl, take_length, map_map,
      range_succ_eq_map, map_cons, map_map]
    refine congrArg₂ _ rfl (congrArg₂ _ (by simp) (map_congr_left fun i _ => ?_))
    simp
  have hown := congrArg (map (Option.map (Prod.mk port.1))) hlist
  simp only [map_append, map_cons, map_map, comp_def, Option.map_none] at hown
  simp only [reads, map_append, hown, append_assoc, cons_append, map_map, comp_def, Option.map_some]
  exact ⟨_, rfl⟩

lemma nodup_group (s : ElementSpec) (side : Side) (code : Char) : (s.group side code).Nodup :=
  nodup_range.filter _

/-- The loops pass over the member at the position that is the number of the port. -/
lemma mem_others {k : ℕ} (hk : (s.group port.1 code)[port.2]? = some k) {m : Side × ℕ} :
    m ∈ s.others port code ↔ s.InGroup code m ∧ m ≠ (port.1, k) := by
  obtain ⟨side, n⟩ := m
  obtain ⟨hlt, hget⟩ := List.getElem?_eq_some_iff.mp hk
  have hsplit : s.group port.1 code =
      (s.group port.1 code).take port.2 ++ k :: (s.group port.1 code).drop (port.2 + 1) := by
    rw [← hget, ← drop_eq_getElem_cons hlt, take_append_drop]
  have hnodup := s.nodup_group port.1 code
  rw [hsplit, nodup_middle, nodup_cons, mem_append] at hnodup
  refine ⟨fun hm => ⟨inGroup_of_mem_others hm, ?_⟩, fun ⟨hm, hne⟩ => ?_⟩
  · rintro ⟨rfl, rfl⟩
    simp only [others, mem_append, mem_map, Prod.mk.injEq, true_and, exists_eq_right] at hm
    rcases hm with hm | ⟨_, -, hside, -⟩
    · exact hnodup.1 hm
    · exact absurd hside (by cases port.1 <;> simp [Side.other])
  · have hn : n ∈ s.group side code := mem_group.mpr hm
    by_cases hside : side = port.1
    · subst hside
      rw [hsplit] at hn
      simp only [others, mem_append, mem_map, mem_cons] at hn ⊢
      rcases hn with hn | rfl | hn
      · exact .inl ⟨n, .inl hn, rfl⟩
      · exact absurd rfl hne
      · exact .inl ⟨n, .inr hn, rfl⟩
    · obtain rfl := Side.eq_other hside
      exact mem_append_right _ (mem_map_of_mem hn)

lemma mem_others_of_length (hlen : (s.group port.1 code).length = port.2) {m : Side × ℕ}
    (hm : s.InGroup code m) : m ∈ s.others port code := by
  obtain ⟨side, n⟩ := m
  have hn : n ∈ s.group side code := mem_group.mpr hm
  by_cases hside : side = port.1
  · subst hside
    refine mem_append_left _ (mem_map_of_mem (mem_append_left _ ?_))
    rwa [← hlen, take_length]
  · obtain rfl := Side.eq_other hside
    exact mem_append_right _ (mem_map_of_mem hn)

/-- What the unification of a port does to its group: it reads members only, it fails exactly when
one has the other personality, and else they all have the personality of the port. -/
def Unified (s : ElementSpec) (code : Char) (port : Side × ℕ)
    (result : Option (UnificationResult × ElementSpec)) : Prop :=
  ∃ r s', result = some (r, s') ∧
    (r ≠ .CONFLICT → ∀ m, s.InGroup code m → s'.personality m = s.personality port) ∧
    (r = .CONFLICT ↔ ∃ m, s.InGroup code m ∧ Opposed (s.personality port) s m)

/-- The member that the loops pass over, at the position that is the number of the port, has its
personality, or another member has the opposite one. Where there is no such member, the list is just as
long as the number of the port, or a conflict is found before the list ends. -/
def PassesOver (s : ElementSpec) (code : Char) (port : Side × ℕ) : Prop :=
  match (s.group port.1 code)[port.2]? with
  | some k => s.personality (port.1, k) = s.personality port ∨
      ∃ m, s.InGroup code m ∧ m ≠ (port.1, k) ∧ Opposed (s.personality port) s m
  | none => (s.group port.1 code).length = port.2 ∨
      ∃ k ∈ s.group port.1 code, Opposed (s.personality port) s (port.1, k)

lemma unifyPort_eq (hp : s.personality port ≠ .AGNOSTIC) (hin : s.InGroup code port) :
    s.unifyPort port = unifyLoop (s.personality port) (s.reads port code) .UNCHANGED s := by
  have hflow : (s.flow port.1)[port.2]? = some (some code) := hin
  simp only [unifyPort, if_neg hp, hflow]

/-- Where the list of the group is shorter than the number of the port, a conflict with a port in the
list ends the loops before they read behind it. -/
lemma unifyPort_behind (hp : s.personality port ≠ .AGNOSTIC) (hin : s.InGroup code port)
    (hlt : (s.group port.1 code).length < port.2) :
    (∃ s', s.unifyPort port = some (.CONFLICT, s') ∧ Keeps s s') ∧
        (∃ k ∈ s.group port.1 code, Opposed (s.personality port) s (port.1, k)) ∨
      s.unifyPort port = none ∧
        ¬ ∃ k ∈ s.group port.1 code, Opposed (s.personality port) s (port.1, k) := by
  obtain ⟨rest, hreads⟩ := reads_behind hlt
  have hloop := unifyLoop_behind (s := s) (s.personality port)
    ((s.group port.1 code).map (Prod.mk port.1)) rest .UNCHANGED
  simp only [mem_map, exists_exists_and_eq_and] at hloop
  rwa [unifyPort_eq hp hin, hreads]

lemma unified_unifyPort_iff (hp : s.personality port ≠ .AGNOSTIC) (hin : s.InGroup code port) :
    Unified s code port (s.unifyPort port) ↔ s.PassesOver code port := by
  obtain ⟨r, s', hloop, hkeeps, hconf, hall, hframe⟩ :=
    unifyLoop_spec (s := s) hp (s.others port code) (r := .UNCHANGED) (by decide)
  rw [PassesOver]
  rcases hget : (s.group port.1 code)[port.2]? with _ | k
  · -- the list of the group ends before the position that is skipped
    have hle := List.getElem?_eq_none_iff.mp hget
    by_cases hlen : (s.group port.1 code).length = port.2
    · rw [unifyPort_eq hp hin, reads_eq hlen.ge, hloop]
      refine iff_of_true ⟨r, s', rfl, fun hr m hm => hall hr m (mem_others_of_length hlen hm), ?_⟩
        (Or.inl hlen)
      exact hconf.trans ⟨fun ⟨m, hm, hop⟩ => ⟨m, inGroup_of_mem_others hm, hop⟩,
        fun ⟨m, hm, hop⟩ => ⟨m, mem_others_of_length hlen hm, hop⟩⟩
    · rcases unifyPort_behind hp hin (Nat.lt_of_le_of_ne hle hlen) with
        ⟨⟨s₁, hs₁, -⟩, k, hk, hop⟩ | ⟨hnone, hno⟩
      · exact iff_of_true ⟨_, s₁, hs₁, fun hr => absurd rfl hr,
          fun _ => ⟨_, mem_group.mp hk, hop⟩, fun _ => rfl⟩ (Or.inr ⟨k, hk, hop⟩)
      · refine iff_of_false ?_ (not_or.mpr ⟨hlen, hno⟩)
        rintro ⟨r', s₁, hs₁, -⟩
        cases hnone.symm.trans hs₁
  · -- all members but the one at that position are visited
    have hmem := fun m => mem_others (m := m) hget
    rw [unifyPort_eq hp hin, reads_eq (List.getElem?_eq_some_iff.mp hget).1.le, hloop]
    have hskip : (port.1, k) ∉ s.others port code := fun hm => ((hmem _).mp hm).2 rfl
    constructor
    · rintro ⟨r', s₁, hs₁, hall', hconf'⟩
      obtain ⟨rfl, rfl⟩ := Prod.mk.inj (Option.some.inj hs₁)
      by_cases hr : r = .CONFLICT
      · obtain ⟨m, hm, hop⟩ := hconf.mp hr
        exact Or.inr ⟨m, ((hmem m).mp hm).1, ((hmem m).mp hm).2, hop⟩
      · refine Or.inl ((hframe _ hskip).symm.trans (hall' hr _ ?_))
        exact mem_group.mp (mem_of_getElem? hget)
    · rintro (hsame | ⟨m, hm, hne, hop⟩)
      · refine ⟨r, s', rfl, fun hr m hm => ?_, hconf.trans ⟨?_, ?_⟩⟩
        · by_cases hk : m = (port.1, k)
          · rw [hk, hframe _ hskip, hsame]
          · exact hall hr m ((hmem m).mpr ⟨hm, hk⟩)
        · rintro ⟨m, hm, hop⟩
          exact ⟨m, ((hmem m).mp hm).1, hop⟩
        · rintro ⟨m, hm, hop⟩
          refine ⟨m, (hmem m).mpr ⟨hm, ?_⟩, hop⟩
          rintro rfl
          exact hop.2 hsame
      · have hr : r = .CONFLICT := hconf.mpr ⟨m, (hmem m).mpr ⟨hm, hne⟩, hop⟩
        exact ⟨r, s', rfl, fun hne => absurd hr hne, fun _ => ⟨m, hm, hop⟩, fun _ => hr⟩

/-- **When a flow group is unified completely** from a port: exactly if the member that is passed over
does no harm.
Hyps: the port pushes or pulls and belongs to the group. -/
theorem unify_complete (s : ElementSpec) (code : Char) (n : ℕ) :
    (s.personality (.input, n) ≠ .AGNOSTIC → s.InGroup code (.input, n) →
      (Unified s code (.input, n) (s.unifyInput n) ↔ s.PassesOver code (.input, n))) ∧
    (s.personality (.output, n) ≠ .AGNOSTIC → s.InGroup code (.output, n) →
      (Unified s code (.output, n) (s.unifyOutput n) ↔ s.PassesOver code (.output, n))) :=
  ⟨unified_unifyPort_iff, unified_unifyPort_iff⟩

/-- With the flow code `-x/` the list of the group ends before the position of the port. -/
theorem unify_complete_flow :
    ∀ s ∈ initializePorts ([.PUSH], [.AGNOSTIC]) (['-', 'x'], ['x']) 2 1,
      Unified s 'x' (.input, 1) (s.unifyInput 1) := by
  rintro s ⟨⟩
  refine ((unify_complete _ 'x' 1).1 (by decide) ?_).mpr (Or.inl rfl)
  rfl

/-- With the flow code `xyy/` the loops come past port 1 itself and pass over port 2. -/
theorem unifyInput_passes_over :
    (initializePorts ([.AGNOSTIC, .PUSH, .AGNOSTIC], []) (['x', 'y', 'y'], []) 3 0).bind
        (fun s => (s.unifyInput 1).map fun r =>
          (s.personality (.input, 1), s.group .input 'y', r.1, r.2.personality (.input, 2))) =
      some (.PUSH, [1, 2], .UNCHANGED, .AGNOSTIC) := by
  decide

/-- The unification of the port does not read behind the list of its group: its number is not greater
than the number of ports of its side in the group, or one of these has the opposite personality. -/
def InRange (s : ElementSpec) (port : Side × ℕ) : Prop :=
  ∀ code, s.InGroup code port → port.2 ≤ (s.group port.1 code).length ∨
    ∃ k ∈ s.group port.1 code, Opposed (s.personality port) s (port.1, k)

lemma InRange.unifyPort (h : s.InRange port) :
    ∃ r s', s.unifyPort port = some (r, s') ∧ Keeps s s' := by
  by_cases hp : s.personality port = .AGNOSTIC
  · exact ⟨_, s, if_pos hp, .refl s⟩
  rcases hflow : (s.flow port.1)[port.2]? with _ | _ | code
  · exact ⟨.UNCHANGED, s, by simp only [ElementSpec.unifyPort, if_neg hp, hflow], .refl s⟩
  · exact ⟨.UNCHANGED, s, by simp only [ElementSpec.unifyPort, if_neg hp, hflow], .refl s⟩
  by_cases hle : port.2 ≤ (s.group port.1 code).length
  · obtain ⟨r, s', hloop, hkeeps, -⟩ :=
      unifyLoop_spec (s := s) hp (s.others port code) (r := .UNCHANGED) (by decide)
    exact ⟨r, s', by rw [unifyPort_eq hp hflow, reads_eq hle, hloop], hkeeps⟩
  · rcases unifyPort_behind hp hflow (Nat.not_le.mp hle) with ⟨⟨s', hs'⟩, -⟩ | ⟨-, hno⟩
    · exact ⟨_, s', hs'⟩
    · exact absurd ((h code hflow).resolve_left hle) hno

lemma InRange.of_unifyPort (hp : s.personality port ≠ .AGNOSTIC) {r : UnificationResult × ElementSpec}
    (h : s.unifyPort port = some r) : s.InRange port := by
  intro code hin
  refine or_iff_not_imp_left.mpr fun hlt => ?_
  rcases unifyPort_behind hp hin (Nat.not_le.mp hlt) with ⟨-, hop⟩ | ⟨hnone, -⟩
  · exact hop
  · cases hnone.symm.trans h

end ElementSpec

/-! ## The dataflow -/

structure Hookup (ι : Type) where
  fromElement : ι
  fromPortNumber : ℕ
  toElement : ι
  toPortNumber : ℕ

/-- The variables of `check_push_and_pull`, and the specs of the elements. -/
structure Check (ι : Type) where
  specs : ι → ElementSpec
  errors : ℕ := 0
  progress : Bool := false

namespace Check

open ElementSpec

variable {ι : Type}

def fromEnd (h : Hookup ι) : ι × Side × ℕ := (h.fromElement, .output, h.fromPortNumber)

def toEnd (h : Hookup ι) : ι × Side × ℕ := (h.toElement, .input, h.toPortNumber)

def personality (specs : ι → ElementSpec) (m : ι × Side × ℕ) : Processing :=
  (specs m.1).personality m.2

section Model

variable [DecidableEq ι]

def resolve (e : ι) (port : Side × ℕ) (p : Processing) (st : Check ι) : Option (Check ι) := do
  let (result, spec) ← ((st.specs e).setPersonality port p).unifyPort port
  return { specs := Function.update st.specs e spec
           errors := if result = .CONFLICT then st.errors + 1 else st.errors
           progress := true }

def hookup (st : Check ι) (h : Hookup ι) : Option (Check ι) :=
  match personality st.specs (fromEnd h), personality st.specs (toEnd h) with
  | .PUSH, .PUSH | .PULL, .PULL | .AGNOSTIC, .AGNOSTIC => some st
  | .PUSH, .PULL | .PULL, .PUSH => some { st with errors := st.errors + 1 }
  | p, .AGNOSTIC => st.resolve h.toElement (.input, h.toPortNumber) p
  | .AGNOSTIC, p => st.resolve h.fromElement (.output, h.fromPortNumber) p

/-- `check_push_and_pull`, with at most so many rounds of its outer loop; `none` where these do not
suffice, or a list is read behind its end. -/
def check_push_and_pull (hookups : List (Hookup ι)) : ℕ → Check ι → Option (ℤ × (ι → ElementSpec))
  | 0, _ => none
  | n + 1, st => do
    let st ← hookups.foldlM hookup { st with progress := false }
    if st.progress then check_push_and_pull hookups n st
    else return (if 0 < st.errors then -1 else 0, st.specs)

/-- The end of a hookup that is given a personality: the agnostic one, if the other one is not. -/
def resolved (specs : ι → ElementSpec) (h : Hookup ι) : Option ((ι × Side × ℕ) × Processing) :=
  match personality specs (fromEnd h), personality specs (toEnd h) with
  | .AGNOSTIC, .AGNOSTIC => none
  | p, .AGNOSTIC => some (toEnd h, p)
  | .AGNOSTIC, p => some (fromEnd h, p)
  | _, _ => none

/-- The port that the check is to unify, if any, is in range. -/
def Safe (st : Check ι) (h : Hookup ι) : Prop :=
  ∀ m p, resolved st.specs h = some (m, p) → ((st.specs m.1).setPersonality m.2 p).InRange m.2

/-- A round of the outer loop begins in this state. -/
inductive Reaches (hookups : List (Hookup ι)) : Check ι → Check ι → Prop
  | refl {st : Check ι} : Reaches hookups st st
  | round {st st' st'' : Check ι} :
      hookups.foldlM hookup { st with progress := false } = some st' → st'.progress = true →
      Reaches hookups st' st'' → Reaches hookups st st''

end Model

def KeepsAll (specs specs' : ι → ElementSpec) : Prop := ∀ e, Keeps (specs e) (specs' e)

lemma KeepsAll.trans {specs specs' specs'' : ι → ElementSpec} (h : KeepsAll specs specs')
    (h' : KeepsAll specs' specs'') : KeepsAll specs specs'' :=
  fun e => (h e).trans (h' e)

lemma KeepsAll.personality {specs specs' : ι → ElementSpec} (h : KeepsAll specs specs')
    {m : ι × Side × ℕ} (hm : personality specs m ≠ .AGNOSTIC) :
    personality specs' m = personality specs m :=
  (h m.1).personality m.2 hm

variable {st : Check ι}

/-- What a part of a round does: it fixes a port of one of its hookups that was agnostic, or changes
nothing, and then counts an error unless both ends of each of its hookups agree. -/
structure Round (hookups : List (Hookup ι)) (st st' : Check ι) : Prop where
  keeps : KeepsAll st.specs st'.specs
  errors : st.errors ≤ st'.errors
  idle : st'.progress = false → st.progress = false ∧ st'.specs = st.specs ∧
    (st'.errors = st.errors → ∀ h ∈ hookups,
      personality st.specs (fromEnd h) = personality st.specs (toEnd h))
  progress : st'.progress = true → st.progress = true ∨
    ∃ h ∈ hookups, ∃ m, (m = fromEnd h ∨ m = toEnd h) ∧
      personality st.specs m = .AGNOSTIC ∧ personality st'.specs m ≠ .AGNOSTIC

lemma Round.cons {h : Hookup ι} {hookups : List (Hookup ι)} {st' st'' : Check ι}
    (hfirst : Round [h] st st') (hrest : Round hookups st' st'') :
    Round (h :: hookups) st st'' := by
  refine ⟨hfirst.keeps.trans hrest.keeps, hfirst.errors.trans hrest.errors, fun hp => ?_,
    fun hp => ?_⟩
  · obtain ⟨hp', hspecs', heq'⟩ := hrest.idle hp
    obtain ⟨hp'', hspecs, heq⟩ := hfirst.idle hp'
    refine ⟨hp'', hspecs'.trans hspecs, fun herr => ?_⟩
    have hle := hfirst.errors
    have hle' := hrest.errors
    rw [hspecs] at heq'
    exact forall_mem_cons.mpr
      ⟨heq (by omega) h (mem_singleton_self h), heq' (by omega)⟩
  · rcases hrest.progress hp with hp' | ⟨h', hmem, m, hm, hagn, hne⟩
    · rcases hfirst.progress hp' with hp'' | ⟨h', hmem, m, hm, hagn, hne⟩
      · exact .inl hp''
      · obtain rfl := mem_singleton.mp hmem
        exact .inr ⟨h', mem_cons_self, m, hm, hagn, hrest.keeps.personality hne ▸ hne⟩
    · -- a port that is agnostic later was agnostic all along
      refine .inr ⟨h', mem_cons_of_mem h hmem, m, hm, ?_, hne⟩
      by_contra hne'
      exact hne' ((hfirst.keeps.personality hne').symm.trans hagn)

def agnostic (hookups : List (Hookup ι)) (specs : ι → ElementSpec) : ℕ :=
  (hookups.flatMap fun h => [fromEnd h, toEnd h]).countP (personality specs · = .AGNOSTIC)

lemma Round.agnostic_lt {hookups : List (Hookup ι)} {st' : Check ι} (h : Round hookups st st')
    (hst : st.progress = false) (hst' : st'.progress = true) :
    agnostic hookups st'.specs < agnostic hookups st.specs := by
  rcases h.progress hst' with hp | ⟨h', hmem, m, hm, hagn, hne⟩
  · exact absurd (hst.symm.trans hp) Bool.false_ne_true
  · have hends : m ∈ hookups.flatMap fun h => [fromEnd h, toEnd h] :=
      mem_flatMap.mpr ⟨h', hmem, by rcases hm with rfl | rfl <;> simp⟩
    refine countP_lt_countP (fun x _ hx => ?_) hends (by simpa using hne) (by simpa using hagn)
    simp only [decide_eq_true_eq] at hx ⊢
    by_contra hx'
    exact hx' ((h.keeps.personality hx').symm.trans hx)

variable [DecidableEq ι]

lemma round_resolve {h : Hookup ι} {m : ι × Side × ℕ} (hm : m = fromEnd h ∨ m = toEnd h)
    (hagn : personality st.specs m = .AGNOSTIC) {p : Processing} (hp : p ≠ .AGNOSTIC)
    (hrange : ((st.specs m.1).setPersonality m.2 p).InRange m.2) :
    ∃ st', st.resolve m.1 m.2 p = some st' ∧ Round [h] st st' := by
  have hset : Keeps (st.specs m.1) ((st.specs m.1).setPersonality m.2 p) :=
    keeps_setPersonality hagn
  obtain ⟨r, s', hunify, hkeeps⟩ := hrange.unifyPort
  have hself : ((st.specs m.1).setPersonality m.2 p).personality m.2 = p := update_self ..
  refine ⟨_, by simp only [resolve, hunify]; rfl, fun e => ?_, ?_, by simp, fun _ => .inr ?_⟩
  · by_cases he : e = m.1
    · subst he
      simpa using hset.trans hkeeps
    · simp [he, Keeps.refl]
  · dsimp only
    split_ifs <;> omega
  · refine ⟨h, mem_singleton_self h, m, hm, hagn, ?_⟩
    have hfixed := hkeeps.personality m.2 (by rw [hself]; exact hp)
    simpa [personality, hfixed, hself] using hp

lemma round_hookup {h : Hookup ι} (hsafe : st.Safe h) :
    ∃ st', st.hookup h = some st' ∧ Round [h] st st' := by
  have hsame : ∀ (errors : ℕ), st.errors ≤ errors →
      (errors = st.errors → personality st.specs (fromEnd h) = personality st.specs (toEnd h)) →
      Round [h] st { st with errors := errors } := by
    intro errors hle heq
    exact ⟨fun e => .refl _, hle, fun hp => ⟨hp, rfl, by simpa using heq⟩, fun hp => .inl hp⟩
  have hequal : personality st.specs (fromEnd h) = personality st.specs (toEnd h) →
      ∃ st', some st = some st' ∧ Round [h] st st' :=
    fun heq => ⟨st, rfl, hsame st.errors le_rfl fun _ => heq⟩
  have herror : ∃ st', some { st with errors := st.errors + 1 } = some st' ∧ Round [h] st st' :=
    ⟨_, rfl, hsame (st.errors + 1) (Nat.le_succ _) fun heq => by omega⟩
  unfold hookup
  cases hf : personality st.specs (fromEnd h) with
  | AGNOSTIC =>
    cases ht : personality st.specs (toEnd h) with
    | AGNOSTIC => exact hequal (hf.trans ht.symm)
    | PUSH | PULL =>
      exact round_resolve (.inl rfl) hf (by decide) (hsafe _ _ (by simp only [resolved, hf, ht]))
  | PUSH =>
    cases ht : personality st.specs (toEnd h) with
    | AGNOSTIC =>
      exact round_resolve (.inr rfl) ht (by decide) (hsafe _ _ (by simp only [resolved, hf, ht]))
    | PUSH => exact hequal (hf.trans ht.symm)
    | PULL => exact herror
  | PULL =>
    cases ht : personality st.specs (toEnd h) with
    | AGNOSTIC =>
      exact round_resolve (.inr rfl) ht (by decide) (hsafe _ _ (by simp only [resolved, hf, ht]))
    | PUSH => exact herror
    | PULL => exact hequal (hf.trans ht.symm)

lemma inRange_of_resolve {m : ι × Side × ℕ} {p : Processing} (hp : p ≠ .AGNOSTIC) {st' : Check ι}
    (h : st.resolve m.1 m.2 p = some st') : ((st.specs m.1).setPersonality m.2 p).InRange m.2 := by
  unfold resolve at h
  obtain ⟨r, hr, -⟩ := Option.bind_eq_some_iff.mp h
  refine InRange.of_unifyPort ?_ hr
  rw [show ((st.specs m.1).setPersonality m.2 p).personality m.2 = p from update_self ..]
  exact hp

lemma safe_of_hookup (st : Check ι) (h : Hookup ι) (st' : Check ι) (hstep : st.hookup h = some st') :
    st.Safe h := by
  intro m p hcall
  unfold resolved at hcall
  unfold hookup at hstep
  cases hf : personality st.specs (fromEnd h) <;> cases ht : personality st.specs (toEnd h) <;>
    simp only [hf, ht, reduceCtorEq, Option.some.injEq, Prod.mk.injEq] at hcall hstep
  all_goals
    obtain ⟨rfl, rfl⟩ := hcall
    exact inRange_of_resolve (by decide) hstep

lemma round_foldlM {hookups : List (Hookup ι)} (hst : Permitted hookup Safe st hookups) :
    ∃ st', hookups.foldlM hookup st = some st' ∧ Round hookups st st' := by
  induction hookups generalizing st with
  | nil =>
    refine ⟨st, rfl, fun e => .refl _, le_rfl, fun hp => ⟨hp, rfl, by simp⟩, fun hp => .inl hp⟩
  | cons h hookups ih =>
    obtain ⟨st', hh, hround⟩ := round_hookup hst.1
    obtain ⟨st'', hrest, hround'⟩ := ih (hst.2 st' hh)
    exact ⟨st'', by rw [foldlM_cons, hh]; exact hrest, hround.cons hround'⟩

lemma permitted_of_check {hookups : List (Hookup ι)} {n : ℕ} {st' : Check ι}
    {result : ℤ × (ι → ElementSpec)} (h : check_push_and_pull hookups n st = some result)
    (hreaches : Reaches hookups st st') :
    Permitted hookup Safe { st' with progress := false } hookups := by
  induction hreaches generalizing n with
  | refl =>
    cases n with
    | zero => cases h
    | succ n =>
      obtain ⟨st₁, hst₁, -⟩ := Option.bind_eq_some_iff.mp h
      exact permitted_of_foldlM safe_of_hookup hst₁
  | round hround hprogress _ ih =>
    cases n with
    | zero => cases h
    | succ n =>
      simp only [check_push_and_pull, hround, Option.bind_eq_bind, Option.bind_some, hprogress,
        if_true] at h
      exact ih h

/-- **When port personalities are resolved consistently**: the check ends, and both ends of every
hookup have the same personality when it returns 0, exactly if each port that it unifies is in range. -/
theorem check_push_and_pull_resolves (hookups : List (Hookup ι)) (specs : ι → ElementSpec) :
    (∃ rounds code specs', check_push_and_pull hookups rounds ⟨specs, 0, false⟩ =
        some (code, specs') ∧
      (code = 0 → ∀ h ∈ hookups,
        personality specs' (fromEnd h) = personality specs' (toEnd h))) ↔
    ∀ st, Reaches hookups ⟨specs, 0, false⟩ st →
      Permitted hookup Safe { st with progress := false } hookups := by
  -- the number of agnostic ends bounds the rounds that still make progress
  have hend : ∀ n (st : Check ι), (∀ st', Reaches hookups st st' →
        Permitted hookup Safe { st' with progress := false } hookups) →
      agnostic hookups st.specs < n →
      ∃ code specs', check_push_and_pull hookups n st = some (code, specs') ∧
        (code = 0 → ∀ h ∈ hookups,
          personality specs' (fromEnd h) = personality specs' (toEnd h)) := by
    intro n
    induction n with
    | zero => exact fun st _ hlt => absurd hlt (Nat.not_lt_zero _)
    | succ n ih =>
      intro st hst hlt
      obtain ⟨st', hfold, hround⟩ := round_foldlM (hst st .refl)
      simp only [check_push_and_pull, hfold, Option.bind_eq_bind, Option.bind_some]
      cases hp : st'.progress with
      | true =>
        have hlt' := hround.agnostic_lt rfl hp
        exact ih st' (fun st'' hreaches => hst st'' (.round hfold hp hreaches))
          (by simp only at hlt'; omega)
      | false =>
        obtain ⟨-, hspecs', heq⟩ := hround.idle hp
        refine ⟨_, _, rfl, fun hcode => ?_⟩
        rw [hspecs']
        refine heq ?_
        -- no error was counted, in this round or before
        have hle := hround.errors
        simp only at hle ⊢
        omega
  constructor
  · rintro ⟨rounds, code, specs', hrun, -⟩ st hreaches
    exact permitted_of_check hrun hreaches
  · intro hst
    obtain ⟨code, specs', hrun⟩ := hend _ ⟨specs, 0, false⟩ hst (Nat.lt_succ_self _)
    exact ⟨_, code, specs', hrun⟩

def threeHookups : List (Hookup Bool) := [⟨false, 0, true, 0⟩, ⟨false, 1, true, 1⟩, ⟨false, 2, true, 2⟩]

/-- Three ports that push, the last one alone in its group: none of them is unified. -/
theorem check_push_and_pull_resolves_pushes :
    ∃ rounds code specs', check_push_and_pull threeHookups rounds
        ⟨fun e => if e then ⟨fun _ => [none, none, some 'x'], fun _ => .PUSH⟩
          else ⟨fun _ => [none, none, none], fun _ => .PUSH⟩, 0, false⟩ = some (code, specs') ∧
      (code = 0 → ∀ h ∈ threeHookups,
        personality specs' (fromEnd h) = personality specs' (toEnd h)) := by
  refine (check_push_and_pull_resolves threeHookups _).mpr fun st hreaches => ?_
  cases hreaches with
  | refl => exact permitted_cons nofun rfl (permitted_cons nofun rfl (permitted_cons nofun rfl trivial))
  | round hround hprogress =>
    cases hround
    cases hprogress

/-- Port 2 of the flow code `--x/` is alone in its group; its unification reads a second member. -/
theorem check_push_and_pull_reads_behind :
    (initializePorts ([], [.PUSH]) ([], ['-']) 0 3).bind (fun source =>
        (initializePorts ([.PUSH, .PUSH, .AGNOSTIC], []) (['-', '-', 'x'], []) 3 0).map fun sink =>
          fun rounds : ℕ => check_push_and_pull threeHookups rounds
            ⟨fun e => if e then sink else source, 0, false⟩) =
      some fun _ => none := by
  refine congrArg some (funext fun rounds => ?_)
  cases rounds <;> rfl

end Check

/-! ## Dynamic ports -/

/-- A dynamic element and its spec. -/
structure Dynamic where
  processing : Side → Processing
  element : Side → Elements.Ports
  spec : Side → List Processing

namespace Dynamic

open Elements

def setup (processing : Side → Processing) (n : Side → ℕ) : Dynamic where
  processing := processing
  element side := .setup (n side)
  spec side := replicate (n side) (processing side)

def write (side : Side) (ports : Ports) (objects : List Processing) (s : Dynamic) : Dynamic :=
  { s with
    element := Function.update s.element side ports
    spec := Function.update s.spec side objects }

/-- A new port number at the end of the vector; `none` where the assertion fails. -/
def push_back (side : Side) (port : ℕ) (ports : Ports) (s : Dynamic) : Option Dynamic :=
  if port = (s.spec side).length then
    some (s.write side ports (s.spec side ++ [s.processing side]))
  else none

def add_input (s : Dynamic) : Option Dynamic := do
  let (port, ports) ← (s.element .input).add
  if port < (s.spec .input).length then
    return s.write .input ports ((s.spec .input).set port (s.processing .input))
  else s.push_back .input port ports

/-- The comparison is the other way round than in `add_input`; `none` also where the index is out of
range. -/
def add_output (s : Dynamic) : Option Dynamic := do
  let (port, ports) ← (s.element .output).add
  if (s.spec .output).length < port then none
  else s.push_back .output port ports

/-- `remove_input` and `remove_output`: only the counterpart of the port object is reset. -/
def remove (side : Side) (port : ℕ) (s : Dynamic) : Option Dynamic := do
  let ports ← (s.element side).delete port
  if port < (s.spec side).length then return s.write side ports (s.spec side) else none

inductive Op where
  | add_input
  | add_output
  | remove_input (port : ℕ)
  | remove_output (port : ℕ)

def step (s : Dynamic) : Op → Option Dynamic
  | .add_input => s.add_input
  | .add_output => s.add_output
  | .remove_input port => s.remove .input port
  | .remove_output port => s.remove .output port

def Op.Adds : Op → Prop
  | .add_input | .add_output => True
  | _ => False

/-- The spec has a port object with the personality of the element at exactly the live ports. -/
def Follows (s : Dynamic) : Prop :=
  ∀ side i, (s.spec side)[i]? =
    if (s.element side).Live i then some (s.processing side) else none

variable {s : Dynamic} {side : Side}

/-- The ports are numbered from 0, and the spec has as many objects. -/
structure Aligned (s : Dynamic) : Prop where
  compact : ∀ side, (s.element side).Compact
  spec : ∀ side, s.spec side = replicate (s.element side).nports (s.processing side)

lemma aligned_setup (processing : Side → Processing) (n : Side → ℕ) :
    (setup processing n).Aligned :=
  ⟨fun side => Ports.compact_setup (n side), fun _ => rfl⟩

lemma Aligned.follows (h : s.Aligned) : s.Follows := by
  intro side i
  rw [h.spec side, getElem?_replicate]
  simp [h.compact side i]

lemma Aligned.push_back (h : s.Aligned) (side : Side) :
    ∃ ports s', (s.element side).add = some ((s.spec side).length, ports) ∧
      s.push_back side (s.spec side).length ports = some s' ∧ s'.Aligned := by
  obtain ⟨ports, hadd, hn, hcompact⟩ := (h.compact side).add
  have hlen : (s.spec side).length = (s.element side).nports := by
    rw [h.spec side, length_replicate]
  refine ⟨ports, _, by rw [hadd, hlen], if_pos rfl, fun side' => ?_, fun side' => ?_⟩
  · by_cases hside : side' = side
    · subst hside
      simpa [write] using hcompact
    · simpa [write, hside] using h.compact side'
  · by_cases hside : side' = side
    · subst hside
      simp [write, hn, h.spec, replicate_succ']
    · simpa [write, hside] using h.spec side'

lemma Aligned.step (h : s.Aligned) {op : Op} (hop : op.Adds) :
    ∃ s', s.step op = some s' ∧ s'.Aligned := by
  cases op with
  | add_input =>
    obtain ⟨ports, s', hadd, hpush, hs'⟩ := h.push_back .input
    exact ⟨s', by simp [Dynamic.step, add_input, hadd, hpush], hs'⟩
  | add_output =>
    obtain ⟨ports, s', hadd, hpush, hs'⟩ := h.push_back .output
    exact ⟨s', by simp [Dynamic.step, add_output, hadd, hpush], hs'⟩
  | remove_input | remove_output => exact absurd hop id

/-- **The spec follows the ports of a dynamic element** as long as none is removed.
Hyps: no call removes a port. -/
theorem follows_of_adds (processing : Side → Processing) (n : Side → ℕ) (ops : List Op)
    (hops : ∀ op ∈ ops, op.Adds) :
    ∃ s, ops.foldlM step (setup processing n) = some s ∧ s.Follows := by
  obtain ⟨s, hs, haligned⟩ := (permitted_of_mem hops).run
    (fun _ _ hs hop => Aligned.step hs hop) (aligned_setup processing n)
  exact ⟨s, hs, haligned.follows⟩

theorem follows_of_adds_three :
    ∃ s, [Op.add_input, .add_output, .add_input].foldlM step (setup (fun _ => .PUSH) fun _ => 1) =
      some s ∧ s.Follows :=
  follows_of_adds _ _ _ (by simp [Op.Adds])

/-- After `remove_output(0)` the element uses the number 0 again, which the spec does not expect. -/
theorem add_output_after_remove_fails :
    ([Op.remove_output 0, .add_output].foldlM step (setup (fun _ => .PUSH) fun _ => 1)).isNone ∧
    (([Op.remove_input 0].foldlM step (setup (fun _ => .PUSH) fun _ => 1)).map fun s =>
      (s.spec .input, decide ((s.element .input).Live 0))) = some ([.PUSH], false) := by
  decide

end Dynamic

end P2.Core
