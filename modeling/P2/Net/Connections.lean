import P2.Lib.KeyedTree
import P2.Value.Order

/-!
# Connections

The elements of the reliable transport keep one connection object per address, in a map ordered by
`Value::Comparator`, and timers on these connections.
-/

namespace P2.Net

open P2.Value P2.Lib SearchTree

/-- The connections of an element, with timers bound to data of type `T`. Connections are objects
that the map, local pointers and timers share; `objects` is the list of all that were made. -/
structure Connections (C T : Type) where
  cmap : SearchTree (Value × ℕ) := .nil
  objects : List C := []
  /-- The timers that are set: their handles and what they are bound to. -/
  timers : List (ℕ × T) := []
  nextHandle : ℕ := 0

namespace Connections

variable {C T : Type} {src : Value} {cp cp' : ℕ} {c : C} {s : Connections C T}

def ltEntry (a b : Value × ℕ) : Bool := comparator a.1 b.1

def findEntry (src : Value) (s : Connections C T) : Option (Value × ℕ) :=
  s.cmap.find (ltEntry · (src, 0)) (ltEntry (src, 0))

def lookup (src : Value) (s : Connections C T) : Option ℕ := (s.findEntry src).map (·.2)

def unmap (src : Value) (s : Connections C T) : Connections C T :=
  match s.findEntry src with
  | some _ => { s with cmap := s.cmap.eraseIdx (s.cmap.lowerBound (ltEntry · (src, 0))) }
  | none => s

def insertEntry (src : Value) (cp : ℕ) (s : Connections C T) : Connections C T :=
  { s with cmap := s.cmap.insertUnique ltEntry (src, cp) }

def map (src : Value) (cp : ℕ) (s : Connections C T) : Connections C T :=
  (s.unmap src).insertEntry src cp

/-- A new object; its address is the number of objects before it. -/
def alloc (c : C) (s : Connections C T) : Connections C T := { s with objects := s.objects ++ [c] }

def set (cp : ℕ) (c : C) (s : Connections C T) : Connections C T :=
  { s with objects := s.objects.set cp c }

/-- A timer is set, its handle is the next unused one. -/
def delayCB (what : T) (s : Connections C T) : Connections C T :=
  { s with timers := s.timers ++ [(s.nextHandle, what)], nextHandle := s.nextHandle + 1 }

def timeCBRemove (tcb : Option ℕ) (s : Connections C T) : Connections C T :=
  { s with timers := s.timers.filter fun timer => some timer.1 ≠ tcb }

/-- A pointer to the connection of an address, as the receiving elements get it. A cumulative number
of zero is the start of a new connection: the old object and its timer, found through `tcb`, are
dropped. Where there is no object now, a fresh one is mapped. -/
def connect (tcb : C → Option ℕ) (fresh : C) (src : Value) (cseq : Int64) (s : Connections C T) :
    ℕ × Connections C T :=
  match s.lookup src with
  | some cp =>
    if cseq = 0 then
      let s := (s.timeCBRemove (s.objects[cp]?.bind tcb)).unmap src
      (s.objects.length, (s.alloc fresh).map src s.objects.length)
    else (cp, s)
  | none => (s.objects.length, (s.alloc fresh).map src s.objects.length)

@[simp] lemma objects_unmap : (s.unmap src).objects = s.objects := by
  unfold Connections.unmap
  cases s.findEntry src <;> rfl

@[simp] lemma objects_map : (s.map src cp).objects = s.objects := objects_unmap

lemma timers_unmap : (s.unmap src).timers = s.timers := by
  unfold Connections.unmap
  cases s.findEntry src <;> rfl

/-! ## Addresses that are ordered -/

section Lawful

variable {S : Set Value} (hS : LawfulOn S) {e : Value × ℕ}

include hS

lemma findEntry_iff (htree : s.cmap.Proper comparator S) (hsrc : src ∈ S) :
    s.findEntry src = some e ↔ e ∈ s.cmap.toList ∧ compareTo src e.1 = .eq := by
  refine (htree.findKeyed_iff hS.strictWeak hsrc).trans (and_congr_right fun he => ?_)
  rw [← hS.eq_iff_not_comparator hsrc (htree.keys e he), Bool.and_eq_true, Bool.not_eq_true',
    Bool.not_eq_true', and_comm]

lemma cmap_unmap (htree : s.cmap.Proper comparator S) (hsrc : src ∈ S) :
    (s.unmap src).cmap.Proper comparator S ∧
      ∀ a, a ∈ (s.unmap src).cmap.toList ↔ a ∈ s.cmap.toList ∧ compareTo src a.1 ≠ .eq := by
  unfold Connections.unmap
  rcases hfind : s.findEntry src with _ | e
  · refine ⟨htree, fun a => ⟨fun ha => ⟨ha, fun heq => ?_⟩, fun ha => ha.1⟩⟩
    rw [(findEntry_iff hS htree hsrc).mpr ⟨ha, heq⟩] at hfind
    cases hfind
  · have hkeyed : s.cmap.findKeyed comparator src = some e := hfind
    obtain ⟨he, heq⟩ := (findEntry_iff hS htree hsrc).mp hfind
    refine ⟨(htree.eraseFound hkeyed).1, fun a => ?_⟩
    refine (htree.mem_eraseFound hS.strictWeak hkeyed a).trans (and_congr_right fun ha => ?_)
    refine not_congr ⟨fun hae => hae ▸ heq, fun hsa => ?_⟩
    have hfound := (findEntry_iff hS htree hsrc).mpr ⟨ha, hsa⟩
    exact Option.some_inj.mp (hfound.symm.trans hfind)

lemma cmap_map (htree : s.cmap.Proper comparator S) (hsrc : src ∈ S) (cp : ℕ) :
    (s.map src cp).cmap.Proper comparator S ∧ ∀ a, a ∈ (s.map src cp).cmap.toList ↔
      a = (src, cp) ∨ a ∈ s.cmap.toList ∧ compareTo src a.1 ≠ .eq := by
  obtain ⟨hunmap, hmem⟩ := cmap_unmap hS htree hsrc
  have hnew : ∀ a ∈ (s.unmap src).cmap.toList, comparator a.1 src ∨ comparator src a.1 := by
    intro a ha
    obtain ⟨hold, hne⟩ := (hmem a).mp ha
    rw [ne_eq, ← hS.eq_iff_not_comparator hsrc (htree.keys a hold)] at hne
    simp only [Bool.and_eq_true, Bool.not_eq_true', not_and_or, Bool.not_eq_false] at hne
    exact hne.symm
  obtain ⟨hproper, hperm⟩ := hunmap.insertKeyed (v := cp) hS.strictWeak hsrc hnew
  refine ⟨hproper, fun a => ?_⟩
  rw [← hmem a, ← List.mem_cons]
  exact hperm.mem_iff

end Lawful

/-! ## One address -/

/-- The map knows at most the one address, with this object. -/
def Alone (src : Value) (cp : Option ℕ) (s : Connections C T) : Prop :=
  s.cmap = match cp with
    | none => .nil
    | some cp => .node .nil (src, cp) .nil

lemma Alone.findEntry {cp : Option ℕ} (h : s.Alone src cp) :
    s.findEntry src = cp.map fun cp => (src, cp) := by
  unfold Connections.findEntry
  rw [h]
  cases cp with
  | none => rfl
  | some cp => simp [find, lowerBound, toList, ltEntry]

lemma Alone.lookup {cp : Option ℕ} (h : s.Alone src cp) : s.lookup src = cp := by
  unfold Connections.lookup
  rw [h.findEntry]
  cases cp <;> rfl

lemma Alone.unmap {cp : Option ℕ} (h : s.Alone src cp) : (s.unmap src).Alone src none := by
  unfold Connections.unmap
  rw [h.findEntry]
  cases cp with
  | none => exact h
  | some cp =>
    show s.cmap.eraseIdx _ = nil
    rw [h]
    simp [lowerBound, eraseIdx, join, popMin, size, ltEntry]

lemma Alone.insertEntry (h : s.Alone src none) :
    (s.insertEntry src cp).Alone src (some cp) := by
  show s.cmap.insertUnique ltEntry (src, cp) = _
  rw [h]
  rfl

lemma Alone.map {old : Option ℕ} (h : s.Alone src old) : (s.map src cp).Alone src (some cp) :=
  h.unmap.insertEntry

/-- The map knows the one address, with this object, whose state is this. -/
structure At (src : Value) (cp : ℕ) (c : C) (s : Connections C T) : Prop where
  alone : s.Alone src (some cp)
  object : s.objects[cp]? = some c

/-- The state of the connection of the one address, if there is one. -/
def Sole (src : Value) (state : Option C) (s : Connections C T) : Prop :=
  match state with
  | none => s.Alone src none
  | some c => ∃ cp, s.At src cp c

lemma At.set (h : s.At src cp c) (c' : C) : (s.set cp c').At src cp c' where
  alone := h.alone
  object := by
    have hlt : cp < s.objects.length := (List.getElem?_eq_some_iff.mp h.object).1
    show (s.objects.set cp c')[cp]? = some c'
    rw [List.getElem?_set_self hlt]

lemma At.delayCB (h : s.At src cp c) (what : T) : (s.delayCB what).At src cp c :=
  ⟨h.alone, h.object⟩

lemma At.timeCBRemove (h : s.At src cp c) (tcb : Option ℕ) : (s.timeCBRemove tcb).At src cp c :=
  ⟨h.alone, h.object⟩

lemma Alone.at_map_alloc {old : Option ℕ} (h : s.Alone src old) (fresh : C) :
    ((s.alloc fresh).map src s.objects.length).At src s.objects.length fresh where
  alone := (show (s.alloc fresh).Alone src old from h).map
  object := by
    rw [objects_map]
    show (s.objects ++ [fresh])[s.objects.length]? = some fresh
    rw [List.getElem?_concat_length]

/-- **The connection of the address**: the old one, or a fresh one at the first tuple and where the
cumulative number is zero. -/
lemma Sole.connect {state : Option C} (h : s.Sole src state) (tcb : C → Option ℕ) (fresh : C)
    (cseq : Int64) :
    (s.connect tcb fresh src cseq).2.At src (s.connect tcb fresh src cseq).1
      (if cseq = 0 then fresh else state.getD fresh) := by
  unfold Connections.connect
  cases state with
  | none =>
    have halone : s.Alone src none := h
    have hat := halone.at_map_alloc fresh
    rw [halone.lookup]
    split_ifs <;> exact hat
  | some c =>
    obtain ⟨cp, hat⟩ := h
    rw [hat.alone.lookup]
    by_cases hzero : cseq = 0
    · simp only [hzero, if_true]
      have hgone : (s.timeCBRemove (s.objects[cp]?.bind tcb)).Alone src (some cp) := hat.alone
      exact hgone.unmap.at_map_alloc fresh
    · simp only [hzero, if_false]
      exact hat

end Connections

end P2.Net
