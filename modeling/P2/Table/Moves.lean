import P2.Table.RefTable
import P2.Table.Representation
import Mathlib.Logic.Relation

/-!
# What tables do to their indices

Tables of both kinds change their indices and aggregates in a few ways only. What holds of every
table is proved of these moves: `Move`, `Variant`.
-/

namespace P2.Table

open P2.Value P2.Lib List CommonTable
open Relation (ReflTransGen)

/-! ## Moves -/

namespace CommonTable

inductive Move (S : Schema) : CommonTable → CommonTable → Prop
  | insert {s : CommonTable} {r : Ref} (ht : r.tuple ∈ S.tuples)
      (hnew : ∀ x ∈ s.primaryIndex.toList,
        sameKey s.key x.tuple r.tuple = false ∧ x.addr ≠ r.addr) :
      Move S s (s.commonInsertTuple r)
  | remove {s : CommonTable} {r : Ref} {primary : Index} (hr : r ∈ s.primaryIndex.toList)
      (hperm : s.primaryIndex.toList.Perm (r :: primary.toList))
      (hsub : primary.toList.Sublist s.primaryIndex.toList) :
      Move S s { s.removeDerivatives r.tuple with primaryIndex := primary }
  | silent {s s' : CommonTable} (hsilent : Silent s s') : Move S s s'

abbrev Moves (S : Schema) : CommonTable → CommonTable → Prop := Relation.ReflTransGen (Move S)

/-- Changes one after the other, none of which brings an entry. -/
abbrev Shrinks (S : Schema) : CommonTable → CommonTable → Prop :=
  Relation.ReflTransGen fun s s' => Move S s s' ∧ s'.scan.Sublist s.scan

/-- A tuple comes where no tuple has its key. -/
structure Comes (S : Schema) (t : Tuple) (s s' : CommonTable) : Prop where
  move : Move S s s'
  entry : ∃ a, s' = s.commonInsertTuple ⟨a, t⟩ ∧
    s'.primaryIndex.toList.Perm (⟨a, t⟩ :: s.primaryIndex.toList)
  new : ∀ u ∈ s.scan, sameKey s.key u t = false

variable {S : Schema} {s s' : CommonTable}

/-- What a call does: entries leave, the new tuple comes if there is one, and entries leave again.
Before they do, there is a tuple equal to the one that the call was given. -/
def Turn (S : Schema) (given new : Option Tuple) (s s' : CommonTable) : Prop :=
  ∃ s₀ s₁, Shrinks S s s₀ ∧ (s₁ = s₀ ∧ new = none ∨ ∃ t ∈ given, new = some t ∧ Comes S t s₀ s₁) ∧
    (∀ t ∈ given, ∃ r ∈ s₁.primaryIndex.toList, r.tuple.compareTo t = .eq) ∧ Shrinks S s₁ s'

lemma Comes.perm {t : Tuple} (h : Comes S t s s') : s'.scan.Perm (t :: s.scan) := by
  obtain ⟨a, -, hperm⟩ := h.entry
  exact hperm.map Ref.tuple

lemma Shrinks.moves (h : Shrinks S s s') : Moves S s s' := by
  induction h with
  | refl => exact ReflTransGen.refl
  | tail _ hstep ih => exact ih.tail hstep.1

lemma Shrinks.scan_sublist (h : Shrinks S s s') : s'.scan.Sublist s.scan := by
  induction h with
  | refl => exact Sublist.refl _
  | tail _ hstep ih => exact hstep.2.trans ih

lemma shrinks_remove {r : Ref} {primary : Index} (hr : r ∈ s.primaryIndex.toList)
    (hperm : s.primaryIndex.toList.Perm (r :: primary.toList))
    (hsub : primary.toList.Sublist s.primaryIndex.toList) :
    Shrinks S s { s.removeDerivatives r.tuple with primaryIndex := primary } :=
  ReflTransGen.single ⟨Move.remove hr hperm hsub, hsub.map _⟩

lemma Silent.shrinks (h : Silent s s') : Shrinks S s s' :=
  ReflTransGen.single ⟨Move.silent h, h.frame.scan ▸ Sublist.refl _⟩

lemma Ok.move (h : s.Ok S) (hmove : Move S s s') : s'.Ok S := by
  rcases hmove with ⟨ht, hnew⟩ | ⟨hr, hperm, hsub⟩ | hsilent
  · exact (h.insert ht hnew).1
  · exact h.remove hr hperm hsub
  · exact h.silent hsilent

lemma Ok.moves_induction {P : CommonTable → Prop} (h : s.Ok S) (hmoves : Moves S s s')
    (hstep : ∀ {s₁ s₂}, s₁.Ok S → P s₁ → Move S s₁ s₂ → P s₂) (hs : P s) : s'.Ok S ∧ P s' := by
  induction hmoves with
  | refl => exact ⟨h, hs⟩
  | tail _ hmove ih => exact ⟨ih.1.move hmove, hstep ih.1 ih.2 hmove⟩

lemma Move.key_eq (hmove : Move S s s') : s'.key = s.key := by
  rcases hmove with ⟨_, _⟩ | ⟨_, _, _⟩ | hsilent
  · rfl
  · rfl
  · exact hsilent.frame.key

lemma Shrinks.key_eq (h : Shrinks S s s') : s'.key = s.key := by
  induction h with
  | refl => rfl
  | tail _ hstep ih => exact hstep.1.key_eq.trans ih

lemma Ok.moves (h : s.Ok S) (hmoves : Moves S s s') : s'.Ok S :=
  (h.moves_induction (P := fun _ => True) hmoves (fun _ _ _ => trivial) trivial).1

lemma turn_of_shrinks (h : Shrinks S s s') : Turn S none none s s' :=
  ⟨_, _, h, Or.inl ⟨rfl, rfl⟩, fun _ ht => absurd ht (Option.not_mem_none _), ReflTransGen.refl⟩

lemma Turn.moves {given new : Option Tuple} (h : Turn S given new s s') : ∃ s₁, Moves S s s₁ ∧
    (∀ t ∈ given, ∃ r ∈ s₁.primaryIndex.toList, r.tuple.compareTo t = .eq) ∧ Moves S s₁ s' := by
  obtain ⟨s₀, s₁, hbefore, hnew, hgiven, hafter⟩ := h
  refine ⟨s₁, ?_, hgiven, hafter.moves⟩
  rcases hnew with ⟨rfl, -⟩ | ⟨t, -, -, hcomes⟩
  · exact hbefore.moves
  · exact hbefore.moves.tail hcomes.move

lemma Turn.mem {given new : Option Tuple} (h : Turn S given new s s') (hok : s.Ok S) {u : Tuple}
    (hu : u ∈ new) : u ∈ S.tuples := by
  obtain ⟨s₀, s₁, hbefore, ⟨-, rfl⟩ | ⟨t, -, rfl, hcomes⟩, -⟩ := h
  · cases hu
  · rw [← Option.some.inj hu]
    have hok₁ := hok.moves (hbefore.moves.tail hcomes.move)
    obtain ⟨a, -, hperm⟩ := hcomes.entry
    exact hok₁.stored ⟨a, t⟩ (hperm.mem_iff.mpr mem_cons_self)

/-- On sorted indices every loop stops. -/
lemma faulted_updateAggregates {t : Tuple} (hindices : ∀ ix ∈ s.indices, Sorted (ltRef ix.1) ix.2.toList ∧
    ∀ r ∈ ix.2.toList, Typed S.cols r.tuple) (ht : Typed S.cols t) :
    (s.updateAggregates t).faulted = s.faulted := by
  have hstops : ∀ key, Index.runsOff key t ((s.findSecondaryIndex key).getD .nil) = false := by
    intro key
    cases hfind : s.findSecondaryIndex key with
    | none => rfl
    | some index =>
      obtain ⟨hsorted, htyped⟩ := hindices _ (mem_indices_of_findSecondaryIndex hfind)
      exact Index.runsOff_eq_false hsorted htyped (ht.on key)
  have hnone : ∀ {α : Type} (l : List α), (l.any fun _ => false) = false := by simp
  simp only [updateAggregates, hstops, hnone, Bool.or_false]

lemma Ok.indices_typed (h : s.Ok S) : ∀ ix ∈ s.indices, Sorted (ltRef ix.1) ix.2.toList ∧
    ∀ r ∈ ix.2.toList, Typed S.cols r.tuple := fun ix hix =>
  ⟨(h.indexed ix hix).1, fun r hr => h.typed r ((h.indexed ix hix).2.mem_iff.mp hr)⟩

lemma Ok.faulted_move (h : s.Ok S) (hmove : Move S s s') : s'.faulted = s.faulted := by
  have hok := h.move hmove
  rcases hmove with ⟨ht, hnew⟩ | ⟨hr, hperm, hsub⟩ | hsilent
  · exact faulted_updateAggregates hok.indices_typed (S.typed _ ht)
  · have ht := h.typed _ hr
    refine (faulted_updateAggregates (s := { s with indices := _, faulted := _ })
      hok.indices_typed ht).trans ?_
    rw [any_eq_false.mpr fun ix hix => ?_, Bool.or_false]
    obtain ⟨hsorted, htyped⟩ := h.indices_typed ix hix
    simp [Index.runsOff_eq_false hsorted htyped (ht.on ix.1)]
  · exact hsilent.frame.faulted

def HasIndex (s : CommonTable) (key : Key) : Prop := key ∈ s.indices.map Prod.fst

instance (s : CommonTable) (key : Key) : Decidable (s.HasIndex key) :=
  inferInstanceAs (Decidable (key ∈ s.indices.map Prod.fst))

lemma HasIndex.exists_index {key : Key} (h : s.HasIndex key) :
    ∃ index, s.findSecondaryIndex key = some index := by
  rcases hfind : s.findSecondaryIndex key with _ | index
  · obtain ⟨ix, hix, rfl⟩ := mem_map.mp h
    exact absurd (lookup_eq_none_iff.mp hfind ix hix) (by simp)
  · exact ⟨index, rfl⟩

lemma HasIndex.frame {key : Key} (h : s.HasIndex key) (hframe : Frame s s') : s'.HasIndex key :=
  (hframe.indices.map Prod.fst).subset h

lemma hasIndex_secondaryIndex (s : CommonTable) (key : Key) :
    (s.secondaryIndex key).HasIndex key := by
  unfold secondaryIndex
  split
  · exact mem_map.mpr ⟨_, mem_append_right _ (mem_singleton_self _), rfl⟩
  next index hfind =>
    exact mem_map.mpr ⟨_, mem_indices_of_findSecondaryIndex hfind, rfl⟩

lemma HasIndex.move {key : Key} (h : s.HasIndex key) (hmove : Move S s s') : s'.HasIndex key := by
  have hmap : ∀ f : Key × Index → Index,
      key ∈ (s.indices.map fun ix => (ix.1, f ix)).map Prod.fst := by
    intro f
    rw [map_map]
    exact h
  rcases hmove with ⟨_, _⟩ | ⟨_, _, _⟩ | hsilent
  · exact hmap _
  · exact hmap _
  · exact h.frame hsilent.frame

lemma HasIndex.moves {key : Key} (h : s.HasIndex key) (hmoves : Moves S s s') :
    s'.HasIndex key := by
  induction hmoves with
  | refl => exact h
  | tail _ hmove ih => exact ih.move hmove

lemma ok_mk' (S : Schema) (key : Key) : (mk' key).Ok S :=
  ⟨forall_mem_nil _, Pairwise.nil, Pairwise.nil, nodup_nil, forall_mem_nil _⟩

lemma faulted_of_moves {key : Key} (hmoves : Moves S (mk' key) s) : s.faulted = false :=
  ((ok_mk' S key).moves_induction (P := fun s => s.faulted = false) hmoves
    (fun hok hs hmove => (hok.faulted_move hmove).trans hs) rfl).2

end CommonTable

open CommonTable (Move Moves Shrinks Comes Turn)

/-! ## Kinds of tables -/

/-- A variant of the table: its calls are turns of what all tables have. -/
structure Variant (S : Schema) where
  State : Type
  Op : Type
  step : State → Op → State
  common : State → CommonTable
  given : Op → Option Tuple
  entering : State → Op → Option Tuple
  /-- The table in which a call looks for its tuple. -/
  ready : State → Op → CommonTable
  Ok : State → Prop
  Admits : State → Op → Prop
  ok_common {s : State} : Ok s → (common s).Ok S
  ok_step {s : State} {op : Op} : Ok s → Admits s op → Ok (step s op)
  mem_tuples {s : State} {op : Op} : Admits s op → ∀ t ∈ given op, t ∈ S.tuples
  shrinks_ready {s : State} (op : Op) : Ok s → Shrinks S (common s) (ready s op)
  turn_ready {s : State} {op : Op} : Ok s → Admits s op →
    Turn S (given op) (entering s op) (ready s op) (common (step s op))

namespace Variant

variable {S : Schema} (K : Variant S) {s : K.State}

lemma turn {op : K.Op} (h : K.Ok s) (hop : K.Admits s op) :
    Turn S (K.given op) (K.entering s op) (K.common s) (K.common (K.step s op)) := by
  obtain ⟨s₀, s₁, hbefore, hrest⟩ := K.turn_ready h hop
  exact ⟨s₀, s₁, (K.shrinks_ready op h).trans hbefore, hrest⟩

lemma run {ops : List K.Op} (h : K.Ok s) (hops : Throughout K.step K.Admits s ops) :
    K.Ok (ops.foldl K.step s) ∧ Moves S (K.common s) (K.common (ops.foldl K.step s)) := by
  refine hops.foldl (fun s' => K.Ok s' ∧ Moves S (K.common s) (K.common s')) ?_
    ⟨h, ReflTransGen.refl⟩
  rintro s' op ⟨hok, hmoves⟩ hop
  obtain ⟨s₁, hfirst, -, hthen⟩ := (K.turn hok hop).moves
  exact ⟨K.ok_step hok hop, hmoves.trans (hfirst.trans hthen)⟩

end Variant

/-! ## Tables that flush -/

namespace Table2

variable {S : Schema} {s : Table2} {a : ℕ} {t : Tuple}

lemma Ok.shrinks_flushEntry (h : s.Ok S) (a : ℕ) : Shrinks S s.common (s.flushEntry a).common := by
  rcases he : s.heap a with _ | e
  · unfold Table2.flushEntry
    rw [he]
  · rw [flushEntry_eq he]
    split_ifs
    · exact ReflTransGen.refl
    · rcases htuple : e.tuple with _ | t
      · exact ReflTransGen.refl
      · have hr := h.live a e t he htuple
        obtain ⟨hperm, hsub⟩ := h.common.eraseKeyed_spec hr
        exact shrinks_remove hr hperm hsub

lemma Ok.shrinks_flush (h : s.Ok S) (now : ℤ) : Shrinks S s.common (s.flush now).common :=
  (flush_induction (P := fun s' => s'.Ok S ∧ Shrinks S s.common s'.common)
    (fun _ a hs' hhead => ⟨hs'.1.flushEntry hhead, hs'.2.trans (hs'.1.shrinks_flushEntry a)⟩) now
    ⟨h, ReflTransGen.refl⟩).2

lemma Ok.moves_flush (h : s.Ok S) (now : ℤ) : Moves S s.common (s.flush now).common :=
  (h.shrinks_flush now).moves

lemma Ok.move_insertTuple (h : s.Ok S) (now : ℤ) (ht : t ∈ S.tuples)
    (hnew : ∀ r ∈ s.common.primaryIndex.toList, sameKey s.common.key r.tuple t = false) :
    Move S s.common (s.insertTuple now t).common := by
  exact Move.insert (r := ⟨s.nextAddr, t⟩) ht fun r hr => ⟨hnew r hr, (h.addr_lt hr).ne⟩

lemma Ok.shrinks_removeTuple (h : s.Ok S) (ht : Typed S.cols t) {found : Ref}
    (hfind : s.common.primaryIndex.findKey s.common.key t = some found) :
    Shrinks S s.common (s.removeTuple t found).common := by
  obtain ⟨hperm, hsub⟩ := erasePosition_spec hfind
  exact shrinks_remove
    (h.common.mem_of_findKey ht hfind).1 hperm hsub

def entering (s : Table2) : Op → Option Tuple
  | .insert clock t => if (s.insert clock t).1 then some t else none
  | _ => none

/-- **What an insertion does.** Entries leave; an equal tuple is there then, or the tuple comes where
no tuple has its key; entries leave again. -/
lemma Ok.turn_insert (h : s.Ok S) (clock : Clock) (ht : t ∈ S.tuples) :
    Turn S (some t) (s.entering (.insert clock t)) (s.flush clock.first).common
      (s.insert clock t).2.common := by
  have hself : t.compareTo t = .eq := (S.typed t ht).compareTo_self S.lawful
  have h := h.flush clock.first
  show Turn S (some t) (if ((s.flush clock.first).insertFlushed clock t).1 then some t else none) _
    ((s.flush clock.first).insertFlushed clock t).2.common
  generalize s.flush clock.first = s₁ at *
  simp only [CommonTable.Turn, Option.mem_some, forall_eq', exists_eq_left']
  rcases h.insertFlushed_cases clock ht with ⟨hnew, hs'⟩ | ⟨found, hfound, -, heq, hs'⟩ |
    ⟨found, hfind, -, hs'⟩
  · obtain ⟨hok, hperm⟩ := h.insertTuple clock.stamp ht hnew
    rw [hs']
    exact ⟨_, _, ReflTransGen.refl, Or.inr ⟨rfl,
      h.move_insertTuple clock.stamp ht hnew, ⟨_, rfl, hperm⟩, forall_mem_map.mpr hnew⟩,
      ⟨⟨s₁.nextAddr, t⟩, hperm.mem_iff.mpr mem_cons_self, hself⟩, hok.shrinks_flush clock.last⟩
  · rw [hs']
    refine ⟨_, _, ReflTransGen.refl, Or.inl ⟨rfl, rfl⟩, ⟨found, hfound, heq⟩, ?_⟩
    split_ifs <;> exact ReflTransGen.refl
  · have hok := (h.removeTuple (S.typed t ht) hfind).1
    have hnew := h.sameKey_removeTuple ht hfind
    obtain ⟨hok', hperm⟩ := hok.insertTuple clock.stamp ht hnew
    rw [hs']
    exact ⟨_, _, h.shrinks_removeTuple (S.typed t ht) hfind,
      Or.inr ⟨rfl, hok.move_insertTuple clock.stamp ht hnew, ⟨_, rfl, hperm⟩,
        forall_mem_map.mpr hnew⟩,
      ⟨⟨s₁.nextAddr, t⟩, hperm.mem_iff.mpr mem_cons_self, hself⟩, hok'.shrinks_flush clock.last⟩

lemma Ok.shrinks_step (h : s.Ok S) {op : Op} (hop : op.Within S)
    (hinsert : ∀ clock t, op ≠ .insert clock t) : Shrinks S s.common (s.step op).common := by
  rcases op.cases with ⟨clock, t, rfl⟩ | ⟨now, t, rfl⟩ | hquiet
  · exact absurd rfl (hinsert clock t)
  · simp only [Table2.step, Table2.remove]
    split
    · exact h.shrinks_flush now
    next found hfind =>
      exact (h.shrinks_flush now).trans ((h.flush now).shrinks_removeTuple hop hfind)
  · obtain ⟨s₀, common, hs₀, hstep, hsilent⟩ := s.step_of_isQuiet hquiet
    rw [hstep]
    rcases hs₀ with rfl | ⟨now, rfl⟩
    · exact hsilent.shrinks
    · exact (h.shrinks_flush now).trans hsilent.shrinks

/-- An insertion flushes first. -/
def ready (s : Table2) : Op → CommonTable
  | .insert clock _ => (s.flush clock.first).common
  | _ => s.common

def variant (S : Schema) : Variant S where
  State := Table2
  Op := Op
  step := step
  common := common
  given
    | .insert _ t => some t
    | _ => none
  entering := entering
  ready := ready
  Ok := Ok S
  Admits := Admissible S
  ok_common := Ok.common
  ok_step h hop := h.step hop
  mem_tuples {_ op} hop t ht := by
    cases op with
    | insert clock u => exact Option.some.inj ht ▸ hop.within
    | _ => cases ht
  shrinks_ready {s} op h := by
    cases op with
    | insert clock t => exact h.shrinks_flush clock.first
    | _ => exact ReflTransGen.refl
  turn_ready {s op} h hop := by
    cases op with
    | insert clock t => exact h.turn_insert clock hop.within
    | _ => exact CommonTable.turn_of_shrinks (h.shrinks_step hop.within (by rintro clock t ⟨⟩))

lemma Ok.moves_run {ops : List Op} (h : s.Ok S) (hops : AdmissibleRun S s ops) :
    Moves S s.common (s.run ops).common :=
  ((variant S).run h hops).2

end Table2

/-! ## Tables that count -/

namespace RefTable

variable {S : Schema} {s : RefTable} {t : Tuple}

structure Ok (S : Schema) (s : RefTable) : Prop where
  common : s.common.Ok S
  fresh : ∀ r ∈ s.common.primaryIndex.toList, r.addr < s.nextAddr

def Op.Within (S : Schema) : Op → Prop
  | .insert t => t ∈ S.tuples
  | .remove t => Typed S.cols t
  | _ => True

lemma ok_mk' (S : Schema) (key : Key) : (mk' key).Ok S :=
  ⟨CommonTable.ok_mk' S key, forall_mem_nil _⟩

lemma Ok.insertTuple (h : s.Ok S) (ht : t ∈ S.tuples)
    (hnew : ∀ r ∈ s.common.primaryIndex.toList, sameKey s.common.key r.tuple t = false) :
    (s.insertTuple t).Ok S ∧ Move S s.common (s.insertTuple t).common ∧
      (s.insertTuple t).common.primaryIndex.toList.Perm
        (⟨s.nextAddr, t⟩ :: s.common.primaryIndex.toList) := by
  have hmove : ∀ r ∈ s.common.primaryIndex.toList,
      sameKey s.common.key r.tuple t = false ∧ r.addr ≠ s.nextAddr :=
    fun r hr => ⟨hnew r hr, (h.fresh r hr).ne⟩
  obtain ⟨hok, hperm⟩ := h.common.insert (r := ⟨s.nextAddr, t⟩) ht hmove
  refine ⟨⟨hok, fun r hr => ?_⟩, Move.insert (r := ⟨s.nextAddr, t⟩) ht hmove, hperm⟩
  rcases mem_cons.mp (hperm.mem_iff.mp hr) with rfl | hr
  · exact Nat.lt_succ_self _
  · exact Nat.lt_succ_of_lt (h.fresh r hr)

lemma Ok.removeTuple (h : s.Ok S) (ht : Typed S.cols t) {found : Ref}
    (hfind : s.common.primaryIndex.findKey s.common.key t = some found) :
    (s.removeTuple t found).Ok S ∧ Shrinks S s.common (s.removeTuple t found).common := by
  obtain ⟨hperm, hsub⟩ := erasePosition_spec hfind
  have hr := (h.common.mem_of_findKey ht hfind).1
  exact ⟨⟨h.common.remove hr hperm hsub, fun r hr => h.fresh r (hsub.subset hr)⟩,
    shrinks_remove hr hperm hsub⟩

def entering (s : RefTable) : Op → Option Tuple
  | .insert t => if (s.insert t).1 then some t else none
  | _ => none

/-- **What an insertion does.** Entries leave; an equal tuple is there then, or the tuple comes where
no tuple has its key. -/
lemma Ok.insert (h : s.Ok S) (ht : t ∈ S.tuples) : (s.insert t).2.Ok S ∧
    Turn S (some t) (s.entering (.insert t)) s.common (s.insert t).2.common := by
  have htyped := S.typed t ht
  have hself : t.compareTo t = .eq := htyped.compareTo_self S.lawful
  show _ ∧ Turn S (some t) (if (s.insert t).1 then some t else none) _ _
  generalize hanswer : s.insert t = answer
  simp only [CommonTable.Turn, Option.mem_some, forall_eq', exists_eq_left']
  unfold RefTable.insert at hanswer
  split at hanswer
  next hnone =>
    subst hanswer
    have hnew := h.common.new_of_findKey htyped hnone
    obtain ⟨hok, hmove, hperm⟩ := h.insertTuple ht hnew
    exact ⟨hok, _, _, ReflTransGen.refl,
      Or.inr ⟨rfl, hmove, ⟨_, rfl, hperm⟩, forall_mem_map.mpr hnew⟩,
      ⟨_, hperm.mem_iff.mpr mem_cons_self, hself⟩, ReflTransGen.refl⟩
  next found hfind =>
    split_ifs at hanswer with heq <;> subst hanswer
    · have hfound := h.common.mem_of_findKey htyped hfind
      exact ⟨⟨h.common, h.fresh⟩, _, _, ReflTransGen.refl, Or.inl ⟨rfl, rfl⟩,
        ⟨found, hfound.1, heq⟩, ReflTransGen.refl⟩
    · obtain ⟨hok, hshrinks⟩ := h.removeTuple htyped hfind
      have hnew := h.common.sameKey_removeFound ht hfind
      obtain ⟨hok', hmove', hperm⟩ := hok.insertTuple ht hnew
      exact ⟨hok', _, _, hshrinks, Or.inr ⟨rfl, hmove', ⟨_, rfl, hperm⟩, forall_mem_map.mpr hnew⟩,
        ⟨_, hperm.mem_iff.mpr mem_cons_self, hself⟩, ReflTransGen.refl⟩

lemma Ok.remove (h : s.Ok S) (ht : Typed S.cols t) :
    (s.remove t).2.Ok S ∧ Shrinks S s.common (s.remove t).2.common := by
  unfold RefTable.remove
  split
  · exact ⟨h, ReflTransGen.refl⟩
  next found hfind =>
    have hcount : (s.setCount found.addr (s.refCount found.addr - 1)).Ok S := ⟨h.common, h.fresh⟩
    simp only
    split_ifs
    · exact hcount.removeTuple ht hfind
    · exact ⟨hcount, ReflTransGen.refl⟩

def Op.isQuiet : Op → Bool
  | .insert _ => false
  | .remove _ => false
  | _ => true

lemma Op.cases (op : Op) : (∃ t, op = .insert t) ∨ (∃ t, op = .remove t) ∨ op.isQuiet := by
  cases op with
  | insert t => exact Or.inl ⟨t, rfl⟩
  | remove t => exact Or.inr (Or.inl ⟨t, rfl⟩)
  | _ => exact Or.inr (Or.inr rfl)

lemma step_of_isQuiet (s : RefTable) {op : Op} (hop : op.isQuiet) : ∃ common : CommonTable,
    s.step op = { s with common := common } ∧ s.common.Silent common := by
  match op, hop with
  | .lookupProjected lookupKey indexKey t, _ =>
    exact ⟨_, rfl, .lookupProjected lookupKey indexKey t⟩
  | .secondaryIndex key, _ => exact ⟨_, rfl, .secondaryIndex key⟩
  | .aggregate groupBy aggFieldNo function, _ =>
    exact ⟨_, rfl, .aggregate groupBy aggFieldNo function⟩
  | .aggregateMkSet groupBy aggFieldNo, _ => exact ⟨_, rfl, .aggregateMkSet groupBy aggFieldNo⟩

lemma Ok.shrinks_step (h : s.Ok S) {op : Op} (hop : op.Within S) (hinsert : ∀ t, op ≠ .insert t) :
    (s.step op).Ok S ∧ Shrinks S s.common (s.step op).common := by
  rcases op.cases with ⟨t, rfl⟩ | ⟨t, rfl⟩ | hquiet
  · exact absurd rfl (hinsert t)
  · exact h.remove hop
  · obtain ⟨common, hstep, hsilent⟩ := s.step_of_isQuiet hquiet
    rw [hstep]
    refine ⟨⟨h.common.silent hsilent, fun r hr => h.fresh r ?_⟩, hsilent.shrinks⟩
    rw [← hsilent.frame.primaryIndex]
    exact hr

lemma Ok.step (h : s.Ok S) {op : Op} (hop : op.Within S) : (s.step op).Ok S := by
  cases op with
  | insert t => exact (h.insert hop).1
  | _ => exact (h.shrinks_step hop (by rintro t ⟨⟩)).1

def variant (S : Schema) : Variant S where
  State := RefTable
  Op := Op
  step := step
  common := common
  given
    | .insert t => some t
    | _ => none
  entering := entering
  ready s _ := s.common
  Ok := Ok S
  Admits _ op := op.Within S
  ok_common := Ok.common
  ok_step h hop := h.step hop
  mem_tuples {_ op} hop t ht := by
    cases op with
    | insert u => exact Option.some.inj ht ▸ hop
    | _ => cases ht
  shrinks_ready _ _ := ReflTransGen.refl
  turn_ready {s op} h hop := by
    cases op with
    | insert t => exact (h.insert hop).2
    | _ => exact CommonTable.turn_of_shrinks (h.shrinks_step hop (by rintro t ⟨⟩)).2

lemma Ok.run {ops : List Op} (h : s.Ok S) (hops : ∀ op ∈ ops, op.Within S) :
    (s.run ops).Ok S ∧ Moves S s.common (s.run ops).common :=
  (variant S).run h (throughout_of_mem hops)

end RefTable

end P2.Table
