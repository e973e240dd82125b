import P2.Lib.Backlog
import P2.Table.Recency

/-!
# The space of a bounded table

A table with a maximum size takes cells off its queue only when a new key comes to a full table. A
re-insertion of a tuple, a replacement and a removal leave cells behind: `space_bounded`.
-/

namespace P2.Table

open P2.Value P2.Lib List SearchTree

namespace Table2

variable {S : Schema} {s s' : Table2} {key : Key} {m : ℕ} {l : List Tuple} {t : Tuple}

/-! ## What a call does to the queue -/

def holdsKey (s : Table2) (t : Tuple) : Bool := (s.common.primaryIndex.findKey s.common.key t).isSome

/-- What a call does to the queue, by what it finds: an insertion of a new key evicts if the table is
full, and any other insertion and a removal leave a cell behind if there is a tuple with the key. -/
def turn (s : Table2) : Op → Turn
  | .insert _ t =>
    if s.holdsKey t then .strand
    else if s.common.primaryIndex.size < s.maxSize then .plain else .evict
  | .remove _ t => if s.holdsKey t then .strand else .plain
  | _ => .plain

lemma turn_insert (s : Table2) (clock : Clock) (t : Tuple) : s.turn (.insert clock t) =
    if s.holdsKey t then .strand
    else if s.common.primaryIndex.size < s.maxSize then .plain else .evict := rfl

def turns : Table2 → List Op → List Turn
  | _, [] => []
  | s, op :: ops => s.turn op :: turns (s.step op) ops

def allocated (s : Table2) : List ℕ := (List.range s.nextAddr).filter fun a => (s.heap a).isSome

def backlog (s : Table2) : Backlog ℕ := ⟨s.queue, s.recency.map (·.addr)⟩

lemma Ok.length_allocated_le (h : s.Ok S) (hflush : s.flushing) :
    s.allocated.length ≤ s.queue.length := by
  refine (subperm_of_subset (nodup_range.filter _) fun a ha => ?_).length_le
  obtain ⟨e, he⟩ := Option.isSome_iff_exists.mp (mem_filter.mp ha).2
  rw [← count_pos_iff, h.counted hflush a e he]
  exact Nat.succ_pos _

lemma Simulates.size_le (h : Simulates S key m s l) : s.common.primaryIndex.size ≤ m := by
  rw [← h.ok.length_recency h.flushing, ← length_map (·.tuple), h.tuples]
  exact h.bounded

lemma length_backlog (h : s.Ok S) (hflush : s.flushing) :
    s.backlog.live.length = s.common.primaryIndex.size := by
  unfold backlog
  rw [length_map, h.length_recency hflush]

lemma Ok.nodup_live (h : s.Ok S) (hflush : s.flushing) : s.backlog.live.Nodup := by
  refine ((h.recency_perm hflush).map _).nodup_iff.mpr ?_
  exact pairwise_map.mpr (h.common.distinct.imp And.right)

lemma Ok.without (h : s.Ok S) (hflush : s.flushing) {found : Ref}
    (hfound : found ∈ s.common.primaryIndex.toList) :
    ((s.recency.filter (·.addr ≠ found.addr)).map (·.addr)).Sublist s.backlog.live ∧
      ((s.recency.filter (·.addr ≠ found.addr)).map (·.addr)).length + 1 =
        s.backlog.live.length := by
  refine ⟨filter_sublist.map _, ?_⟩
  have hmem : found.addr ∈ s.backlog.live :=
    mem_map_of_mem ((h.recency_perm hflush).mem_iff.mpr hfound)
  have herase : (s.recency.filter (·.addr ≠ found.addr)).map (·.addr) =
      s.backlog.live.erase found.addr := by
    rw [(h.nodup_live hflush).erase_eq_filter]
    unfold backlog
    rw [filter_map]
    congr 1
    refine filter_congr fun r _ => ?_
    rw [Bool.eq_iff_iff]
    simp
  rw [herase, length_erase_of_mem hmem]
  have hpos := length_pos_of_mem hmem
  omega

lemma Ok.evicted (h : s.Ok S) (hflush : s.flushing) (hlife : s.maxLifetime = .posInfin)
    (hmax : 0 < s.maxSize) (hsize : s.common.primaryIndex.size = s.maxSize + 1) (now : ℤ) :
    ∃ v dropped, s.queue = dropped ++ (s.flush now).queue ∧
      s.backlog.live = (s.flush now).backlog.live ++ [v] ∧ v ∉ (s.flush now).queue := by
  have hrecency := h.recency_flush hflush hlife hmax now
  obtain ⟨w, hw⟩ : ∃ w, s.recency = (s.flush now).recency ++ [w] := by
    have hlength : (s.recency.drop s.maxSize).length = 1 := by
      rw [length_drop, h.length_recency hflush]
      omega
    obtain ⟨w, hw⟩ := length_eq_one_iff.mp hlength
    exact ⟨w, by rw [hrecency, ← hw, take_append_drop]⟩
  obtain ⟨dropped, hdropped⟩ := queue_flush_suffix s now
  have hlive : s.backlog.live = (s.flush now).backlog.live ++ [w.addr] := by
    unfold backlog
    rw [hw, map_append]
    rfl
  refine ⟨w.addr, dropped, hdropped.symm, hlive, fun hmem => ?_⟩
  -- a cell of the last entry would make it one of those that are kept
  obtain ⟨e, he⟩ := (h.flush now).queued _ hmem
  have hlast : w ∈ s.common.primaryIndex.toList :=
    (h.recency_perm hflush).mem_iff.mp (hw ▸ mem_append_right _ (mem_singleton_self w))
  have hat : (s.flush now).liveAt w.addr = some w := by
    rw [(shrunk_flush s now).liveAt_eq he]
    exact h.liveAt_eq_some_iff.mpr ⟨hlast, rfl⟩
  have hkept : w.addr ∈ (s.flush now).backlog.live :=
    mem_map_of_mem (mem_filterMap.mpr ⟨w.addr, mem_recent.mpr hmem, hat⟩)
  have hnodup := h.nodup_live hflush
  rw [hlive] at hnodup
  exact (nodup_append.mp hnodup).2.2 _ hkept _ (mem_singleton_self _) rfl

/-! ## Every call is a move -/

section Moves

variable (h : Simulates S key m s l)

include h

lemma Simulates.holdsKey_iff (ht : Typed S.cols t) :
    s.holdsKey t ↔ ∃ found ∈ s.common.primaryIndex.toList, sameKey s.common.key found.tuple t := by
  unfold holdsKey
  rcases hfind : s.common.primaryIndex.findKey s.common.key t with _ | found
  · have hnone := h.ok.common.new_of_findKey ht hfind
    refine iff_of_false Bool.false_ne_true ?_
    rintro ⟨found, hfound, hsame⟩
    exact Bool.eq_false_iff.mp (hnone found hfound) hsame
  · have hsome := h.ok.common.mem_of_findKey ht hfind
    exact iff_of_true rfl ⟨found, hsome⟩

lemma Simulates.move_new (hm : 0 < m) (clock : Clock) (ht : t ∈ S.tuples)
    (hnew : ∀ r ∈ s.common.primaryIndex.toList, sameKey s.common.key r.tuple t = false) :
    Backlog.Move m s.backlog (s.turn (.insert clock t))
      ((s.insertTuple clock.stamp t).flush clock.last).backlog := by
  have hnot : s.holdsKey t = false := by
    rw [Bool.eq_false_iff, ne_eq, h.holdsKey_iff (S.typed t ht)]
    rintro ⟨found, hfound, hsame⟩
    exact Bool.eq_false_iff.mp (hnew found hfound) hsame
  obtain ⟨hok, hperm⟩ := h.ok.insertTuple clock.stamp ht hnew
  have hsize : (s.insertTuple clock.stamp t).common.primaryIndex.size =
      s.common.primaryIndex.size + 1 := by
    rw [← length_toList, hperm.length_eq, length_cons, length_toList]
  have hbacklog : (s.insertTuple clock.stamp t).backlog =
      ⟨s.backlog.queue ++ [s.nextAddr], s.nextAddr :: s.backlog.live⟩ := by
    unfold backlog
    rw [h.ok.recency_insertTuple h.flushing]
    congr 1
    exact if_pos h.flushing
  have hlive := length_backlog h.ok h.flushing
  have hle := h.size_le
  have hmax := h.maxSize
  have hturn : s.turn (.insert clock t) =
      if s.common.primaryIndex.size < s.maxSize then .plain else .evict := by
    rw [turn_insert, hnot]
    rfl
  rw [hturn]
  by_cases hroom : s.common.primaryIndex.size < s.maxSize
  · have hself : (s.insertTuple clock.stamp t).flush clock.last = s.insertTuple clock.stamp t := by
      apply Table2.flush_eq_self
      · exact h.lifetime
      · exact hsize.trans_le hroom
    rw [hself, hbacklog]
    rw [if_pos hroom]
    exact Backlog.Move.enter s.nextAddr (by omega)
  · rw [if_neg hroom]
    obtain ⟨v, dropped, hqueue, howners, hv⟩ := hok.evicted h.flushing h.lifetime
      (show 0 < s.maxSize by omega) (hsize.trans (show _ = s.maxSize + 1 by omega)) clock.last
    change (s.insertTuple clock.stamp t).backlog.queue = _ at hqueue
    rw [hbacklog] at hqueue howners
    exact Backlog.Move.evict s.nextAddr v (by omega) hqueue howners hv

lemma Simulates.move_refresh (clock : Clock) {found : Ref}
    (hfound : found ∈ s.common.primaryIndex.toList) :
    Backlog.Move m s.backlog .strand (s.updateTime clock.stamp found.addr).backlog := by
  obtain ⟨hsub, hlen⟩ := h.ok.without h.flushing hfound
  have hbacklog : (s.updateTime clock.stamp found.addr).backlog =
      ⟨s.backlog.queue ++ [found.addr],
        found.addr :: (s.recency.filter (·.addr ≠ found.addr)).map (·.addr)⟩ := by
    unfold backlog
    rw [h.ok.recency_updateTime clock.stamp hfound]
    rfl
  rw [hbacklog]
  exact Backlog.Move.touch found.addr hsub hlen

lemma Simulates.move_replace (clock : Clock) (ht : t ∈ S.tuples) {found : Ref}
    (hfind : s.common.primaryIndex.findKey s.common.key t = some found) :
    Backlog.Move m s.backlog .strand
      (((s.removeTuple t found).insertTuple clock.stamp t).flush clock.last).backlog := by
  have htyped := S.typed t ht
  obtain ⟨hfound, -⟩ := h.ok.common.mem_of_findKey htyped hfind
  obtain ⟨hok, hperm⟩ := h.ok.removeTuple htyped hfind
  obtain ⟨-, hperm'⟩ := hok.insertTuple clock.stamp ht (h.ok.sameKey_removeTuple ht hfind)
  obtain ⟨hsub, hlen⟩ := h.ok.without h.flushing hfound
  have hsize : ((s.removeTuple t found).insertTuple clock.stamp t).common.primaryIndex.size =
      s.common.primaryIndex.size := by
    rw [← length_toList, ← length_toList, hperm'.length_eq, hperm.length_eq,
      length_cons, length_cons]
  have hself : ((s.removeTuple t found).insertTuple clock.stamp t).flush clock.last =
      (s.removeTuple t found).insertTuple clock.stamp t := by
    apply Table2.flush_eq_self
    · exact h.lifetime
    · exact hsize.trans_le (h.size_le.trans h.maxSize.ge)
  have hbacklog : ((s.removeTuple t found).insertTuple clock.stamp t).backlog =
      ⟨s.backlog.queue ++ [s.nextAddr],
        s.nextAddr :: (s.recency.filter (·.addr ≠ found.addr)).map (·.addr)⟩ := by
    unfold backlog
    rw [hok.recency_insertTuple h.flushing, h.ok.recency_removeTuple h.flushing t hfound]
    congr 1
    exact if_pos h.flushing
  rw [hself, hbacklog]
  exact Backlog.Move.touch s.nextAddr hsub hlen

lemma Simulates.move_remove (ht : Typed S.cols t) {found : Ref}
    (hfind : s.common.primaryIndex.findKey s.common.key t = some found) :
    Backlog.Move m s.backlog .strand (s.removeTuple t found).backlog := by
  obtain ⟨hfound, -⟩ := h.ok.common.mem_of_findKey ht hfind
  obtain ⟨hsub, hlen⟩ := h.ok.without h.flushing hfound
  have hbacklog : (s.removeTuple t found).backlog =
      ⟨s.backlog.queue, (s.recency.filter (·.addr ≠ found.addr)).map (·.addr)⟩ := by
    unfold backlog
    rw [h.ok.recency_removeTuple h.flushing t hfound]
    rfl
  rw [hbacklog]
  exact Backlog.Move.leave hsub hlen

lemma Simulates.move (hm : 0 < m) {op : Op} (hop : Admissible S s op) :
    Backlog.Move m s.backlog (s.turn op) (s.step op).backlog := by
  rcases op.cases with ⟨clock, t, rfl⟩ | ⟨now, t, rfl⟩ | hquiet
  · obtain ⟨ht, -⟩ := hop
    have hstep : s.step (.insert clock t) = (s.insertFlushed clock t).2 := by
      change ((s.flush clock.first).insertFlushed clock t).2 = _
      rw [h.flush_eq_self]
    rw [hstep]
    rcases h.ok.insertFlushed_cases clock ht with ⟨hnew, hs'⟩ | ⟨found, hfound, hsame, -, hs'⟩ |
      ⟨found, hfind, -, hs'⟩
    · rw [hs']
      exact h.move_new hm clock ht hnew
    · have hholds : s.holdsKey t := (h.holdsKey_iff (S.typed t ht)).mpr ⟨found, hfound, hsame⟩
      rw [hs', if_pos h.flushing]
      rw [turn_insert, if_pos hholds]
      exact h.move_refresh clock hfound
    · have hholds : s.holdsKey t := by
        unfold holdsKey
        rw [hfind]
        rfl
      rw [hs']
      rw [turn_insert, if_pos hholds]
      exact h.move_replace clock ht hfind
  · have hstep : s.step (.remove now t) = (s.remove now t).2 := rfl
    rw [hstep]
    unfold Table2.remove turn holdsKey
    simp only [h.flush_eq_self]
    rcases hfind : s.common.primaryIndex.findKey s.common.key t with _ | found
    · exact Backlog.Move.still
    · exact h.move_remove hop hfind
  · obtain ⟨s₀, common, hs₀, hstep, -⟩ := s.step_of_isQuiet hquiet
    have hs₀ : s₀ = s := by
      rcases hs₀ with rfl | ⟨now, rfl⟩
      · rfl
      · exact h.flush_eq_self now
    have hturn : s.turn op = .plain := by
      unfold turn
      split
      · cases hquiet
      · cases hquiet
      · rfl
    rw [hstep, hs₀, hturn]
    exact Backlog.Move.still

lemma Simulates.backlog_run (hm : 0 < m) {ops : List Op} (hops : AdmissibleRun S s ops) :
    Backlog.Run m s.backlog (s.turns ops) (s.run ops).backlog := by
  induction ops generalizing s l with
  | nil => exact Backlog.Run.nil
  | cons op ops ih =>
    have hfirst : Backlog.Run m s.backlog [s.turn op] (s.step op).backlog :=
      Backlog.Run.nil.snoc (h.move hm hops.1)
    exact hfirst.append (ih (h.step hm hops.1) hops.2)

end Moves

/-! ## Bounds -/

/-- In every state that the runs reach there are at most so many cells and entries. -/
def SpaceBound (s : Table2) (runs : Set (List Op)) (bound : ℕ) : Prop :=
  ∀ before after, before ++ after ∈ runs →
    (s.run before).queue.length ≤ bound ∧ (s.run before).allocated.length ≤ bound

/-- In no stretch of the runs without an eviction are there more than `c` calls that leave a cell
behind. -/
def StrandBound (s : Table2) (runs : Set (List Op)) (c : ℕ) : Prop :=
  ∀ before stretch after, before ++ stretch ++ after ∈ runs →
    Turn.evict ∉ (s.run before).turns stretch → ((s.run before).turns stretch).count .strand ≤ c

lemma length_turns (s : Table2) (ops : List Op) : (s.turns ops).length = ops.length := by
  induction ops generalizing s with
  | nil => rfl
  | cons op ops ih => exact congrArg Nat.succ (ih (s.step op))

lemma exists_of_append_eq_turns {ops : List Op} {before after : List Turn}
    (h : before ++ after = s.turns ops) : ∃ ops₁ ops₂, ops = ops₁ ++ ops₂ ∧ s.turns ops₁ = before ∧
      (s.run ops₁).turns ops₂ = after := by
  induction before generalizing s ops with
  | nil => exact ⟨[], ops, rfl, rfl, h.symm⟩
  | cons turn before ih =>
    cases ops with
    | nil => cases h
    | cons op ops =>
      obtain ⟨hturn, hrest⟩ := List.cons.inj h
      obtain ⟨ops₁, ops₂, rfl, h₁, h₂⟩ := ih hrest
      exact ⟨op :: ops₁, ops₂, rfl, by rw [hturn, ← h₁]; rfl, h₂⟩

lemma StrandBound.tidy {runs : Set (List Op)} {c : ℕ} (h : StrandBound s runs c)
    {before after : List Op} (hrun : before ++ after ∈ runs) : Backlog.Tidy c (s.turns before) := by
  rintro stretch ⟨first, last, hturns⟩ hnot
  rw [append_assoc] at hturns
  obtain ⟨ops₁, ops, rfl, -, hops⟩ := exists_of_append_eq_turns hturns
  obtain ⟨ops₂, ops₃, rfl, rfl, -⟩ := exists_of_append_eq_turns hops.symm
  rw [← append_assoc, append_assoc] at hrun
  exact h ops₁ ops₂ (ops₃ ++ after) hrun hnot

/-- **The space of a bounded table.** For every maximum size and every family of runs: if at most
`c` calls leave a cell behind between two evictions, the cells and entries are bounded in terms of
the size and `c`; and if the cells are bounded, so are these calls between two evictions.
Hyps: `hm` says that the size is bounded; `hruns` that the calls are admissible -/
theorem space_bounded (S : Schema) (key : Key) (m : ℕ) (hm : 0 < m) (runs : Set (List Op))
    (hruns : ∀ ops ∈ runs, AdmissibleRun S (mk' key m .posInfin) ops) :
    (∀ c, StrandBound (mk' key m .posInfin) runs c →
      SpaceBound (mk' key m .posInfin) runs ((m + 1) * (2 * c + m + 1))) ∧
    (∀ bound, SpaceBound (mk' key m .posInfin) runs bound →
      StrandBound (mk' key m .posInfin) runs (2 * bound + m)) := by
  have hstart : Simulates S key m (mk' key m .posInfin) [] := simulates_mk' S key hm
  refine ⟨fun c hstrand before after hrun => ?_, fun bound hspace before stretch after hrun hnot => ?_⟩
  · have hadm := (throughout_append.mp (hruns _ hrun)).1
    have hsim := hstart.run hm hadm
    have hqueue : ((mk' key m .posInfin).run before).queue.length ≤ (m + 1) * (2 * c + m + 1) :=
      (hstart.backlog_run hm hadm).length_queue_le (hstrand.tidy hrun)
    exact ⟨hqueue, (hsim.ok.length_allocated_le hsim.flushing).trans hqueue⟩
  · obtain ⟨hbefore, hstretch⟩ := throughout_append.mp (throughout_append.mp (hruns _ hrun)).1
    have hsim := hstart.run hm hbefore
    have hcount := (hsim.backlog_run hm hstretch).count_strand_le hnot
    have hend := (hspace (before ++ stretch) after hrun).1
    have hlive := length_backlog hsim.ok hsim.flushing
    have hsize := hsim.size_le
    have hrun' : (mk' key m .posInfin).run (before ++ stretch) =
        ((mk' key m .posInfin).run before).run stretch := foldl_append
    rw [hrun'] at hend
    change (((mk' key m .posInfin).run before).run stretch).backlog.queue.length ≤ bound at hend
    omega

theorem space_bounded_sampleOps : SpaceBound (mk' [0] 2 .posInfin) {sampleOps} 63 := by
  refine (space_bounded rows [0] 2 (by decide) {sampleOps} ?_).1 9 ?_
  · rintro ops rfl
    exact admissibleRun_of_length within_sampleOps (by decide)
  · intro before stretch after hrun _
    have hlength := congrArg List.length hrun
    rw [length_append, length_append] at hlength
    calc _ ≤ (((mk' [0] 2 .posInfin).run before).turns stretch).length := count_le_length
      _ = stretch.length := length_turns _ _
      _ ≤ 9 := by
        change _ = 9 at hlength
        omega

/-- One row, inserted over and over: no bound holds for all runs. -/
theorem space_unbounded : (∀ n, row n ∈ rows.tuples) ∧
    ¬ ∃ bound, ∀ n, ((mk' [0] 1 .posInfin).run
      (replicate n (.insert ⟨0, 0, 0⟩ (row 11)))).queue.length ≤ bound := by
  refine ⟨row_mem_rows, ?_⟩
  rintro ⟨bound, hbound⟩
  have hrun : (mk' [0] 1 .posInfin).run
      (replicate (bound + 1) (.insert ⟨0, 0, 0⟩ (row 11))) =
      ((mk' [0] 1 .posInfin).step (.insert ⟨0, 0, 0⟩ (row 11))).refreshed 0
        ⟨some (row 11), 0, 0⟩ bound := by
    exact run_replicate_insert ⟨0, row 11⟩ rfl rfl (by decide) rfl (by decide) rfl rfl bound
  have hlength := hbound (bound + 1)
  rw [hrun] at hlength
  change (0 :: replicate bound 0).length ≤ bound at hlength
  rw [length_cons, length_replicate] at hlength
  omega

end Table2

end P2.Table
