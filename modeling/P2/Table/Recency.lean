import P2.Lib.Recency
import P2.Table.Representation

/-!
# Tables of bounded size

A table without a lifetime and with a maximum size keeps the tuples that were inserted or
re-inserted last: `scan_perm_lruRun`. The reference model is a list without repeated keys.
-/

namespace P2.Table

open P2.Value P2.Lib List Function

/-! ## The reference model -/

/-- A tuple goes to the front: the one that is there, if it is equal, else the new one, in place of
one with its key. -/
def touch (key : Key) (t : Tuple) (l : List Tuple) : List Tuple :=
  match l.find? (sameKey key · t) with
  | none => t :: l
  | some u => (if u.compareTo t = .eq then u else t) :: l.filter fun v => !sameKey key v t

namespace Table2

/-- The reference model: a list without repeated keys, the first `m` elements of which are kept. -/
def lruStep (key : Key) (m : ℕ) (l : List Tuple) : Op → List Tuple
  | .insert _ t => (touch key t l).take m
  | .remove _ t => (l.filter fun v => !sameKey key v t).take m
  | _ => l

def lruRun (key : Key) (m : ℕ) (ops : List Op) : List Tuple := ops.foldl (lruStep key m) []

/-! ## The live entries by their last cell -/

variable {S : Schema} {s s' : Table2} {a : ℕ} {e : Entry} {t : Tuple}

def liveAt (s : Table2) (a : ℕ) : Option Ref := (s.heap a).bind fun e => e.tuple.map (Ref.mk a)

/-- The live entries, the one inserted or re-inserted last first. -/
def recency (s : Table2) : List Ref := (recent s.queue).filterMap s.liveAt

lemma addr_of_liveAt {r : Ref} (hr : s.liveAt a = some r) : r.addr = a := by
  obtain ⟨e, -, he⟩ := Option.bind_eq_some_iff.mp hr
  obtain ⟨t, -, rfl⟩ := Option.map_eq_some_iff.mp he
  rfl

lemma Ok.liveAt_eq_some_iff (h : s.Ok S) {r : Ref} :
    s.liveAt a = some r ↔ r ∈ s.common.primaryIndex.toList ∧ r.addr = a := by
  constructor
  · intro hr
    obtain ⟨e, he, hmap⟩ := Option.bind_eq_some_iff.mp hr
    obtain ⟨t, ht, rfl⟩ := Option.map_eq_some_iff.mp hmap
    exact ⟨h.live a e t he ht, rfl⟩
  · rintro ⟨hr, rfl⟩
    obtain ⟨e, he, ht⟩ := h.linked r hr
    unfold liveAt
    rw [he, Option.bind_some, ht]
    rfl

lemma liveAt_of_heap (he : s.heap a = some e) : s.liveAt a = e.tuple.map (Ref.mk a) := by
  unfold liveAt
  rw [he, Option.bind_some]

lemma Shrunk.liveAt_eq (hle : Shrunk s s') {e' : Entry} (he' : s'.heap a = some e') :
    s'.liveAt a = s.liveAt a := by
  obtain ⟨e, he, -, htuple⟩ := hle a e' he'
  rw [liveAt_of_heap he', liveAt_of_heap he, htuple]

lemma Ok.recency_perm (h : s.Ok S) (hflush : s.flushing) :
    s.recency.Perm s.common.primaryIndex.toList := by
  have hnodup : s.recency.Nodup := by
    refine (nodup_recent s.queue).filterMap fun a b r ha hb => ?_
    rw [← addr_of_liveAt ha, addr_of_liveAt hb]
  have hprimary : s.common.primaryIndex.toList.Nodup :=
    h.common.distinct.imp fun hab heq => hab.2 (congrArg Ref.addr heq)
  rw [perm_ext_iff_of_nodup hnodup hprimary]
  intro r
  unfold recency
  rw [mem_filterMap]
  constructor
  · rintro ⟨a, -, ha⟩
    exact (h.liveAt_eq_some_iff.mp ha).1
  · intro hr
    exact ⟨r.addr, mem_recent.mpr (h.represented.queued hflush r hr),
      h.liveAt_eq_some_iff.mpr ⟨hr, rfl⟩⟩

lemma Ok.length_recency (h : s.Ok S) (hflush : s.flushing) :
    s.recency.length = s.common.primaryIndex.size := by
  rw [(h.recency_perm hflush).length_eq, SearchTree.length_toList]

/-! ## Eviction -/

lemma Ok.recency_flushEntry (h : s.Ok S) (hhead : s.queue.head? = some a) :
    ∃ l, l.length ≤ 1 ∧ s.recency = (s.flushEntry a).recency ++ l := by
  have h' := h.flushEntry hhead
  have hcons := queue_eq_cons hhead
  have hsame : (recent (s.flushEntry a).queue).filterMap s.liveAt = (s.flushEntry a).recency := by
    refine filterMap_congr fun b hb => ?_
    obtain ⟨e', he'⟩ := h'.queued b (mem_recent.mp hb)
    exact ((shrunk_flushEntry s a).liveAt_eq he').symm
  by_cases ha : a ∈ (s.flushEntry a).queue
  · refine ⟨[], Nat.zero_le 1, ?_⟩
    rw [← hsame, append_nil, recency, hcons, recent_pop_of_mem ha]
  · refine ⟨[a].filterMap s.liveAt, length_filterMap_le s.liveAt [a], ?_⟩
    rw [← hsame, recency, hcons, recent_pop_of_notMem ha, filterMap_append]

lemma Ok.recency_flushOversize (h : s.Ok S) (hflush : s.flushing) {n : ℕ}
    (hn : s.queue.length ≤ n) :
    (s.flushOversize n).recency = s.recency.take s.maxSize := by
  have hempty : ∀ {s : Table2}, s.queue = [] → s.recency = [] := by
    intro s hq
    rw [recency, hq]
    rfl
  fun_induction flushOversize n s with
  | case1 s => rw [hempty (length_eq_zero_iff.mp (Nat.le_zero.mp hn)), take_nil]
  | case2 n s a hhead hsize ih =>
    have hset := sameSettings_flushEntry s a
    have hlength := h.length_recency hflush
    obtain ⟨l, hl, heq⟩ := h.recency_flushEntry hhead
    rw [ih (h.flushEntry hhead) (hset.flushing.trans hflush), hset.maxSize, heq,
      take_append_of_le_length]
    · rw [heq, length_append] at hlength
      omega
    · rw [queue_flushEntry, length_tail]
      omega
  | case3 n s a hhead hsize =>
    have hlength := h.length_recency hflush
    rw [take_of_length_le]
    omega
  | case4 n s hhead => rw [hempty (List.head?_eq_none_iff.mp hhead), take_nil]

lemma Ok.recency_flush (h : s.Ok S) (hflush : s.flushing) (hlife : s.maxLifetime = .posInfin)
    (hsize : 0 < s.maxSize) (now : ℤ) : (s.flush now).recency = s.recency.take s.maxSize := by
  unfold Table2.flush
  rw [if_pos hflush, if_pos hlife]
  simp only [if_pos hsize]
  exact h.recency_flushOversize hflush le_rfl

/-! ## The other operations -/

lemma filterMap_liveAt_filter (s : Table2) (a : ℕ) (l : List ℕ) :
    (l.filter (· ≠ a)).filterMap s.liveAt = (l.filterMap s.liveAt).filter (·.addr ≠ a) := by
  rw [filterMap_filter, filter_filterMap]
  refine filterMap_congr fun b _ => ?_
  rcases hb : s.liveAt b with _ | r
  · rw [ite_self]
    rfl
  · rw [Option.filter_some, addr_of_liveAt hb]

lemma Ok.recency_insertTuple (h : s.Ok S) (hflush : s.flushing) (now : ℤ) (t : Tuple) :
    (s.insertTuple now t).recency = ⟨s.nextAddr, t⟩ :: s.recency := by
  have hnot : ∀ b ∈ s.queue, b ≠ s.nextAddr := by
    rintro b hb rfl
    obtain ⟨e, he⟩ := h.queued _ hb
    exact (h.lt_nextAddr he).ne rfl
  have hqueue : (s.insertTuple now t).queue = s.queue ++ [s.nextAddr] := if_pos hflush
  have hfilter : (recent s.queue).filter (· ≠ s.nextAddr) = recent s.queue :=
    filter_eq_self.mpr fun b hb => decide_eq_true (hnot b (mem_recent.mp hb))
  have hnew : (s.insertTuple now t).liveAt s.nextAddr = some ⟨s.nextAddr, t⟩ :=
    liveAt_of_heap (e := ⟨some t, now, 0⟩) (update_self _ _ _)
  unfold recency
  rw [hqueue, recent_push, hfilter, filterMap_cons_some hnew]
  congr 1
  refine filterMap_congr fun b hb => ?_
  exact congrArg (Option.bind · _)
    (update_of_ne (hnot b (mem_recent.mp hb)) _ _)

lemma Ok.recency_updateTime (h : s.Ok S) (now : ℤ) {found : Ref}
    (hfound : found ∈ s.common.primaryIndex.toList) :
    (s.updateTime now found.addr).recency =
      found :: s.recency.filter (·.addr ≠ found.addr) := by
  obtain ⟨e, he, htuple⟩ := h.linked found hfound
  have hfront : (s.updateTime now found.addr).liveAt found.addr = some found := by
    have hheap : (s.updateTime now found.addr).heap found.addr =
        some { e with refCount := e.refCount + 1, time := now } := by
      unfold Table2.updateTime
      rw [he]
      exact update_self _ _ _
    rw [liveAt_of_heap hheap, htuple]
    rfl
  unfold recency
  rw [← filterMap_liveAt_filter]
  show (recent (s.queue ++ [found.addr])).filterMap _ = _
  rw [recent_push, filterMap_cons_some hfront]
  congr 1
  refine filterMap_congr fun b hb => ?_
  have hne : b ≠ found.addr := of_decide_eq_true (mem_filter.mp hb).2
  exact congrArg (Option.bind · _) (update_of_ne hne _ _)

lemma Ok.recency_removeTuple (h : s.Ok S) (hflush : s.flushing) (t : Tuple) {found : Ref}
    (hfound : found ∈ s.common.primaryIndex.toList) :
    (s.removeTuple t found).recency = s.recency.filter (·.addr ≠ found.addr) := by
  obtain ⟨e, he, -⟩ := h.linked found hfound
  have hgone : (s.removeTuple t found).liveAt found.addr = none := by
    have hheap : (s.removeTuple t found).heap found.addr = some { e with tuple := none } := by
      unfold Table2.removeTuple
      rw [he]
      exact (update_self _ _ _).trans (if_pos hflush)
    rw [liveAt_of_heap hheap]
    rfl
  unfold recency
  rw [← filterMap_liveAt_filter, filterMap_filter]
  refine filterMap_congr fun b _ => ?_
  by_cases hb : b = found.addr
  · rw [hb, hgone, if_neg (by simp only [ne_eq, not_true, decide_false, Bool.false_eq_true,
      not_false_iff])]
  · rw [if_pos (decide_eq_true hb)]
    exact congrArg (Option.bind · _) (update_of_ne hb _ _)

/-! ## Simulation -/

structure Simulates (S : Schema) (key : Key) (m : ℕ) (s : Table2) (l : List Tuple) : Prop where
  ok : s.Ok S
  flushing : s.flushing
  lifetime : s.maxLifetime = .posInfin
  maxSize : s.maxSize = m
  key : s.common.key = key
  tuples : s.recency.map (·.tuple) = l
  bounded : l.length ≤ m

variable {key : Key} {m : ℕ} {l : List Tuple}

lemma Simulates.flush_eq_self (h : Simulates S key m s l) (now : ℤ) : s.flush now = s := by
  apply Table2.flush_eq_self h.lifetime
  rw [← h.ok.length_recency h.flushing, h.maxSize]
  have hbounded := h.bounded
  rwa [← h.tuples, length_map] at hbounded

lemma Simulates.not_sameKey (h : Simulates S key m s l)
    (hnew : ∀ r ∈ s.common.primaryIndex.toList, sameKey s.common.key r.tuple t = false) :
    ∀ u ∈ l, sameKey key u t = false := by
  rw [← h.tuples, ← h.key]
  exact forall_mem_map.mpr fun r hr => hnew r ((h.ok.recency_perm h.flushing).mem_iff.mp hr)

lemma Ok.simulates_flush (h : s.Ok S) (hflush : s.flushing) (hlife : s.maxLifetime = .posInfin)
    (hmax : s.maxSize = m) (hm : 0 < m) (hkey : s.common.key = key) (now : ℤ) :
    Simulates S key m (s.flush now) ((s.recency.map (·.tuple)).take m) := by
  have hset := sameSettings_flush s now
  refine ⟨h.flush now, hset.flushing.trans hflush, hset.maxLifetime.trans hlife,
    hset.maxSize.trans hmax, hset.key.trans hkey, ?_, length_take_le _ _⟩
  rw [h.recency_flush hflush hlife (hmax ▸ hm), hmax, map_take]

section Found

variable (h : Simulates S key m s l) (ht : Typed S.cols t) {found : Ref}
  (hfound : found ∈ s.common.primaryIndex.toList) (hsame : sameKey key found.tuple t)

include h ht hfound hsame

lemma Simulates.sameKey_iff {r : Ref} (hr : r ∈ s.recency) :
    sameKey key r.tuple t ↔ r.addr = found.addr := by
  have hr' := (h.ok.recency_perm h.flushing).mem_iff.mp hr
  constructor
  · intro hrt
    rw [h.ok.common.eq_of_found hr' hfound ht (h.key ▸ hrt) (h.key ▸ hsame)]
  · intro haddr
    rw [h.ok.common.eq_of_addr hr' hfound haddr]
    exact hsame

lemma Simulates.filter_addr : (s.recency.filter (·.addr ≠ found.addr)).map (·.tuple) =
    l.filter fun v => !sameKey key v t := by
  rw [← h.tuples, filter_map]
  congr 1
  refine filter_congr fun r hr => ?_
  rw [comp_apply, Bool.eq_iff_iff, decide_eq_true_iff, Bool.not_eq_true', Bool.eq_false_iff]
  exact not_congr (h.sameKey_iff ht hfound hsame hr).symm

lemma Simulates.find?_eq : l.find? (sameKey key · t) = some found.tuple := by
  have hmem : found ∈ s.recency := (h.ok.recency_perm h.flushing).mem_iff.mpr hfound
  rcases hfind : l.find? (sameKey key · t) with _ | u
  · have hnone := List.find?_eq_none.mp hfind found.tuple
      (h.tuples ▸ mem_map_of_mem hmem)
    exact absurd hsame hnone
  · have hu := List.mem_of_find?_eq_some hfind
    rw [← h.tuples] at hu
    obtain ⟨r, hr, rfl⟩ := mem_map.mp hu
    have hrt : sameKey key r.tuple t := List.find?_some (p := (sameKey key · t)) hfind
    have haddr := (h.sameKey_iff ht hfound hsame hr).mp hrt
    rw [h.ok.common.eq_of_addr ((h.ok.recency_perm h.flushing).mem_iff.mp hr) hfound haddr]

end Found

lemma Simulates.insert (h : Simulates S key m s l) (hm : 0 < m) (hsat : s.Unsaturated)
    (clock : Clock) (ht : t ∈ S.tuples) :
    Simulates S key m (s.insert clock t).2 ((touch key t l).take m) := by
  have htyped := S.typed t ht
  have hkey := h.key
  unfold Table2.insert touch
  rw [h.flush_eq_self]
  rcases h.ok.insertFlushed_cases clock ht with ⟨hnew, hs'⟩ | ⟨found, hfound, hsame, heq, hs'⟩ |
    ⟨found, hfind, hne, hs'⟩
  · have hnone : l.find? (sameKey key · t) = none :=
      List.find?_eq_none.mpr fun u hu => Bool.eq_false_iff.mp (h.not_sameKey hnew u hu)
    rw [hs', hnone]
    have hrecency := h.ok.recency_insertTuple h.flushing clock.stamp t
    have hsim := (h.ok.insertTuple clock.stamp ht hnew).1.simulates_flush h.flushing h.lifetime
      h.maxSize hm hkey clock.last
    rw [hrecency, map_cons, h.tuples] at hsim
    exact hsim
  · rw [hkey] at hsame
    have hok := h.ok.updateTime h.flushing hsat clock.stamp hfound
    have hrecency := h.ok.recency_updateTime clock.stamp hfound
    have htuples : (s.updateTime clock.stamp found.addr).recency.map (·.tuple) =
        found.tuple :: l.filter fun v => !sameKey key v t := by
      rw [hrecency, map_cons, h.filter_addr htyped hfound hsame]
    -- The table has as many entries as before, so nothing is over the size.
    have hlength : (found.tuple :: l.filter fun v => !sameKey key v t).length ≤ m := by
      rw [← htuples, length_map, hok.length_recency h.flushing]
      show s.common.primaryIndex.size ≤ m
      rw [← h.ok.length_recency h.flushing, ← length_map (·.tuple), h.tuples]
      exact h.bounded
    rw [hs', if_pos h.flushing, h.find?_eq htyped hfound hsame]
    simp only [heq, if_true]
    rw [take_of_length_le hlength]
    exact ⟨hok, h.flushing, h.lifetime, h.maxSize, hkey, htuples, hlength⟩
  · obtain ⟨hfound, hsame⟩ := h.ok.common.mem_of_findKey htyped hfind
    rw [hkey] at hsame
    have hok := (h.ok.removeTuple htyped hfind).1
    have hnew := h.ok.sameKey_removeTuple ht hfind
    have hrecency := hok.recency_insertTuple h.flushing clock.stamp t
    rw [h.ok.recency_removeTuple h.flushing t hfound] at hrecency
    have hsim := (hok.insertTuple clock.stamp ht hnew).1.simulates_flush h.flushing h.lifetime
      h.maxSize hm hkey clock.last
    rw [hrecency, map_cons, h.filter_addr htyped hfound hsame] at hsim
    rw [hs', h.find?_eq htyped hfound hsame]
    simp only [if_neg hne]
    exact hsim

lemma Simulates.remove (h : Simulates S key m s l) (now : ℤ) (ht : Typed S.cols t) :
    Simulates S key m (s.remove now t).2 ((l.filter fun v => !sameKey key v t).take m) := by
  have hkey := h.key
  have hshort : (l.filter fun v => !sameKey key v t).length ≤ m :=
    (length_filter_le _ _).trans h.bounded
  rw [take_of_length_le hshort]
  simp only [Table2.remove]
  rw [h.flush_eq_self]
  split
  next hnone =>
    have hnew := h.ok.common.new_of_findKey ht hnone
    have hall : (l.filter fun v => !sameKey key v t) = l := by
      apply filter_eq_self.mpr
      intro u hu
      rw [h.not_sameKey hnew u hu]
      rfl
    rw [hall]
    exact h
  next found hfind =>
    obtain ⟨hfound, hsame⟩ := h.ok.common.mem_of_findKey ht hfind
    rw [hkey] at hsame
    refine ⟨(h.ok.removeTuple ht hfind).1, h.flushing, h.lifetime, h.maxSize, hkey, ?_, hshort⟩
    rw [h.ok.recency_removeTuple h.flushing t hfound, h.filter_addr ht hfound hsame]

lemma Simulates.step (h : Simulates S key m s l) (hm : 0 < m) {op : Op}
    (hop : Admissible S s op) : Simulates S key m (s.step op) (lruStep key m l op) := by
  rcases op.cases with ⟨clock, t, rfl⟩ | ⟨now, t, rfl⟩ | hquiet
  · exact h.insert hm hop.2 clock hop.1
  · exact h.remove now hop
  · obtain ⟨s₀, common, hs₀, hstep, hsilent⟩ := s.step_of_isQuiet hquiet
    have hs₀ : s₀ = s := by
      rcases hs₀ with rfl | ⟨now, rfl⟩
      · rfl
      · exact h.flush_eq_self now
    have hok := h.ok.step hop
    have hlist : lruStep key m l op = l := by
      unfold lruStep
      split
      · cases hquiet
      · cases hquiet
      · rfl
    rw [hs₀] at hstep hsilent
    rw [hstep] at hok ⊢
    rw [hlist]
    exact ⟨hok, h.flushing, h.lifetime, h.maxSize, hsilent.frame.key.trans h.key, h.tuples,
      h.bounded⟩

lemma Simulates.run {ops : List Op} (h : Simulates S key m s l) (hm : 0 < m)
    (hops : AdmissibleRun S s ops) :
    Simulates S key m (s.run ops) (ops.foldl (lruStep key m) l) := by
  induction ops generalizing s l with
  | nil => exact h
  | cons op ops ih => exact ih (h.step hm hops.1) hops.2

lemma simulates_mk' (S : Schema) (key : Key) (hm : 0 < m) :
    Simulates S key m (mk' key m .posInfin) [] := by
  have hflush : (mk' key m .posInfin).flushing := by
    show (decide (0 < m) || _) = true
    rw [decide_eq_true hm, Bool.true_or]
  exact ⟨ok_mk' S key m .posInfin, hflush, rfl, rfl, rfl, rfl, Nat.zero_le m⟩

/-- **Bounded tables keep the most recent tuples.** In every run in which no insertion finds an
entry with `2 ^ 32` cells, the live tuples are those of the reference model.
Hyps: `hm` says that the size is bounded; `hops` that tuples come from a schema and that no count is
at its greatest value when a tuple is inserted -/
theorem scan_perm_lruRun (S : Schema) (key : Key) (m : ℕ) (hm : 0 < m) (ops : List Op)
    (hops : AdmissibleRun S (mk' key m .posInfin) ops) :
    ((mk' key m .posInfin).run ops).common.scan.Perm (lruRun key m ops) := by
  have hsim := (simulates_mk' S key hm).run hm hops
  have hperm := (hsim.ok.recency_perm hsim.flushing).symm.map (·.tuple)
  rw [hsim.tuples] at hperm
  exact hperm

theorem scan_perm_lruRun_sampleOps :
    ((mk' [0] 2 .posInfin).run sampleOps).common.scan.Perm (lruRun [0] 2 sampleOps) ∧
      lruRun [0] 2 sampleOps = [row 12] :=
  ⟨scan_perm_lruRun rows [0] 2 (by decide) sampleOps
    (admissibleRun_of_length within_sampleOps (by decide)), rfl⟩

/-! ## Without the bound -/

def evictOps (n : ℕ) : List Op :=
  [.insert ⟨0, 0, 0⟩ (row 11), .insert ⟨0, 0, 0⟩ (row 21)] ++
    (replicate n (.insert ⟨0, 0, 0⟩ (row 11)) ++ [.insert ⟨0, 0, 0⟩ (row 31)])

lemma lruRun_evictOps (n : ℕ) : lruRun [0] 2 (evictOps (n + 1)) = [row 31, row 11] := by
  have hagain : ∀ n, (replicate n (.insert ⟨0, 0, 0⟩ (row 11))).foldl (lruStep [0] 2)
      [row 11, row 21] = [row 11, row 21] := by
    intro n
    induction n with
    | zero => rfl
    | succ n ih => exact ih
  have hlist : (replicate (n + 1) (.insert ⟨0, 0, 0⟩ (row 11))).foldl (lruStep [0] 2)
      [row 21, row 11] = [row 11, row 21] := hagain n
  unfold lruRun evictOps
  rw [foldl_append, foldl_append]
  exact congrArg (fun l => lruStep [0] 2 l (.insert ⟨0, 0, 0⟩ (row 31))) hlist

lemma scan_evictOps {n : ℕ} (hn : UInt32.ofNat n = 0) :
    ((mk' [0] 2 .posInfin).run (evictOps n)).common.scan = [row 21, row 31] := by
  obtain ⟨s, hs⟩ : ∃ s, s = ((mk' [0] 2 .posInfin).run [.insert ⟨0, 0, 0⟩ (row 11),
      .insert ⟨0, 0, 0⟩ (row 21)]).refreshed 0 ⟨some (row 11), 0, 0⟩ n := ⟨_, rfl⟩
  obtain ⟨s', hs'⟩ : ∃ s', s' = s.insertTuple 0 (row 31) := ⟨_, rfl⟩
  have hrefresh : ((mk' [0] 2 .posInfin).run [.insert ⟨0, 0, 0⟩ (row 11),
      .insert ⟨0, 0, 0⟩ (row 21)]).run (replicate n (.insert ⟨0, 0, 0⟩ (row 11))) = s := by
    rw [hs]
    exact run_replicate_insert ⟨0, row 11⟩ rfl rfl (by decide) rfl (by decide) rfl rfl n
  have hrun : (mk' [0] 2 .posInfin).run (evictOps n) = s'.flush 0 := by
    have hself : s.flush 0 = s := by
      apply flush_eq_self
      · rw [hs]
        rfl
      · rw [hs]
        exact Nat.le_refl 2
    unfold evictOps Table2.run
    rw [foldl_append, foldl_append]
    show ((Table2.run _ _).insert ⟨0, 0, 0⟩ (row 31)).2 = _
    unfold Table2.insert
    erw [hrefresh, hself]
    rw [hs', hs]
    rfl
  have hround : s'.flush 0 = (s'.flushEntry 0).flushOversize (n + 2) := by
    have hlength : s'.queue.length = n + 2 + 1 := by
      rw [hs', hs]
      show ((0 :: 1 :: replicate n 0) ++ [2]).length = _
      rw [length_append, length_cons, length_cons, length_replicate]
      rfl
    have hflush : s'.flush 0 = s'.flushOversize s'.queue.length := by
      rw [hs', hs]
      rfl
    rw [hflush, hlength, hs', hs]
    rfl
  have hheap : s'.heap 0 = some ⟨some (row 11), 0, 0⟩ := by
    rw [hs', hs]
    show some (Entry.mk (some (row 11)) 0 (0 + UInt32.ofNat n)) = _
    rw [hn]
    rfl
  have hentry : s'.flushEntry 0 = { s' with
      common := (s'.common.removeDerivatives (row 11)).erasePrimary (row 11)
      heap := update s'.heap 0 none
      queue := s'.queue.tail } := by
    rw [flushEntry_eq hheap]
    rfl
  have hstop : (s'.flushEntry 0).flushOversize (n + 2) = s'.flushEntry 0 := by
    apply flushOversize_eq_self
    rw [hentry, hs', hs]
    exact Nat.le_refl 2
  rw [hrun, hround, hstop, hentry, hs', hs]
  rfl

/-- One row too many after `2 ^ 32` re-insertions of the first: it leaves though it was inserted
after the second. -/
theorem not_scan_perm_lruRun_of_refreshes : (∀ n, row n ∈ rows.tuples) ∧
    ¬ ((mk' [0] 2 .posInfin).run (evictOps (2 ^ 32))).common.scan.Perm
      (lruRun [0] 2 (evictOps (2 ^ 32))) := by
  refine ⟨row_mem_rows, fun hperm => ?_⟩
  have hwrap : UInt32.ofNat (2 ^ 32) = 0 := by
    apply UInt32.toNat_inj.mp
    rfl
  have hpos : 2 ^ 32 = 2 ^ 32 - 1 + 1 := by norm_num
  rw [scan_evictOps hwrap, hpos, lruRun_evictOps] at hperm
  exact absurd (hperm.map Tuple.ID) (by decide)

end Table2

end P2.Table
