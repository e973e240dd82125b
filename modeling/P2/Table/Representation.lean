import P2.Table.IndexInvariant
import P2.Table.Table2

/-!
# The representation of a flushing table

What the indices, the heap and the queue of a `Table2` have to do with each other:
`represented_run`.
-/

namespace P2.Table

open P2.Value P2.Lib List Option Function Nat UInt32

namespace Table2

structure Ok (S : Schema) (s : Table2) : Prop where
  common : s.common.Ok S
  fresh : ∀ a, s.nextAddr ≤ a → s.heap a = none
  /-- The entries of the primary index are on the heap, with their tuples. -/
  linked : ∀ r ∈ s.common.primaryIndex.toList, ∃ e, s.heap r.addr = some e ∧ e.tuple = some r.tuple
  live : ∀ a e t, s.heap a = some e → e.tuple = some t → ⟨a, t⟩ ∈ s.common.primaryIndex.toList
  /-- The queue has one cell more of an entry than the entry counts. -/
  counted : s.flushing → ∀ a e, s.heap a = some e → s.queue.count a = e.refCount.toNat + 1
  queued : ∀ a ∈ s.queue, ∃ e, s.heap a = some e
  idle : s.flushing = false → s.queue = []

variable {S : Schema} {s : Table2} {a : ℕ} {e : Entry}

lemma Ok.silent (h : s.Ok S) {common : CommonTable} (hsilent : s.common.Silent common) :
    Ok S { s with common := common } := by
  refine ⟨h.common.silent hsilent, h.fresh, ?_, ?_, h.counted, h.queued, h.idle⟩
  · show ∀ r ∈ common.primaryIndex.toList, _
    rw [hsilent.frame.primaryIndex]
    exact h.linked
  · rw [hsilent.frame.primaryIndex]
    exact h.live

/-! ## Flushing -/

lemma flushEntry_eq (he : s.heap a = some e) : s.flushEntry a =
    if 0 < e.refCount then
      { s with
        heap := update s.heap a (some { e with refCount := e.refCount - 1 })
        queue := s.queue.tail }
    else
      { s with
        common := match e.tuple with
          | none => s.common
          | some t => (s.common.removeDerivatives t).erasePrimary t
        heap := update s.heap a none
        queue := s.queue.tail } := by
  unfold flushEntry
  rewrite [he]
  rfl

lemma toNat_sub_one {n : UInt32} (h : 0 < n) : (n - 1).toNat + 1 = n.toNat := by
  have hpos : 0 < n.toNat := lt_iff_toNat_lt.mp h
  rw [UInt32.toNat_sub_of_le n 1 (le_iff_toNat_le.mpr hpos)]
  show n.toNat - 1 + 1 = n.toNat
  omega

lemma Ok.lt_nextAddr (h : s.Ok S) (he : s.heap a = some e) : a < s.nextAddr := by
  by_contra hle
  rw [h.fresh a (Nat.not_lt.mp hle)] at he
  cases he

lemma Ok.addr_lt (h : s.Ok S) {r : Ref} (hr : r ∈ s.common.primaryIndex.toList) :
    r.addr < s.nextAddr := by
  obtain ⟨e, he, -⟩ := h.linked r hr
  exact h.lt_nextAddr he

lemma Ok.mem_iff (h : s.Ok S) (he : s.heap a = some e) (t : Tuple) :
    ⟨a, t⟩ ∈ s.common.primaryIndex.toList ↔ e.tuple = some t := by
  refine ⟨fun hr => ?_, h.live a e t he⟩
  obtain ⟨e', he', ht⟩ := h.linked _ hr
  rwa [some.inj (he.symm.trans he')]

lemma Ok.flushing_of_mem (h : s.Ok S) (ha : a ∈ s.queue) : s.flushing := by
  by_contra hidle
  rw [h.idle (Bool.eq_false_iff.mpr hidle)] at ha
  cases ha

/-- **One entry changes.** At its address the primary index has then what the entry says, and the
queue has the cells that it counts. -/
lemma Ok.setEntry (h : s.Ok S) {x : Option Entry} {common : CommonTable} {queue : List ℕ} {next : ℕ}
    (hnext : s.nextAddr ≤ next) (ha : a < next) (hok : common.Ok S)
    (hat : ∀ t, ⟨a, t⟩ ∈ common.primaryIndex.toList ↔ x.bind Entry.tuple = some t)
    (hoff : ∀ r : Ref, r.addr ≠ a →
      (r ∈ common.primaryIndex.toList ↔ r ∈ s.common.primaryIndex.toList))
    (hcount : s.flushing → ∀ e ∈ x, queue.count a = e.refCount.toNat + 1)
    (hother : ∀ b ≠ a, queue.count b = s.queue.count b) (hcell : a ∈ queue → ∃ e, x = some e)
    (hidle : s.flushing = false → queue = []) :
    Ok S { s with
      common := common, heap := update s.heap a x, nextAddr := next, queue := queue } := by
  refine ⟨hok, fun b hb => ?_, fun r hr => ?_, fun b e t hb ht => ?_, fun hflush b e hb => ?_,
    fun b hb => ?_, hidle⟩
  · have hne : b ≠ a := (lt_of_lt_of_le ha hb).ne'
    exact (update_of_ne hne _ _).trans (h.fresh b (hnext.trans hb))
  · show ∃ e, update s.heap a x r.addr = some e ∧ _
    by_cases hra : r.addr = a
    · subst hra
      rw [update_self]
      exact bind_eq_some_iff.mp ((hat r.tuple).mp hr)
    · rw [update_of_ne hra]
      exact h.linked r ((hoff r hra).mp hr)
  · change update s.heap a x b = some e at hb
    by_cases hba : b = a
    · subst hba
      rw [update_self] at hb
      exact (hat t).mpr (bind_eq_some_iff.mpr ⟨e, hb, ht⟩)
    · rw [update_of_ne hba] at hb
      exact (hoff ⟨b, t⟩ hba).mpr (h.live b e t hb ht)
  · change update s.heap a x b = some e at hb
    by_cases hba : b = a
    · subst hba
      rw [update_self] at hb
      exact hcount hflush e hb
    · rw [update_of_ne hba] at hb
      exact (hother b hba).trans (h.counted hflush b e hb)
  · show ∃ e, update s.heap a x b = some e
    by_cases hba : b = a
    · rw [hba, update_self]
      exact hcell (hba ▸ hb)
    · rw [update_of_ne hba]
      refine h.queued b ?_
      rw [← count_pos_iff, ← hother b hba]
      exact count_pos_iff.mpr hb

/-- An entry of the primary index goes, and nothing else. -/
lemma Ok.mem_of_perm (h : s.Ok S) {r : Ref} {others : List Ref}
    (hperm : s.common.primaryIndex.toList.Perm (r :: others)) :
    (∀ t, (⟨r.addr, t⟩ : Ref) ∉ others) ∧
      ∀ x : Ref, x.addr ≠ r.addr → (x ∈ others ↔ x ∈ s.common.primaryIndex.toList) := by
  refine ⟨fun t ht => (h.common.ne_of_perm hperm ht).1 rfl, fun x hx => ?_⟩
  rw [hperm.mem_iff, mem_cons, or_iff_right]
  rintro rfl
  exact hx rfl

lemma Ok.flushEntry (h : s.Ok S) (hhead : s.queue.head? = some a) : (s.flushEntry a).Ok S := by
  obtain ⟨queue, hqueue⟩ := head?_eq_some_iff.mp hhead
  have htail : s.queue.tail = queue := by rw [hqueue, tail_cons]
  have hmem : a ∈ s.queue := hqueue ▸ mem_cons_self
  have hflush := h.flushing_of_mem hmem
  have hidle : s.flushing = false → queue = [] := fun hidle =>
    absurd hflush (Bool.eq_false_iff.mp hidle)
  obtain ⟨e, he⟩ := h.queued a hmem
  have hcount := h.counted hflush a e he
  rw [hqueue, count_cons_self] at hcount
  have hother : ∀ b ≠ a, queue.count b = s.queue.count b := by
    intro b hba
    rw [hqueue, count_cons_of_ne hba.symm]
  rw [flushEntry_eq he, htail]
  split_ifs with hpos
  · refine h.setEntry le_rfl (h.lt_nextAddr he) h.common (h.mem_iff (e := e) he) (fun _ _ => Iff.rfl) ?_
      hother (fun _ => ⟨_, rfl⟩) hidle
    rintro - _ ⟨⟩
    have hsub := toNat_sub_one hpos
    show queue.count a = (e.refCount - 1).toNat + 1
    omega
  · have hlast : a ∉ queue := by
      rw [UInt32.not_lt, UInt32.le_zero_iff] at hpos
      rw [hpos] at hcount
      exact count_eq_zero.mp (succ.inj hcount)
    rcases htuple : e.tuple with _ | t
    · refine h.setEntry le_rfl (h.lt_nextAddr he) h.common (fun t => ?_) (fun _ _ => Iff.rfl)
        (fun _ _ => nofun) hother (fun ha => absurd ha hlast) hidle
      rw [h.mem_iff he, htuple]
      rfl
    · obtain ⟨hok, hperm⟩ := h.common.removeFlushed (h.live a e t he htuple)
      obtain ⟨hgone, hoff⟩ := h.mem_of_perm hperm
      exact h.setEntry le_rfl (h.lt_nextAddr he) hok (fun u => iff_of_false (hgone u) nofun) hoff
        (fun _ _ => nofun) hother (fun ha => absurd ha hlast) hidle

section Loops

variable {P : Table2 → Prop}

lemma flushExpired_induction {expiry : TimeRep}
    (hstep : ∀ s a, P s → s.queue.head? = some a → P (s.flushEntry a)) (n : ℕ) (h : P s) :
    P (s.flushExpired expiry n) := by
  fun_induction flushExpired expiry n s with
  | case2 n s a e _ ha _ ih => exact ih (hstep s a h ha)
  | _ => exact h

lemma flushOversize_induction (hstep : ∀ s a, P s → s.queue.head? = some a → P (s.flushEntry a))
    (n : ℕ) (h : P s) : P (s.flushOversize n) := by
  fun_induction flushOversize n s with
  | case2 n s a ha _ ih => exact ih (hstep s a h ha)
  | _ => exact h

lemma flush_induction (hstep : ∀ s a, P s → s.queue.head? = some a → P (s.flushEntry a))
    (now : ℤ) (h : P s) : P (s.flush now) := by
  have hexpired : P (if s.maxLifetime = .posInfin then s
      else s.flushExpired (expiryTime now s.maxLifetime) s.queue.length) := by
    by_cases hlife : s.maxLifetime = .posInfin
    · rwa [if_pos hlife]
    · rw [if_neg hlife]
      exact flushExpired_induction hstep _ h
  unfold flush
  by_cases hflush : s.flushing
  · rw [if_pos hflush]
    by_cases hsize : 0 < (if s.maxLifetime = .posInfin then s
        else s.flushExpired (expiryTime now s.maxLifetime) s.queue.length).maxSize
    · exact (if_pos hsize).symm ▸ flushOversize_induction hstep _ hexpired
    · exact (if_neg hsize).symm ▸ hexpired
  · rwa [if_neg hflush]

end Loops

lemma Ok.flush (h : s.Ok S) (now : ℤ) : (s.flush now).Ok S :=
  flush_induction (fun _ _ h hhead => h.flushEntry hhead) now h

/-- Every entry of the second state is one of the first, with the same time and tuple. -/
def Shrunk (s s' : Table2) : Prop :=
  ∀ b e', s'.heap b = some e' → ∃ e, s.heap b = some e ∧ e'.time = e.time ∧ e'.tuple = e.tuple

lemma Shrunk.trans {s s' s'' : Table2} (h : Shrunk s s') (h' : Shrunk s' s'') : Shrunk s s'' := by
  intro b e'' he''
  obtain ⟨e', he', htime', htuple'⟩ := h' b e'' he''
  obtain ⟨e, he, htime, htuple⟩ := h b e' he'
  exact ⟨e, he, htime'.trans htime, htuple'.trans htuple⟩

lemma shrunk_flushEntry (s : Table2) (a : ℕ) : Shrunk s (s.flushEntry a) := by
  intro b e' hb
  rcases he : s.heap a with _ | e
  · unfold Table2.flushEntry at hb
    rw [he] at hb
    exact ⟨e', hb, rfl, rfl⟩
  · rw [flushEntry_eq he] at hb
    by_cases hba : b = a
    · subst hba
      split_ifs at hb
      · change update s.heap b _ b = some e' at hb
        rw [update_self, some.injEq] at hb
        exact ⟨e, he, by rw [← hb], by rw [← hb]⟩
      · change update s.heap b none b = some e' at hb
        rw [update_self] at hb
        cases hb
    · have hb' : s.heap b = some e' := by
        split_ifs at hb
        · exact (update_of_ne hba _ _).symm.trans hb
        · exact (update_of_ne hba _ _).symm.trans hb
      exact ⟨e', hb', rfl, rfl⟩

lemma shrunk_flush (s : Table2) (now : ℤ) : Shrunk s (s.flush now) :=
  flush_induction (P := Shrunk s) (fun s' a h _ => h.trans (shrunk_flushEntry s' a)) now
    fun _ e he => ⟨e, he, rfl, rfl⟩

lemma Ok.mem_of_shrunk {s' : Table2} (h : s.Ok S) (h' : s'.Ok S) (hle : Shrunk s s') {r : Ref}
    (hr : r ∈ s'.common.primaryIndex.toList) : r ∈ s.common.primaryIndex.toList := by
  obtain ⟨e', he', htuple'⟩ := h'.linked r hr
  obtain ⟨e, he, -, htuple⟩ := hle _ _ he'
  exact h.live r.addr e r.tuple he (htuple ▸ htuple')

lemma queue_flushEntry (s : Table2) (a : ℕ) : (s.flushEntry a).queue = s.queue.tail := by
  unfold Table2.flushEntry
  split
  · rfl
  · split_ifs <;> rfl

lemma queue_eq_cons (hhead : s.queue.head? = some a) : s.queue = a :: (s.flushEntry a).queue := by
  rw [queue_flushEntry]
  exact (cons_head?_tail hhead).symm

lemma queue_flush_suffix (s : Table2) (now : ℤ) : (s.flush now).queue <:+ s.queue := by
  refine flush_induction (P := fun s' => s'.queue <:+ s.queue) (fun s' a hsuffix _ => ?_) now
    (suffix_refl _)
  rw [queue_flushEntry]
  exact (tail_suffix _).trans hsuffix

structure SameSettings (s s' : Table2) : Prop where
  key : s'.common.key = s.common.key
  flushing : s'.flushing = s.flushing
  maxSize : s'.maxSize = s.maxSize
  maxLifetime : s'.maxLifetime = s.maxLifetime

lemma SameSettings.trans {s s' s'' : Table2} (h : SameSettings s s') (h' : SameSettings s' s'') :
    SameSettings s s'' :=
  ⟨h'.key.trans h.key, h'.flushing.trans h.flushing, h'.maxSize.trans h.maxSize,
    h'.maxLifetime.trans h.maxLifetime⟩

lemma sameSettings_flushEntry (s : Table2) (a : ℕ) : SameSettings s (s.flushEntry a) := by
  unfold Table2.flushEntry
  split
  · exact ⟨rfl, rfl, rfl, rfl⟩
  · split_ifs
    · exact ⟨rfl, rfl, rfl, rfl⟩
    · refine ⟨?_, rfl, rfl, rfl⟩
      split <;> rfl

lemma sameSettings_flush (s : Table2) (now : ℤ) : SameSettings s (s.flush now) :=
  flush_induction (P := SameSettings s) (fun s' a h _ => h.trans (sameSettings_flushEntry s' a)) now
    ⟨rfl, rfl, rfl, rfl⟩

/-! ## Insertion and removal -/

lemma Ok.insertTuple (h : s.Ok S) (now : ℤ) {t : Tuple} (ht : t ∈ S.tuples)
    (hnew : ∀ r ∈ s.common.primaryIndex.toList, sameKey s.common.key r.tuple t = false) :
    (s.insertTuple now t).Ok S ∧ (s.insertTuple now t).common.primaryIndex.toList.Perm
      (⟨s.nextAddr, t⟩ :: s.common.primaryIndex.toList) := by
  have haddr : ∀ r ∈ s.common.primaryIndex.toList, r.addr ≠ s.nextAddr := fun r hr =>
    (h.addr_lt hr).ne
  have hzero : s.queue.count s.nextAddr = 0 := by
    rw [count_eq_zero]
    intro hmem
    obtain ⟨e, he⟩ := h.queued _ hmem
    exact (h.lt_nextAddr he).ne rfl
  obtain ⟨hok, hperm⟩ :=
    h.common.insert (r := ⟨s.nextAddr, t⟩) ht fun r hr => ⟨hnew r hr, haddr r hr⟩
  refine ⟨h.setEntry (le_succ _) (lt_succ_self _) hok (fun u => ?_) (fun r hr => ?_) ?_ (fun b hb => ?_)
    (fun _ => ⟨_, rfl⟩) (fun hidle => ?_), hperm⟩
  · rw [hperm.mem_iff, mem_cons, or_iff_left fun hmem => haddr _ hmem rfl]
    show _ ↔ some t = some u
    rw [Ref.mk.injEq, some.injEq, and_iff_right rfl, eq_comm]
  · rw [hperm.mem_iff, mem_cons, or_iff_right]
    rintro rfl
    exact hr rfl
  · rintro hflush _ ⟨⟩
    rw [if_pos hflush, count_append, hzero, count_singleton_self]
    rfl
  · split_ifs
    · rw [count_append, count_singleton, if_neg (by simpa using hb.symm), Nat.add_zero]
    · rfl
  · rw [if_neg (Bool.eq_false_iff.mp hidle)]
    exact h.idle hidle

lemma Ok.removeTuple (h : s.Ok S) {t : Tuple} (ht : Typed S.cols t) {found : Ref}
    (hfind : s.common.primaryIndex.findKey s.common.key t = some found) :
    (s.removeTuple t found).Ok S ∧ s.common.primaryIndex.toList.Perm
      (found :: (s.removeTuple t found).common.primaryIndex.toList) := by
  obtain ⟨hok, hperm⟩ := h.common.removeFound (ht.on _) hfind
  obtain ⟨e, he, -⟩ := h.linked found (hperm.mem_iff.mpr mem_cons_self)
  obtain ⟨hgone, hoff⟩ := h.mem_of_perm hperm
  refine ⟨h.setEntry le_rfl (h.lt_nextAddr he) hok (fun u => iff_of_false (hgone u) ?_) hoff
    (fun hflush e' he' => ?_) (fun _ _ => rfl) (fun hmem => ?_) h.idle, hperm⟩
  · rw [he]
    split_ifs <;> exact nofun
  · rw [if_pos hflush, he] at he'
    rw [h.counted hflush _ e he, ← some.inj he']
  · exact ⟨_, by rw [if_pos (h.flushing_of_mem hmem), he, map_some]⟩

/-- No entry has `2 ^ 32` cells in the queue, that is, no `refCount` is at its greatest value. -/
def Unsaturated (s : Table2) : Prop := ∀ a ∈ s.queue, s.queue.count a < 2 ^ 32

lemma Unsaturated.flush (h : s.Unsaturated) (now : ℤ) : (s.flush now).Unsaturated := by
  intro a ha
  have hsuffix := queue_flush_suffix s now
  exact lt_of_le_of_lt (hsuffix.sublist.count_le a) (h a (hsuffix.subset ha))

lemma Ok.updateTime (h : s.Ok S) (hflush : s.flushing) (hsat : s.Unsaturated) (now : ℤ) {r : Ref}
    (hr : r ∈ s.common.primaryIndex.toList) : (s.updateTime now r.addr).Ok S := by
  obtain ⟨e, he, -⟩ := h.linked r hr
  have hcount := h.counted hflush r.addr e he
  have hlt : e.refCount.toNat + 1 < 2 ^ 32 := by
    have hmem : r.addr ∈ s.queue := by
      rw [← count_pos_iff, hcount]
      exact succ_pos _
    have := hsat r.addr hmem
    omega
  have hsucc : (e.refCount + 1).toNat = e.refCount.toNat + 1 := mod_eq_of_lt hlt
  unfold Table2.updateTime
  rw [he]
  refine h.setEntry le_rfl (h.lt_nextAddr he) h.common (h.mem_iff (e := e) he) (fun _ _ => Iff.rfl) ?_
    (fun b hb => ?_) (fun _ => ⟨_, rfl⟩) fun hidle => absurd hflush (Bool.eq_false_iff.mp hidle)
  · rintro - _ ⟨⟩
    rw [count_append, count_singleton_self, hcount]
    exact congrArg (· + 1) hsucc.symm
  · rw [count_append, count_singleton, if_neg (by simpa using hb.symm), Nat.add_zero]

lemma Ok.sameKey_removeTuple (h : s.Ok S) {t : Tuple} (ht : t ∈ S.tuples) {found : Ref}
    (hfind : s.common.primaryIndex.findKey s.common.key t = some found) :
    ∀ r ∈ (s.removeTuple t found).common.primaryIndex.toList,
      sameKey s.common.key r.tuple t = false :=
  h.common.sameKey_removeFound ht hfind

/-- **What `insert` does after its first `flush`**: it adds a new key, refreshes an equal tuple, or
replaces a different one. -/
lemma Ok.insertFlushed_cases (h : s.Ok S) (clock : Clock) {t : Tuple} (ht : t ∈ S.tuples) :
    ((∀ r ∈ s.common.primaryIndex.toList, sameKey s.common.key r.tuple t = false) ∧
      s.insertFlushed clock t = (true, (s.insertTuple clock.stamp t).flush clock.last)) ∨
    (∃ found ∈ s.common.primaryIndex.toList, sameKey s.common.key found.tuple t ∧
      found.tuple.compareTo t = .eq ∧
      s.insertFlushed clock t =
        (false, if s.flushing then s.updateTime clock.stamp found.addr else s)) ∨
    (∃ found, s.common.primaryIndex.findKey s.common.key t = some found ∧
      found.tuple.compareTo t ≠ .eq ∧
      s.insertFlushed clock t =
        (true, ((s.removeTuple t found).insertTuple clock.stamp t).flush clock.last)) := by
  have htyped := S.typed t ht
  unfold Table2.insertFlushed
  rcases hfind : s.common.primaryIndex.findKey s.common.key t with _ | found
  · exact Or.inl ⟨h.common.new_of_findKey htyped hfind, rfl⟩
  · obtain ⟨hfound, hsame⟩ := h.common.mem_of_findKey htyped hfind
    by_cases heq : found.tuple.compareTo t = .eq
    · exact Or.inr (Or.inl ⟨found, hfound, hsame, heq, if_pos heq⟩)
    · exact Or.inr (Or.inr ⟨found, rfl, heq, if_neg heq⟩)

lemma Ok.insertFlushed (h : s.Ok S) (hsat : s.Unsaturated) (clock : Clock) {t : Tuple}
    (ht : t ∈ S.tuples) : (s.insertFlushed clock t).2.Ok S := by
  rcases h.insertFlushed_cases clock ht with ⟨hnew, hs'⟩ | ⟨found, hfound, -, -, hs'⟩ |
    ⟨found, hfind, -, hs'⟩
  · rw [hs']
    exact (h.insertTuple clock.stamp ht hnew).1.flush clock.last
  · rw [hs']
    split_ifs with hflush
    · exact h.updateTime hflush hsat clock.stamp hfound
    · exact h
  · rw [hs']
    have hok := (h.removeTuple (S.typed t ht) hfind).1
    exact (hok.insertTuple clock.stamp ht (h.sameKey_removeTuple ht hfind)).1.flush clock.last

lemma Ok.insert (h : s.Ok S) (hsat : s.Unsaturated) (clock : Clock) {t : Tuple}
    (ht : t ∈ S.tuples) : (s.insert clock t).2.Ok S :=
  (h.flush clock.first).insertFlushed (hsat.flush clock.first) clock ht

lemma Ok.remove (h : s.Ok S) (now : ℤ) {t : Tuple} (ht : Typed S.cols t) :
    (s.remove now t).2.Ok S := by
  simp only [Table2.remove]
  split
  · exact h.flush now
  next found hfind => exact ((h.flush now).removeTuple ht hfind).1

/-! ## Runs -/

/-- A call whose tuples belong to the schema, and an insertion only where no count is at its
greatest value. -/
def Admissible (S : Schema) (s : Table2) : Op → Prop
  | .insert _ t => t ∈ S.tuples ∧ s.Unsaturated
  | .remove _ t => Typed S.cols t
  | _ => True

def Op.Within (S : Schema) : Op → Prop
  | .insert _ t => t ∈ S.tuples
  | .remove _ t => Typed S.cols t
  | _ => True

lemma Admissible.within {op : Op} (h : Admissible S s op) : op.Within S := by
  rcases op with ⟨_, _⟩ | ⟨_, _⟩ | _
  · exact h.1
  · exact h
  all_goals exact trivial

def AdmissibleRun (S : Schema) (s : Table2) (ops : List Op) : Prop :=
  Throughout step (Admissible S) s ops

def Op.isQuiet : Op → Bool
  | .insert _ _ => false
  | .remove _ _ => false
  | _ => true

lemma Op.cases (op : Op) : (∃ clock t, op = .insert clock t) ∨ (∃ now t, op = .remove now t) ∨
    op.isQuiet := by
  cases op with
  | insert clock t => exact Or.inl ⟨clock, t, rfl⟩
  | remove now t => exact Or.inr (Or.inl ⟨now, t, rfl⟩)
  | _ => exact Or.inr (Or.inr rfl)

/-- **A quiet call flushes or not**, and otherwise neither brings an entry nor takes one. -/
lemma step_of_isQuiet (s : Table2) {op : Op} (hop : op.isQuiet) : ∃ s₀ common,
    (s₀ = s ∨ ∃ now, s₀ = s.flush now) ∧ s.step op = { s₀ with common := common } ∧
      s₀.common.Silent common := by
  match op, hop with
  | .lookupProjected now lookupKey indexKey t, _ =>
    exact ⟨s.flush now, _, Or.inr ⟨now, rfl⟩, rfl, .lookupProjected lookupKey indexKey t⟩
  | .lookup now _ _, _ => exact ⟨s.flush now, _, Or.inr ⟨now, rfl⟩, rfl, .nothing⟩
  | .scan now, _ => exact ⟨s.flush now, _, Or.inr ⟨now, rfl⟩, rfl, .nothing⟩
  | .scanKey now _, _ => exact ⟨s.flush now, _, Or.inr ⟨now, rfl⟩, rfl, .nothing⟩
  | .flush now, _ => exact ⟨s.flush now, _, Or.inr ⟨now, rfl⟩, rfl, .nothing⟩
  | .secondaryIndex key, _ => exact ⟨s, _, Or.inl rfl, rfl, .secondaryIndex key⟩
  | .aggregate groupBy aggFieldNo function, _ =>
    exact ⟨s, _, Or.inl rfl, rfl, .aggregate groupBy aggFieldNo function⟩
  | .aggregateMkSet groupBy aggFieldNo, _ =>
    exact ⟨s, _, Or.inl rfl, rfl, .aggregateMkSet groupBy aggFieldNo⟩

lemma Ok.step (h : s.Ok S) {op : Op} (hop : Admissible S s op) : (s.step op).Ok S := by
  rcases op.cases with ⟨clock, t, rfl⟩ | ⟨now, t, rfl⟩ | hquiet
  · exact h.insert hop.2 clock hop.1
  · exact h.remove now hop
  · obtain ⟨s₀, common, hs₀, hstep, hsilent⟩ := s.step_of_isQuiet hquiet
    rw [hstep]
    rcases hs₀ with rfl | ⟨now, rfl⟩
    · exact h.silent hsilent
    · exact (h.flush now).silent hsilent

lemma sameSettings_step (s : Table2) (op : Op) : SameSettings s (s.step op) := by
  rcases op.cases with ⟨clock, t, rfl⟩ | ⟨now, t, rfl⟩ | hquiet
  · refine (sameSettings_flush s clock.first).trans ?_
    show SameSettings (s.flush clock.first) ((s.flush clock.first).insertFlushed clock t).2
    have hlast : ∀ s' : Table2, SameSettings (s.flush clock.first) s' →
        SameSettings (s.flush clock.first) (s'.flush clock.last) := fun s' h =>
      h.trans (sameSettings_flush s' clock.last)
    unfold Table2.insertFlushed
    split
    · exact hlast _ ⟨rfl, rfl, rfl, rfl⟩
    · split_ifs
      · exact ⟨rfl, rfl, rfl, rfl⟩
      · exact ⟨rfl, rfl, rfl, rfl⟩
      · exact hlast _ ⟨rfl, rfl, rfl, rfl⟩
  · refine (sameSettings_flush s now).trans ?_
    simp only [Table2.step, Table2.remove]
    split
    · exact ⟨rfl, rfl, rfl, rfl⟩
    · exact ⟨rfl, rfl, rfl, rfl⟩
  · obtain ⟨s₀, common, hs₀, hstep, hsilent⟩ := s.step_of_isQuiet hquiet
    have hsame : SameSettings s s₀ := by
      rcases hs₀ with rfl | ⟨now, rfl⟩
      · exact ⟨rfl, rfl, rfl, rfl⟩
      · exact sameSettings_flush s now
    rw [hstep]
    exact hsame.trans ⟨hsilent.frame.key, rfl, rfl, rfl⟩

lemma sameSettings_run (s : Table2) (ops : List Op) : SameSettings s (s.run ops) := by
  induction ops generalizing s with
  | nil => exact ⟨rfl, rfl, rfl, rfl⟩
  | cons op ops ih => exact (sameSettings_step s op).trans (ih (s.step op))

lemma Ok.run {ops : List Op} (h : s.Ok S) (hops : AdmissibleRun S s ops) : (s.run ops).Ok S :=
  Throughout.foldl _ (fun _ _ h hop => h.step hop) hops h

lemma ok_mk' (S : Schema) (key : Key) (maxSize : ℕ) (lifetime : TimeRep) :
    (mk' key maxSize lifetime).Ok S := by
  refine ⟨⟨?_, ?_, ?_, nodup_nil, ?_⟩, fun _ _ => rfl, ?_, ?_, ?_, ?_, fun _ => rfl⟩
  · exact forall_mem_nil _
  · exact List.Pairwise.nil
  · exact List.Pairwise.nil
  · exact forall_mem_nil _
  · exact forall_mem_nil _
  · exact fun a e t he => absurd he (some_ne_none e).symm
  · exact fun _ a e he => absurd he (some_ne_none e).symm
  · exact forall_mem_nil _

/-! ## The invariant as it is seen from outside -/

/-- No two live entries have equal primary keys; every secondary index has the live entries, each
once; and in a table that flushes the queue has one cell more of each entry than its `refCount`,
some cell of each live entry, and only cells of live entries or of entries with a null tuple. -/
structure Represented (s : Table2) : Prop where
  distinct : s.common.primaryIndex.toList.Pairwise fun a b =>
    sameKey s.common.key a.tuple b.tuple = false
  /-- The secondary indices hold the entries of the primary index. -/
  indexed : ∀ ix ∈ s.common.indices, ix.2.toList.Nodup ∧
    ∀ r, r ∈ ix.2.toList ↔ r ∈ s.common.primaryIndex.toList
  /-- The queue has one cell more of an entry than the entry counts. -/
  counted : s.flushing → ∀ a e, s.heap a = some e → s.queue.count a = e.refCount.toNat + 1
  queued : s.flushing → ∀ r ∈ s.common.primaryIndex.toList, r.addr ∈ s.queue
  nulled : s.flushing → ∀ a ∈ s.queue, (∀ r ∈ s.common.primaryIndex.toList, r.addr ≠ a) →
    ∃ e, s.heap a = some e ∧ e.tuple = none

lemma Ok.represented (h : s.Ok S) : s.Represented := by
  refine ⟨h.common.distinct.imp And.left, fun ix hix => ?_, h.counted, fun hflush r hr => ?_,
    fun _ a ha hdead => ?_⟩
  · obtain ⟨-, hperm⟩ := h.common.indexed ix hix
    refine ⟨hperm.nodup_iff.mpr (h.common.distinct.imp fun hab heq => ?_), fun r => hperm.mem_iff⟩
    exact hab.2 (congrArg Ref.addr heq)
  · obtain ⟨e, he, -⟩ := h.linked r hr
    rw [← count_pos_iff, h.counted hflush r.addr e he]
    exact succ_pos _
  · obtain ⟨e, he⟩ := h.queued a ha
    refine ⟨e, he, ?_⟩
    by_contra hsome
    obtain ⟨t, htuple⟩ := Option.ne_none_iff_exists'.mp hsome
    exact hdead ⟨a, t⟩ (h.live a e t he htuple) rfl

/-- **The representation invariant.** In every run from an empty table in which no insertion finds
an entry with `2 ^ 32` cells, the state reached is well represented.
Hyps: `hops` says that tuples come from a schema with a lawful field comparison and unique IDs, and
that no count is at its greatest value when a tuple is inserted -/
theorem represented_run (S : Schema) (key : Key) (maxSize : ℕ) (lifetime : TimeRep) (ops : List Op)
    (hops : AdmissibleRun S (mk' key maxSize lifetime) ops) :
    ((mk' key maxSize lifetime).run ops).Represented :=
  ((ok_mk' S key maxSize lifetime).run hops).represented

/-! ## Short runs -/

lemma unsaturated_of_length (h : s.queue.length < 2 ^ 32) : s.Unsaturated :=
  fun _ _ => lt_of_le_of_lt count_le_length h

lemma length_queue_flush_le (s : Table2) (now : ℤ) :
    (s.flush now).queue.length ≤ s.queue.length :=
  (queue_flush_suffix s now).length_le

lemma length_queue_insertTuple_le (s : Table2) (now : ℤ) (t : Tuple) :
    (s.insertTuple now t).queue.length ≤ s.queue.length + 1 := by
  show (if s.flushing then s.queue ++ [s.nextAddr] else s.queue).length ≤ _
  split_ifs
  · rw [length_append, length_singleton]
  · exact le_succ _

lemma length_queue_step_le (s : Table2) (op : Op) :
    (s.step op).queue.length ≤ s.queue.length + 1 := by
  have hflush : ∀ now, (s.flush now).queue.length ≤ s.queue.length + 1 := fun now =>
    (length_queue_flush_le s now).trans (le_succ _)
  rcases op.cases with ⟨clock, t, rfl⟩ | ⟨now, t, rfl⟩ | hquiet
  · have hfirst := succ_le_succ (length_queue_flush_le s clock.first)
    show ((s.flush clock.first).insertFlushed clock t).2.queue.length ≤ _
    unfold Table2.insertFlushed
    split
    · exact (length_queue_flush_le _ _).trans ((length_queue_insertTuple_le _ _ _).trans hfirst)
    · split_ifs
      · show ((s.flush clock.first).queue ++ [_]).length ≤ _
        rw [length_append]
        exact hfirst
      · exact hflush clock.first
      · exact (length_queue_flush_le _ _).trans ((length_queue_insertTuple_le _ _ _).trans hfirst)
  · simp only [Table2.step, Table2.remove]
    split
    · exact hflush now
    · exact hflush now
  · obtain ⟨s₀, common, hs₀, hstep, -⟩ := s.step_of_isQuiet hquiet
    rw [hstep]
    rcases hs₀ with rfl | ⟨now, rfl⟩
    · exact le_succ _
    · exact hflush now

lemma admissibleRun_of_length {ops : List Op} (hops : ∀ op ∈ ops, op.Within S)
    (hlength : s.queue.length + ops.length ≤ 2 ^ 32) : AdmissibleRun S s ops := by
  induction ops generalizing s with
  | nil => exact trivial
  | cons op ops ih =>
    rw [length_cons] at hlength
    have hstep := length_queue_step_le s op
    refine ⟨?_, ih (fun o ho => hops o (mem_cons_of_mem _ ho)) (by omega)⟩
    have hwithin := hops op mem_cons_self
    rcases op with ⟨_, _⟩ | ⟨_, _⟩ | _
    · exact ⟨hwithin, unsaturated_of_length (by omega)⟩
    · exact hwithin
    all_goals exact trivial

/-- A row of two integers, the tens and the units of its identifier. -/
def row (n : ℕ) : Tuple :=
  { ID := n, fields := [.int64 (Int64.ofNat (n / 10)), .int64 (Int64.ofNat (n % 10))] }

def rows : Schema where
  cols _ := Set.range Value.int64
  lawful _ := lawfulOn_int64
  tuples := Set.range row
  typed := by
    rintro _ ⟨n, rfl⟩ i v hv
    have hmem := mem_of_getElem? hv
    rcases mem_cons.mp hmem with rfl | hmem
    · exact ⟨_, rfl⟩
    · rw [mem_singleton.mp hmem]
      exact ⟨_, rfl⟩
  unique := by
    rintro _ ⟨m, rfl⟩ _ ⟨n, rfl⟩ hid
    exact congrArg row hid

lemma row_mem_rows (n : ℕ) : row n ∈ rows.tuples := ⟨n, rfl⟩

/-- Rows are inserted, refreshed, replaced, removed and pushed out, with a secondary index. -/
def sampleOps : List Op :=
  [.insert ⟨0, 0, 0⟩ (row 11), .secondaryIndex [1], .insert ⟨1, 1, 1⟩ (row 21),
    .insert ⟨2, 2, 2⟩ (row 11), .insert ⟨3, 3, 4⟩ (row 12), .insert ⟨5, 5, 6⟩ (row 33),
    .lookupProjected 7 [0] [1] (row 25), .remove 8 (row 39), .scan 14]

lemma within_sampleOps : ∀ op ∈ sampleOps, op.Within rows := by
  simp only [sampleOps, forall_mem_cons, Op.Within, row_mem_rows, true_and]
  exact ⟨rows.typed _ (row_mem_rows 39), forall_mem_nil _⟩

theorem represented_run_sampleOps :
    AdmissibleRun rows (mk' [0] 2 (.ticks 10)) sampleOps ∧
      ((mk' [0] 2 (.ticks 10)).run sampleOps).Represented := by
  have hops : AdmissibleRun rows (mk' [0] 2 (.ticks 10)) sampleOps :=
    admissibleRun_of_length within_sampleOps (by decide)
  exact ⟨hops, represented_run rows [0] 2 (.ticks 10) sampleOps hops⟩

/-! ## Without the bound -/

lemma flushOversize_eq_self (hsize : s.common.primaryIndex.size ≤ s.maxSize) (n : ℕ) :
    s.flushOversize n = s := by
  cases n with
  | zero => rfl
  | succ n =>
    unfold flushOversize
    split
    · exact if_neg (Nat.not_lt.mpr hsize)
    · rfl

lemma flush_eq_self (hlife : s.maxLifetime = .posInfin)
    (hsize : s.common.primaryIndex.size ≤ s.maxSize) (now : ℤ) : s.flush now = s := by
  unfold flush
  rw [if_pos hlife]
  simp [flushOversize_eq_self hsize]

def refreshed (s : Table2) (a : ℕ) (e : Entry) (n : ℕ) : Table2 :=
  { s with
    heap := Function.update s.heap a (some { e with refCount := e.refCount + UInt32.ofNat n })
    queue := s.queue ++ replicate n a }

lemma heap_refreshed (s : Table2) (a : ℕ) (e : Entry) (n : ℕ) : (s.refreshed a e n).heap a =
    some { e with refCount := e.refCount + ofNat n } :=
  update_self a _ s.heap

lemma run_replicate_insert {t : Tuple} (found : Ref) {clock : Clock} (hflush : s.flushing)
    (hlife : s.maxLifetime = .posInfin) (hsize : s.common.primaryIndex.size ≤ s.maxSize)
    (hfind : s.common.primaryIndex.findKey s.common.key t = some found)
    (heq : found.tuple.compareTo t = .eq) (he : s.heap found.addr = some e)
    (hstamp : clock.stamp = e.time) (n : ℕ) :
    s.run (replicate n (.insert clock t)) = s.refreshed found.addr e n := by
  induction n with
  | zero =>
    unfold refreshed
    rw [replicate_zero, replicate_zero, append_nil]
    have hheap : update s.heap found.addr
        (some { e with refCount := e.refCount + ofNat 0 }) = s.heap := by
      rw [update_eq_self_iff, he]
      exact congrArg (fun c => some { e with refCount := c }) (UInt32.add_zero e.refCount)
    rw [hheap]
    rfl
  | succ n ih =>
    have hrun : s.run (replicate (n + 1) (.insert clock t)) =
        (s.refreshed found.addr e n).step (.insert clock t) := by
      rw [← ih, replicate_succ']
      exact foldl_append
    have hself : (s.refreshed found.addr e n).flush clock.first = s.refreshed found.addr e n :=
      flush_eq_self (s := s.refreshed found.addr e n) hlife hsize clock.first
    rw [hrun]
    show ((s.refreshed found.addr e n).insert clock t).2 = _
    unfold Table2.insert
    rw [hself]
    have hstep : ((s.refreshed found.addr e n).insertFlushed clock t).2 =
        (s.refreshed found.addr e n).updateTime clock.stamp found.addr := by
      unfold Table2.insertFlushed
      have hfind' : (s.refreshed found.addr e n).common.primaryIndex.findKey
          (s.refreshed found.addr e n).common.key t = some found := hfind
      have hflush' : (s.refreshed found.addr e n).flushing := hflush
      rw [hfind']
      simp [heq, hflush']
    rw [hstep]
    unfold refreshed Table2.updateTime
    simp only [update_self, map_some, update_idem, hstamp, append_assoc, ← replicate_succ']
    rw [UInt32.add_assoc, ofNat_add]
    rfl

lemma toNat_ofNat_of_represented {n : ℕ} (h : ((mk' [0] 2 .posInfin).run
    (replicate (n + 1) (.insert ⟨0, 0, 0⟩ (row 11)))).Represented) :
    (ofNat n).toNat = n := by
  have hrun : (mk' [0] 2 .posInfin).run (replicate (n + 1) (.insert ⟨0, 0, 0⟩ (row 11))) =
      ((mk' [0] 2 .posInfin).step (.insert ⟨0, 0, 0⟩ (row 11))).refreshed 0
        ⟨some (row 11), 0, 0⟩ n := by
    exact run_replicate_insert ⟨0, row 11⟩ rfl rfl (by decide) rfl (by decide) rfl rfl n
  rw [hrun] at h
  have hcount := h.counted rfl 0 _ (heap_refreshed _ _ _ _)
  have hqueue : (((mk' [0] 2 .posInfin).step (.insert ⟨0, 0, 0⟩ (row 11))).refreshed 0
      ⟨some (row 11), 0, 0⟩ n).queue = 0 :: replicate n 0 := rfl
  rw [hqueue, count_cons_self, count_replicate_self, UInt32.zero_add] at hcount
  exact (succ_injective hcount).symm

/-- One insertion and `2 ^ 32` re-insertions of a row: `refCount` is 0 again, and the queue has `2 ^
32 + 1` cells of the entry. -/
theorem not_represented_of_refreshes : (∀ n, row n ∈ rows.tuples) ∧
    ¬ ((mk' [0] 2 .posInfin).run
      (replicate (2 ^ 32 + 1) (.insert ⟨0, 0, 0⟩ (row 11)))).Represented := by
  refine ⟨row_mem_rows, fun h => ?_⟩
  have hwrap := toNat_ofNat_of_represented h
  exact absurd hwrap (by decide)

end Table2

end P2.Table
