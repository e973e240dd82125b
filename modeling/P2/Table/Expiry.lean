import P2.Table.Representation

/-!
# Expiry

What `flush` has to do with the times of the entries, and what queries return: `expiry_sound`.
-/

namespace P2.Table

open P2.Value P2.Lib List Function

namespace Table2

variable {S : Schema} {s s' : Table2} {expiry : TimeRep} {a : ℕ} {e : Entry}

/-! ## What a flush removes -/

def isLive (s : Table2) (a : ℕ) : Bool := s.common.primaryIndex.toList.any (·.addr == a)

/-- The entry is older than the expiry time: the test of `flush`. -/
def isExpired (expiry : TimeRep) (s : Table2) (a : ℕ) : Bool :=
  (s.heap a).any fun e => TimeRep.lt (.ticks e.time) expiry

def Punctual (expiry : TimeRep) (s : Table2) : Prop :=
  s.queue.Pairwise fun a b => s.isLive b → s.isExpired expiry b → s.isExpired expiry a

instance (expiry : TimeRep) (s : Table2) : Decidable (Punctual expiry s) :=
  inferInstanceAs (Decidable (List.Pairwise _ _))

lemma isLive_iff : s.isLive a ↔ ∃ r ∈ s.common.primaryIndex.toList, r.addr = a := by
  unfold isLive
  rw [any_eq_true]
  simp

lemma isExpired_of_heap (he : s.heap a = some e) :
    s.isExpired expiry a = TimeRep.lt (.ticks e.time) expiry := by
  unfold isExpired
  rw [he]
  rfl

lemma Shrunk.isExpired_eq (hle : Shrunk s s') {e' : Entry} (he' : s'.heap a = some e') :
    s'.isExpired expiry a = s.isExpired expiry a := by
  obtain ⟨e, he, htime, -⟩ := hle a e' he'
  rw [isExpired_of_heap he', isExpired_of_heap he, htime]

lemma Ok.mem_queue (h : s.Ok S) (hflush : s.flushing) {r : Ref}
    (hr : r ∈ s.common.primaryIndex.toList) : r.addr ∈ s.queue :=
  h.represented.queued hflush r hr

lemma Ok.isLive_flushEntry (h : s.Ok S) (hhead : s.queue.head? = some a) {b : ℕ}
    (hb : b ∈ (s.flushEntry a).queue) (hlive : s.isLive b) : (s.flushEntry a).isLive b := by
  have h' := h.flushEntry hhead
  obtain ⟨r, hr, rfl⟩ := isLive_iff.mp hlive
  obtain ⟨e', he'⟩ := h'.queued r.addr hb
  obtain ⟨e, he, -, htuple⟩ := shrunk_flushEntry s a r.addr e' he'
  obtain ⟨e₀, he₀, htuple₀⟩ := h.linked r hr
  rw [he, Option.some.injEq] at he₀
  exact isLive_iff.mpr ⟨r, h'.live r.addr e' r.tuple he' (by rw [htuple, he₀, htuple₀]), rfl⟩

lemma Ok.punctual_flushEntry_iff (h : s.Ok S) (hhead : s.queue.head? = some a)
    (hexpired : s.isExpired expiry a) :
    Punctual expiry (s.flushEntry a) ↔ Punctual expiry s := by
  have h' := h.flushEntry hhead
  have hle := shrunk_flushEntry s a
  unfold Punctual
  rw [queue_eq_cons hhead, pairwise_cons, and_iff_right fun _ _ _ _ => hexpired]
  apply List.Pairwise.iff_of_mem
  intro b c hb hc
  obtain ⟨eb, heb⟩ := h'.queued b hb
  obtain ⟨ec, hec⟩ := h'.queued c hc
  rw [hle.isExpired_eq heb, hle.isExpired_eq hec]
  have hlive : (s.flushEntry a).isLive c ↔ s.isLive c := by
    refine ⟨fun hc => ?_, h.isLive_flushEntry hhead hc⟩
    obtain ⟨r, hr, hrc⟩ := isLive_iff.mp hc
    exact isLive_iff.mpr ⟨r, h.mem_of_shrunk h' hle hr, hrc⟩
  rw [hlive]

lemma Ok.punctual_iff_of_head (h : s.Ok S) (hflush : s.flushing)
    (hhead : ∀ a ∈ s.queue.head?, ¬ s.isExpired expiry a) :
    (∀ r ∈ s.common.primaryIndex.toList, ¬ s.isExpired expiry r.addr) ↔ Punctual expiry s := by
  unfold Punctual
  constructor
  · intro hfresh
    refine pairwise_of_forall fun {a b} hlive hexpired => ?_
    obtain ⟨r, hr, rfl⟩ := isLive_iff.mp hlive
    exact absurd hexpired (hfresh r hr)
  · intro hp r hr hexpired
    have hmem := h.mem_queue hflush hr
    rcases hq : s.queue with _ | ⟨a, queue⟩
    · rw [hq] at hmem
      cases hmem
    · rw [hq] at hmem hp hhead
      have ha := hhead a rfl
      rcases mem_cons.mp hmem with hra | hmem
      · exact ha (hra ▸ hexpired)
      · exact ha ((pairwise_cons.mp hp).1 r.addr hmem (isLive_iff.mpr ⟨r, hr, rfl⟩) hexpired)

lemma Ok.not_expired_flushExpired_iff (h : s.Ok S) (hflush : s.flushing) {n : ℕ}
    (hn : s.queue.length ≤ n) :
    (∀ r ∈ (s.flushExpired expiry n).common.primaryIndex.toList,
      ¬ (s.flushExpired expiry n).isExpired expiry r.addr) ↔ Punctual expiry s := by
  fun_induction flushExpired expiry n s with
  | case1 s =>
    apply h.punctual_iff_of_head hflush
    rw [length_eq_zero_iff.mp (Nat.le_zero.mp hn)]
    exact fun a ha => absurd ha (Option.not_mem_none a)
  | case2 n s a e he hhead hlt ih =>
    rw [hhead, Option.bind_some] at he
    rw [← h.punctual_flushEntry_iff hhead (by rwa [isExpired_of_heap he])]
    apply ih (h.flushEntry hhead)
    · rw [(sameSettings_flushEntry s a).flushing]
      exact hflush
    · rw [queue_flushEntry, length_tail]
      omega
  | case3 n s a e he hhead hlt =>
    rw [hhead, Option.bind_some] at he
    apply h.punctual_iff_of_head hflush
    rw [hhead]
    rintro b hb
    rwa [← Option.some.inj hb, isExpired_of_heap he]
  | case4 n s hnone =>
    apply h.punctual_iff_of_head hflush
    intro a ha
    obtain ⟨e, he⟩ := h.queued a (mem_of_head? ha)
    exact absurd (by rw [ha]; exact he) (hnone a e ha)

lemma flush_of_lifetime (hflush : s.flushing) (hlife : s.maxLifetime ≠ .posInfin) (now : ℤ)
    (hs' : s' = s.flushExpired (expiryTime now s.maxLifetime) s.queue.length) :
    s.flush now = if 0 < s'.maxSize then s'.flushOversize s'.queue.length else s' := by
  unfold flush
  rw [if_pos hflush, if_neg hlife, hs']

lemma Ok.not_expired_flush (h : s.Ok S) (hflush : s.flushing) (hlife : s.maxLifetime ≠ .posInfin)
    {now : ℤ} (hp : Punctual (expiryTime now s.maxLifetime) s) :
    ∀ r ∈ (s.flush now).common.primaryIndex.toList,
      ¬ (s.flush now).isExpired (expiryTime now s.maxLifetime) r.addr := by
  obtain ⟨s', hs'⟩ : ∃ s', s' = s.flushExpired (expiryTime now s.maxLifetime) s.queue.length :=
    ⟨_, rfl⟩
  have hok : s'.Ok S := hs' ▸ flushExpired_induction (fun _ _ h hhead => h.flushEntry hhead) _ h
  have hfresh := (h.not_expired_flushExpired_iff hflush le_rfl).mpr hp
  rw [← hs'] at hfresh
  rw [flush_of_lifetime hflush hlife now hs']
  split_ifs
  · obtain ⟨hok'', hle⟩ : (s'.flushOversize s'.queue.length).Ok S ∧
        Shrunk s' (s'.flushOversize s'.queue.length) :=
      flushOversize_induction (P := fun s'' => s''.Ok S ∧ Shrunk s' s'')
        (fun s'' b hs'' hhead =>
          ⟨hs''.1.flushEntry hhead, hs''.2.trans (shrunk_flushEntry s'' b)⟩) _
        ⟨hok, fun _ e he => ⟨e, he, rfl, rfl⟩⟩
    intro r hr hexpired
    obtain ⟨e, he, -⟩ := hok''.linked r hr
    rw [hle.isExpired_eq he] at hexpired
    exact hfresh r (hok.mem_of_shrunk hok'' hle hr) hexpired
  · exact hfresh

/-! ## The last insertion of a tuple -/

/-- The last insertion in the run of a tuple with the primary key and the fields of this one. -/
def lastInsertion (key : Key) (ops : List Op) (u : Tuple) : Option ℤ :=
  ops.foldl (fun last op => match op with
    | .insert clock t => if sameKey key u t ∧ u.compareTo t = .eq then some clock.stamp else last
    | _ => last) none

lemma lastInsertion_insert (key : Key) (ops : List Op) (u t : Tuple) (clock : Clock) :
    lastInsertion key (ops ++ [.insert clock t]) u =
      if sameKey key u t ∧ u.compareTo t = .eq then some clock.stamp
      else lastInsertion key ops u := by
  unfold lastInsertion
  rw [foldl_append, foldl_cons, foldl_nil]

/-- The times of the live entries are those of the last insertions of their tuples. -/
def Stamped (ops : List Op) (s : Table2) : Prop :=
  ∀ r ∈ s.common.primaryIndex.toList, ∀ e, s.heap r.addr = some e →
    lastInsertion s.common.key ops r.tuple = some e.time

variable {ops : List Op}

lemma Stamped.flush (h : s.Ok S) (hst : Stamped ops s) (now : ℤ) : Stamped ops (s.flush now) := by
  intro r hr e' he'
  have hle := shrunk_flush s now
  obtain ⟨e, he, htime, -⟩ := hle _ _ he'
  rw [(sameSettings_flush s now).key, htime]
  exact hst r (h.mem_of_shrunk (h.flush now) hle hr) e he

lemma Stamped.removeTuple (h : s.Ok S) (hst : Stamped ops s) {t : Tuple} (ht : Typed S.cols t)
    {found : Ref} (hfind : s.common.primaryIndex.findKey s.common.key t = some found) :
    Stamped ops (s.removeTuple t found) := by
  obtain ⟨-, hperm⟩ := h.removeTuple ht hfind
  intro r hr e he
  have hne : r.addr ≠ found.addr := (h.common.ne_of_perm hperm hr).1
  have he' : s.heap r.addr = some e := (update_of_ne hne _ _).symm.trans he
  exact hst r (hperm.mem_iff.mpr (mem_cons_of_mem _ hr)) e he'

lemma Stamped.insertTuple (h : s.Ok S) (hst : Stamped ops s) (clock : Clock) {t : Tuple}
    (ht : t ∈ S.tuples)
    (hnew : ∀ r ∈ s.common.primaryIndex.toList, sameKey s.common.key r.tuple t = false) :
    Stamped (ops ++ [.insert clock t]) (s.insertTuple clock.stamp t) := by
  obtain ⟨-, hperm⟩ := h.insertTuple clock.stamp ht hnew
  intro r hr e he
  show lastInsertion s.common.key _ r.tuple = some e.time
  rw [lastInsertion_insert]
  rcases mem_cons.mp (hperm.mem_iff.mp hr) with rfl | hr
  · have hself : sameKey s.common.key t t ∧ t.compareTo t = .eq :=
      ⟨sameKey_refl S.lawful (S.typed t ht) _, (S.typed t ht).compareTo_self S.lawful⟩
    rw [if_pos hself]
    change update s.heap s.nextAddr _ s.nextAddr = some e at he
    rw [update_self, Option.some.injEq] at he
    rw [← he]
  · have hother : ¬ (sameKey s.common.key r.tuple t ∧ r.tuple.compareTo t = .eq) := by
      rintro ⟨hsame, -⟩
      exact Bool.eq_false_iff.mp (hnew r hr) hsame
    rw [if_neg hother]
    exact hst r hr e ((update_of_ne (h.addr_lt hr).ne _ _).symm.trans he)

lemma Stamped.updateTime (h : s.Ok S) (hst : Stamped ops s) (clock : Clock) {t : Tuple}
    (ht : t ∈ S.tuples) {found : Ref} (hfound : found ∈ s.common.primaryIndex.toList)
    (hsame : sameKey s.common.key found.tuple t) (heq : found.tuple.compareTo t = .eq) :
    Stamped (ops ++ [.insert clock t]) (s.updateTime clock.stamp found.addr) := by
  intro r hr e he
  have hr' : r ∈ s.common.primaryIndex.toList := hr
  show lastInsertion s.common.key _ r.tuple = some e.time
  rw [lastInsertion_insert]
  by_cases hrf : r = found
  · obtain ⟨e', he', -⟩ := h.linked found hfound
    rw [hrf, if_pos ⟨hsame, heq⟩]
    change update s.heap found.addr _ r.addr = some e at he
    rw [hrf, update_self, he', Option.map_some, Option.some.injEq] at he
    rw [← he]
  · have hother : ¬ (sameKey s.common.key r.tuple t ∧ r.tuple.compareTo t = .eq) := by
      rintro ⟨hrt, -⟩
      exact hrf (h.common.eq_of_found hr' hfound (S.typed t ht) hrt hsame)
    have hne : r.addr ≠ found.addr := fun haddr => hrf (h.common.eq_of_addr hr' hfound haddr)
    rw [if_neg hother]
    exact hst r hr' e ((update_of_ne hne _ _).symm.trans he)

lemma Stamped.insertFlushed (h : s.Ok S) (hflush : s.flushing) (hst : Stamped ops s)
    (clock : Clock) {t : Tuple} (ht : t ∈ S.tuples) :
    Stamped (ops ++ [.insert clock t]) (s.insertFlushed clock t).2 := by
  rcases h.insertFlushed_cases clock ht with ⟨hnew, hs'⟩ | ⟨found, hfound, hsame, heq, hs'⟩ |
    ⟨found, hfind, -, hs'⟩
  · rw [hs']
    exact (hst.insertTuple h clock ht hnew).flush (h.insertTuple clock.stamp ht hnew).1 clock.last
  · rw [hs', if_pos hflush]
    exact hst.updateTime h clock ht hfound hsame heq
  · rw [hs']
    have hok := (h.removeTuple (S.typed t ht) hfind).1
    have hnew := h.sameKey_removeTuple ht hfind
    exact ((hst.removeTuple h (S.typed t ht) hfind).insertTuple hok clock ht hnew).flush
      (hok.insertTuple clock.stamp ht hnew).1 clock.last

lemma lastInsertion_of_ne_insert {op : Op} (hop : ∀ clock t, op ≠ .insert clock t) (key : Key)
    (u : Tuple) : lastInsertion key (ops ++ [op]) u = lastInsertion key ops u := by
  unfold lastInsertion
  rw [foldl_append, foldl_cons]
  split
  next clock t => exact absurd rfl (hop clock t)
  · rfl

lemma Stamped.step (h : s.Ok S) (hflush : s.flushing) (hst : Stamped ops s) {op : Op}
    (hop : op.Within S) : Stamped (ops ++ [op]) (s.step op) := by
  rcases op.cases with ⟨clock, t, rfl⟩ | ⟨now, t, rfl⟩ | hquiet
  · have hflush' : (s.flush clock.first).flushing := by
      rw [(sameSettings_flush s clock.first).flushing]
      exact hflush
    exact (hst.flush h clock.first).insertFlushed (h.flush clock.first) hflush' clock hop
  · intro r hr e he
    rw [lastInsertion_of_ne_insert fun _ _ => Op.noConfusion]
    have hremove : Stamped ops (s.step (.remove now t)) := by
      simp only [Table2.step, Table2.remove]
      split
      · exact hst.flush h now
      next found hfind => exact (hst.flush h now).removeTuple (h.flush now) hop hfind
    exact hremove r hr e he
  · obtain ⟨s₀, common, hs₀, hstep, hsilent⟩ := s.step_of_isQuiet hquiet
    have hst₀ : Stamped ops s₀ := by
      rcases hs₀ with rfl | ⟨now, rfl⟩
      · exact hst
      · exact hst.flush h now
    have hne : ∀ clock t, op ≠ .insert clock t := by
      rintro clock t rfl
      cases hquiet
    rw [hstep]
    intro r hr e he
    rw [lastInsertion_of_ne_insert hne]
    change r ∈ common.primaryIndex.toList at hr
    rw [hsilent.frame.primaryIndex] at hr
    rw [hsilent.frame.key]
    exact hst₀ r hr e he

lemma Stamped.run {ops' : List Op} (h : s.Ok S) (hflush : s.flushing) (hst : Stamped ops s)
    (hops : AdmissibleRun S s ops') : Stamped (ops ++ ops') (s.run ops') := by
  induction ops' generalizing s ops with
  | nil =>
    rw [append_nil]
    exact hst
  | cons op ops' ih =>
    rw [append_cons]
    apply ih (h.step hops.1) _ (hst.step h hflush hops.1.within) hops.2
    rw [(sameSettings_step s op).flushing]
    exact hflush

/-! ## Queries -/

/-- The clock reading of a call that only flushes and queries. -/
def Op.queryTime : Op → Option ℤ
  | .lookupProjected now _ _ _ | .lookup now _ _ | .scan now | .scanKey now _ | .flush now =>
    some now
  | _ => none

def answer (s : Table2) : Op → List Tuple
  | .lookupProjected now lookupKey indexKey t =>
    (s.lookupProjected now lookupKey indexKey t).1.getD []
  | .lookup now indexKey t => (s.lookup now indexKey t).1.getD []
  | .scan now => (s.scan now).1
  | .scanKey now key => (s.scanKey now key).1.getD []
  | _ => []

lemma Ok.mem_of_answer (h : s.Ok S) {op : Op} {now : ℤ} (hnow : op.queryTime = some now)
    {u : Tuple} (hu : u ∈ s.answer op) :
    ∃ r ∈ (s.flush now).common.primaryIndex.toList, r.tuple = u := by
  have hok := (h.flush now).common
  match op, hnow with
  | .lookupProjected _ _ _ _, rfl => exact hok.mem_of_lookupProjected hu
  | .lookup _ _ _, rfl => exact hok.mem_of_lookup hu
  | .scan _, rfl => exact mem_map.mp hu
  | .scanKey _ _, rfl => exact hok.mem_of_scanKey hu
  | .flush _, rfl => cases hu

/-! ## Runs -/

/-- A query finds no live expired entry behind one that is not expired. -/
def OnTime (s : Table2) (op : Op) : Prop :=
  ∀ now ∈ op.queryTime, Punctual (expiryTime now s.maxLifetime) s

instance (s : Table2) (op : Op) : Decidable (OnTime s op) :=
  inferInstanceAs (Decidable (∀ now ∈ op.queryTime, Punctual (expiryTime now s.maxLifetime) s))

/-- **Expiry is sound where queues are punctual.** In every run of a table with lifetime `L` whose
queries find punctual queues, what a query returns was last inserted at `now - L` or later, and the
`flush` of the query leaves no older entry.
Hyps: `hops` says that every call is admissible and every query on time; `hnow` that the call is a
query or a `flush`, at the reading `now` -/
theorem expiry_sound (S : Schema) (key : Key) (maxSize : ℕ) (L : ℤ) (before after : List Op)
    (op : Op) (now : ℤ) (hnow : op.queryTime = some now)
    (hops : Throughout step (fun s op => Admissible S s op ∧ OnTime s op)
      (mk' key maxSize (.ticks L)) (before ++ op :: after)) :
    (∀ u ∈ ((mk' key maxSize (.ticks L)).run before).answer op,
      ∃ stamp, lastInsertion key before u = some stamp ∧ now - L ≤ stamp) ∧
    (∀ r ∈ (((mk' key maxSize (.ticks L)).run before).flush now).common.primaryIndex.toList,
      ∀ e, (((mk' key maxSize (.ticks L)).run before).flush now).heap r.addr = some e →
        now - L ≤ e.time) := by
  obtain ⟨hbefore, ⟨-, hontime⟩, -⟩ := throughout_append.mp hops
  rw [← run] at hontime
  have hadm : AdmissibleRun S (mk' key maxSize (.ticks L)) before :=
    hbefore.imp fun _ _ => And.left
  have hstart := ok_mk' S key maxSize (.ticks L)
  have hflush : (mk' key maxSize (.ticks L)).flushing := Bool.or_true _
  have hset := sameSettings_run (mk' key maxSize (.ticks L)) before
  have hok := hstart.run hadm
  have hinit : Stamped [] (mk' key maxSize (.ticks L)) := forall_mem_nil _
  have hst : Stamped before ((mk' key maxSize (.ticks L)).run before) :=
    hinit.run hstart hflush hadm
  have hkey : ((mk' key maxSize (.ticks L)).run before).common.key = key := hset.key
  have hlife : ((mk' key maxSize (.ticks L)).run before).maxLifetime = .ticks L := hset.maxLifetime
  have hflush' := hset.flushing.trans hflush
  generalize (mk' key maxSize (.ticks L)).run before = s at *
  have hfresh : ∀ r ∈ (s.flush now).common.primaryIndex.toList, ∀ e,
      (s.flush now).heap r.addr = some e → now - L ≤ e.time := by
    intro r hr e he
    have hne : s.maxLifetime ≠ .posInfin := by
      rw [hlife]
      exact TimeRep.noConfusion
    have hexpired := hok.not_expired_flush hflush' hne (hontime now hnow) r hr
    rw [isExpired_of_heap he, hlife] at hexpired
    exact not_lt.mp fun hlt => hexpired (decide_eq_true hlt)
  refine ⟨fun u hu => ?_, hfresh⟩
  obtain ⟨r, hr, rfl⟩ := hok.mem_of_answer hnow hu
  obtain ⟨e, he, -⟩ := (hok.flush now).linked r hr
  refine ⟨e.time, ?_, hfresh r hr e he⟩
  rw [← hkey, ← (sameSettings_flush s now).key]
  exact (hst.flush hok now) r hr e he

def refreshOps : List Op :=
  [.insert ⟨0, 0, 0⟩ (row 11), .insert ⟨1, 1, 1⟩ (row 21), .insert ⟨9, 9, 9⟩ (row 11)]

lemma within_refreshOps : ∀ op ∈ refreshOps, op.Within rows := by
  simp only [refreshOps, forall_mem_cons, Op.Within, row_mem_rows, true_and]
  exact forall_mem_nil _

theorem expiry_sound_refreshOps :
    ((mk' [0] 0 (.ticks 10)).run refreshOps).answer (.scan 11) = [row 11, row 21] ∧
    ∀ u ∈ ((mk' [0] 0 (.ticks 10)).run refreshOps).answer (.scan 11),
      ∃ stamp, lastInsertion [0] refreshOps u = some stamp ∧ 11 - 10 ≤ stamp := by
  have hadm : AdmissibleRun rows (mk' [0] 0 (.ticks 10)) (refreshOps ++ [.scan 11, .scan 20]) := by
    apply admissibleRun_of_length
    · intro op hop
      rcases mem_append.mp hop with hop | hop
      · exact within_refreshOps op hop
      · simp only [mem_cons, not_mem_nil, or_false] at hop
        rcases hop with rfl | rfl
        · exact trivial
        · exact trivial
    · decide
  have htime : Throughout step OnTime (mk' [0] 0 (.ticks 10)) (refreshOps ++ [.scan 11, .scan 20]) := by
    decide
  exact ⟨rfl, (expiry_sound rows [0] 0 10 refreshOps [.scan 20] (.scan 11) 11 rfl
    (hadm.and htime)).1⟩

def Op.readings : Op → List ℤ
  | .insert clock _ => [clock.first, clock.stamp, clock.last]
  | .remove now _ => [now]
  | op => op.queryTime.toList

/-- At 12 the second row is returned though it was last inserted at 1: the cell at the back of the
queue belongs to the first row, which is not expired, and the loop of `flush` stops there. -/
theorem expired_row_returned :
    (∀ op ∈ refreshOps, op.Within rows) ∧
    ((refreshOps ++ [Op.lookup 12 [0] (row 21)]).flatMap Op.readings).Pairwise (· ≤ ·) ∧
    ∃ u ∈ ((mk' [0] 0 (.ticks 10)).run refreshOps).answer (.lookup 12 [0] (row 21)),
      ∃ stamp, lastInsertion [0] refreshOps u = some stamp ∧ stamp < 12 - 10 := by
  refine ⟨within_refreshOps, by decide, row 21, ?_, 1, rfl, by decide⟩
  exact mem_singleton_self _

end Table2

end P2.Table
