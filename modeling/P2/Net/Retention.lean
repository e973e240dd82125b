import Mathlib.Data.List.Induction
import P2.Lib.KeyedTree
import P2.Lib.Runs
import P2.Net.ODelivery

/-!
# What ordered delivery keeps

A tuple that `ODelivery` takes in goes to the output or waits in the queue of its source
(`accepted_retained`). A tuple with a cumulative number of zero starts the connection of its source
anew, and the queue of the old one is gone with it.
-/

namespace P2.Net.ODelivery

open P2.Value P2.Lib List Option
open Connections (findEntry_iff)

def current (src : Value) (s : ODelivery) : Option Connection :=
  (s.lookup src).bind fun cp => s.objects[cp]?

/-- A tuple, with the fields that `push` reads, that is new to the element: its number was neither
passed on nor is it queued, nor is it below the next number of the connection. -/
structure Accepted (s : ODelivery) (t : List Value) : Prop where
  src : t[SRC]?.isSome
  seq : (int64At SEQ t).isSome
  cum : (int64At CUMSEQ t).isSome
  notDelivered : ∀ u ∈ s.output, compareTo (srcOf u) (srcOf t) = .eq → seqOf u ≠ seqOf t
  notQueued : ∀ c, s.current (srcOf t) = some c → ∀ q ∈ c.queue, seqOf q ≠ seqOf t
  notBelow : ∀ c, s.current (srcOf t) = some c → c.nextSeq ≤ seqOf t

/-- A tuple was pushed to the output, or is in the queue of the current connection of its source. -/
def Retained (s : ODelivery) (t : List Value) : Prop :=
  t ∈ s.output ∨ ∃ c, s.current (srcOf t) = some c ∧ t ∈ c.queue

/-- A tuple whose cumulative number is zero finds no tuple of its source queued. -/
def Calm (s : ODelivery) (t : List Value) : Prop :=
  int64At CUMSEQ t = some 0 → ∀ c, s.current (srcOf t) = some c → c.queue = []

/-! ## One queue -/

section Insert

variable {t q : List Value} {c : Connection}

lemma Connection.mem_insert (hq : q ∈ c.queue) : q ∈ (c.insert t).queue := by
  unfold Connection.insert
  split_ifs with hempty
  · rw [hempty.1] at hq
    cases hq
  · split
    · exact hq
    next queue hplace => exact (Numbered.mem_place hplace q).mpr (Or.inr hq)

lemma Connection.of_mem_insert (hq : q ∈ (c.insert t).queue) : q = t ∨ q ∈ c.queue := by
  unfold Connection.insert at hq
  split_ifs at hq with hempty
  · exact Or.inl (mem_singleton.mp hq)
  · split at hq
    · exact Or.inr hq
    next queue hplace => exact (Numbered.mem_place hplace q).mp hq

lemma Connection.exists_place {queue : List (List Value)} (hnew : ∀ q ∈ queue, seqOf q ≠ seqOf t) :
    ∃ queue', place t queue = some queue' := by
  cases hplace : place t queue with
  | none =>
    obtain ⟨q, hq, heq⟩ := Numbered.exists_of_place_eq_none hplace
    exact absurd heq.symm (hnew q hq)
  | some queue' => exact ⟨queue', rfl⟩

lemma Connection.mem_insert_self (hnew : ∀ q ∈ c.queue, seqOf q ≠ seqOf t) :
    t ∈ (c.insert t).queue := by
  obtain ⟨queue, hplace⟩ := exists_place hnew
  unfold Connection.insert
  split_ifs
  · exact mem_singleton_self t
  · rw [hplace]
    exact (Numbered.mem_place hplace t).mpr (Or.inl rfl)

end Insert

/-! ## Passing tuples on -/

/-- Tuples went from queues to the output, and timers were set for the source of a tuple in the
queue of one connection; the map stayed as it was. -/
structure Passes (cp : ℕ) (s s' : ODelivery) : Prop where
  cmap : s'.cmap = s.cmap
  length : s'.objects.length = s.objects.length
  output : ∀ t ∈ s.output, t ∈ s'.output
  kept : ∀ (i : ℕ) (c : Connection), s.objects[i]? = some c →
    ∃ c' : Connection, s'.objects[i]? = some c' ∧ ∀ q ∈ c.queue, q ∈ c'.queue ∨ q ∈ s'.output
  old : ∀ (i : ℕ) (c' : Connection), s'.objects[i]? = some c' →
    ∃ c : Connection, s.objects[i]? = some c ∧ ∀ q ∈ c'.queue, q ∈ c.queue
  timers : ∀ timer ∈ s'.timers, timer ∈ s.timers ∨
    ∃ c : Connection, s.objects[cp]? = some c ∧ ∃ q ∈ c.queue, timer.2 = srcOf q

section Passes

variable {cp : ℕ} {s s' s'' : ODelivery} {c : Connection}

lemma Passes.refl (cp : ℕ) (s : ODelivery) : Passes cp s s where
  cmap := rfl
  length := rfl
  output _ ht := ht
  kept _ c hc := ⟨c, hc, fun _ hq => Or.inl hq⟩
  old _ c hc := ⟨c, hc, fun _ hq => hq⟩
  timers _ htimer := Or.inl htimer

lemma Passes.trans (h : Passes cp s s') (h' : Passes cp s' s'') : Passes cp s s'' where
  cmap := h'.cmap.trans h.cmap
  length := h'.length.trans h.length
  output t ht := h'.output t (h.output t ht)
  kept i c hc := by
    obtain ⟨c', hc', hkept⟩ := h.kept i c hc
    obtain ⟨c'', hc'', hkept'⟩ := h'.kept i c' hc'
    refine ⟨c'', hc'', fun q hq => ?_⟩
    rcases hkept q hq with hq | hq
    · exact hkept' q hq
    · exact Or.inr (h'.output q hq)
  old i c'' hc'' := by
    obtain ⟨c', hc', hold'⟩ := h'.old i c'' hc''
    obtain ⟨c, hc, hold⟩ := h.old i c' hc'
    exact ⟨c, hc, fun q hq => hold q (hold' q hq)⟩
  timers timer htimer := by
    rcases h'.timers timer htimer with htimer | ⟨c', hc', q, hq, heq⟩
    · exact h.timers timer htimer
    · obtain ⟨c, hc, hold⟩ := h.old cp c' hc'
      exact Or.inr ⟨c, hc, q, hold q hq, heq⟩

lemma passes_set (hc : s.objects[cp]? = some c) {c' : Connection}
    (hcmap : s'.cmap = s.cmap) (hobjects : s'.objects = s.objects.set cp c')
    (houtput : ∀ t ∈ s.output, t ∈ s'.output)
    (hkept : ∀ q ∈ c.queue, q ∈ c'.queue ∨ q ∈ s'.output) (hold : ∀ q ∈ c'.queue, q ∈ c.queue)
    (htimers : ∀ timer ∈ s'.timers, timer ∈ s.timers ∨ ∃ q ∈ c.queue, timer.2 = srcOf q) :
    Passes cp s s' := by
  have hlt : cp < s.objects.length := (List.getElem?_eq_some_iff.mp hc).1
  have hat : ∀ i, s'.objects[i]? = if cp = i then some c' else s.objects[i]? := by
    intro i
    rw [hobjects, List.getElem?_set]
    simp [hlt]
  refine ⟨hcmap, by rw [hobjects, length_set], houtput, ?_, ?_, ?_⟩
  · intro i d hd
    rw [hat i]
    by_cases hi : cp = i
    · rw [← hi, hc] at hd
      obtain rfl := some.inj hd
      exact ⟨c', if_pos hi, hkept⟩
    · exact ⟨d, by rw [if_neg hi, hd], fun q hq => Or.inl hq⟩
  · intro i d hd
    rw [hat i] at hd
    by_cases hi : cp = i
    · rw [if_pos hi, some.injEq] at hd
      exact ⟨c, hi ▸ hc, hd ▸ hold⟩
    · rw [if_neg hi] at hd
      exact ⟨d, hd, fun q hq => hq⟩
  · intro timer htimer
    rcases htimers timer htimer with htimer | ⟨q, hq, heq⟩
    · exact Or.inl htimer
    · exact Or.inr ⟨c, hc, q, hq, heq⟩

lemma passes_flushRounds (n cp : ℕ) (s : ODelivery) : Passes cp s (flushRounds n cp s) := by
  fun_induction flushRounds n cp s with
  | case4 n cp s c hc tpl queue hqueue _ _ ih =>
    -- the front of the queue goes to the output
    have hfront : Passes cp s (s.deliver cp c tpl queue) := by
      refine passes_set hc rfl rfl ?_ ?_ ?_ ?_
      · exact fun t ht => mem_append_left _ ht
      · intro q hq
        rw [hqueue] at hq
        rcases mem_cons.mp hq with rfl | hq
        · exact Or.inr (mem_append_right _ (mem_singleton_self q))
        · exact Or.inl hq
      · exact fun q hq => hqueue ▸ mem_cons_of_mem tpl hq
      · exact fun timer htimer => Or.inl (mem_of_mem_filter htimer)
    exact hfront.trans ih
  | case5 n cp s c hc tpl queue hqueue =>
    -- the first tuple has to wait, with a timer for its source
    refine passes_set hc rfl rfl (fun t ht => ht) (fun q hq => Or.inl hq)
      (fun q hq => hq) fun timer htimer => ?_
    rcases mem_append.mp htimer with htimer | htimer
    · exact Or.inl htimer
    · rw [mem_singleton.mp htimer]
      exact Or.inr ⟨tpl, hqueue ▸ mem_cons_self, rfl⟩
  | _ => exact Passes.refl _ _

lemma passes_flush (cp : ℕ) (s : ODelivery) : Passes cp s (s.flush cp) := passes_flushRounds _ cp s

lemma Passes.current (h : Passes cp s s') {src : Value} (hc : s.current src = some c) :
    ∃ c', s'.current src = some c' ∧ ∀ q ∈ c.queue, q ∈ c'.queue ∨ q ∈ s'.output := by
  obtain ⟨i, hi, hget⟩ := bind_eq_some_iff.mp hc
  obtain ⟨c', hc', hkept⟩ := h.kept i c hget
  refine ⟨c', ?_, hkept⟩
  have hlookup : s'.lookup src = s.lookup src := by
    unfold Connections.lookup Connections.findEntry
    rw [h.cmap]
  unfold ODelivery.current
  rw [hlookup, hi]
  exact hc'

lemma Passes.retained (h : Passes cp s s') {t : List Value} (ht : Retained s t) :
    Retained s' t := by
  rcases ht with ht | ⟨c, hc, ht⟩
  · exact Or.inl (h.output t ht)
  · obtain ⟨c', hc', hkept⟩ := h.current hc
    rcases hkept t ht with ht | ht
    · exact Or.inr ⟨c', hc', ht⟩
    · exact Or.inl ht

end Passes

/-! ## The map -/

/-- The map is a map of sources, its objects exist, and the tuples they queue and the timers
that are set are of sources in it. -/
structure Mapping (S : Set Value) (s : ODelivery) : Prop where
  tree : s.cmap.Proper comparator S
  object : ∀ e ∈ s.cmap.toList, e.2 < s.objects.length
  queued : ∀ e ∈ s.cmap.toList, ∀ c : Connection, s.objects[e.2]? = some c → ∀ q ∈ c.queue,
    Mapped S s.cmap (srcOf q)
  timers : ∀ timer ∈ s.timers, Mapped S s.cmap timer.2

section Mapping

variable {S : Set Value} (hS : LawfulOn S) {s s' : ODelivery} {e : Value × ℕ} {c : Connection}
  {src : Value} {t u : List Value}

lemma Mapping.passes (h : Mapping S s) (he : e ∈ s.cmap.toList) (hpass : Passes e.2 s s') :
    Mapping S s' := by
  constructor
  · rw [hpass.cmap]
    exact h.tree
  · rw [hpass.cmap, hpass.length]
    exact h.object
  · intro a ha c' hc' q hq
    rw [hpass.cmap] at ha ⊢
    obtain ⟨c, hc, hold⟩ := hpass.old a.2 c' hc'
    exact h.queued a ha c hc q (hold q hq)
  · intro timer htimer
    rw [hpass.cmap]
    rcases hpass.timers timer htimer with htimer | ⟨c, hc, q, hq, heq⟩
    · exact h.timers timer htimer
    · rw [heq]
      exact h.queued e he c hc q hq

include hS

lemma current_iff (htree : s.cmap.Proper comparator S) (hsrc : src ∈ S) :
    s.current src = some c ↔
      ∃ e ∈ s.cmap.toList, compareTo src e.1 = .eq ∧ s.objects[e.2]? = some c := by
  unfold current Connections.lookup
  rw [bind_eq_some_iff]
  constructor
  · rintro ⟨i, hi, hc⟩
    obtain ⟨e, he, rfl⟩ := map_eq_some_iff.mp hi
    obtain ⟨hmem, heq⟩ := (findEntry_iff hS htree hsrc).mp he
    exact ⟨e, hmem, heq, hc⟩
  · rintro ⟨e, hmem, heq, hc⟩
    exact ⟨e.2, by rw [(findEntry_iff hS htree hsrc).mpr ⟨hmem, heq⟩]; rfl, hc⟩

/-! ## The events -/

lemma Mapping.opened (h : Mapping S s) (hsrc : src ∈ S) {c : Connection}
    (hqueue : ∀ q ∈ c.queue, srcOf q = src) : Mapping S (s.opened src c) := by
  obtain ⟨hproper, hmem⟩ := cmap_opened hS h.tree hsrc c
  obtain ⟨hobjects, -, htimers⟩ := opened_fields src c s
  have hmapped : ∀ v, Mapped S s.cmap v → Mapped S (s.opened src c).cmap v := fun v hv =>
    mapped_of_mem hS hsrc h.tree.keys hmem hv
  refine ⟨hproper, fun a ha => ?_, fun a ha d hd q hq => ?_, fun timer htimer => ?_⟩
  · rw [hobjects, length_append]
    rcases (hmem a).mp ha with rfl | ⟨ha, -⟩
    · exact Nat.lt_succ_self _
    · exact Nat.lt_succ_of_lt (h.object a ha)
  · rw [hobjects] at hd
    rcases (hmem a).mp ha with rfl | ⟨hold, -⟩
    · rw [List.getElem?_concat_length] at hd
      obtain rfl := some.inj hd
      rw [hqueue q hq]
      exact ⟨hsrc, _, (hmem _).mpr (Or.inl rfl), hS.refl src hsrc⟩
    · rw [List.getElem?_append_left (h.object a hold)] at hd
      exact hmapped _ (h.queued a hold d hd q hq)
  · rw [htimers] at htimer
    exact hmapped _ (h.timers timer htimer)

lemma Mapping.retained_opened (h : Mapping S s) (hsrc : src ∈ S) (c : Connection)
    (hempty : ∀ d, s.current src = some d → d.queue = []) (hu : srcOf u ∈ S) (hkept : Retained s u) :
    Retained (s.opened src c) u := by
  obtain ⟨hproper, hmem⟩ := cmap_opened hS h.tree hsrc c
  obtain ⟨hobjects, houtput, -⟩ := opened_fields src c s
  rcases hkept with hout | ⟨d, hd, hqueued⟩
  · exact Or.inl (houtput ▸ hout)
  · obtain ⟨e, he, heq, hget⟩ := (current_iff hS h.tree hu).mp hd
    refine Or.inr ⟨d, (current_iff hS hproper hu).mpr ⟨e, (hmem e).mpr (Or.inr ⟨he, ?_⟩), heq, ?_⟩,
      hqueued⟩
    · intro hsame
      rw [hempty d ((current_iff hS h.tree hsrc).mpr ⟨e, he, hsame, hget⟩)] at hqueued
      cases hqueued
    · rw [hobjects, List.getElem?_append_left (h.object e he), hget]

lemma Mapping.retained_opened_self (h : Mapping S s) (hsrc : srcOf t ∈ S) {c : Connection}
    (ht : t ∈ c.queue) : Retained (s.opened (srcOf t) c) t := by
  obtain ⟨hproper, hmem⟩ := cmap_opened hS h.tree hsrc c
  refine Or.inr ⟨c, (current_iff hS hproper hsrc).mpr ⟨_, (hmem _).mpr (Or.inl rfl),
    hS.refl _ hsrc, ?_⟩, ht⟩
  rw [(opened_fields (srcOf t) c s).1, List.getElem?_concat_length]

omit hS in
lemma Mapping.setConnection (h : Mapping S s) (hc : s.objects[e.2]? = some c)
    {c' : Connection} (hnew : ∀ q ∈ c'.queue, q ∈ c.queue ∨ Mapped S s.cmap (srcOf q)) :
    Mapping S (s.setConnection e.2 c') := by
  refine ⟨h.tree, fun a ha => ?_, fun a ha d hd q hq => ?_, h.timers⟩
  · show a.2 < (s.objects.set e.2 c').length
    rw [length_set]
    exact h.object a ha
  · have hlt := (List.getElem?_eq_some_iff.mp hc).1
    have hd' : (s.objects.set e.2 c')[a.2]? = some d := hd
    by_cases hae : a.2 = e.2
    · rw [hae, List.getElem?_set_self hlt, some.injEq] at hd'
      subst hd'
      rcases hnew q hq with hold | hmapped
      · exact h.queued a ha c (by rw [hae, hc]) q hold
      · exact hmapped
    · rw [List.getElem?_set_ne (Ne.symm hae)] at hd'
      exact h.queued a ha d hd' q hq

omit hS in
lemma Retained.setConnection (hu : Retained s u) {cp : ℕ} (hc : s.objects[cp]? = some c)
    {c' : Connection} (hgrows : ∀ q ∈ c.queue, q ∈ c'.queue) :
    Retained (s.setConnection cp c') u := by
  have hlt := (List.getElem?_eq_some_iff.mp hc).1
  rcases hu with hout | ⟨d, hd, hqueued⟩
  · exact Or.inl hout
  · obtain ⟨i, hi, hget⟩ := bind_eq_some_iff.mp hd
    have hcurrent : ∀ d', (s.objects.set cp c')[i]? = some d' →
        (s.setConnection cp c').current (srcOf u) = some d' := by
      intro d' hd'
      exact bind_eq_some_iff.mpr ⟨i, hi, hd'⟩
    by_cases hic : cp = i
    · subst hic
      obtain rfl := some.inj (hc.symm.trans hget)
      exact Or.inr ⟨c', hcurrent c' (List.getElem?_set_self hlt), hgrows u hqueued⟩
    · refine Or.inr ⟨d, hcurrent d ?_, hqueued⟩
      rw [List.getElem?_set_ne hic, hget]

lemma mapping_push (h : Mapping S s) (now : ℤ) (hsrcS : ∀ src, t[SRC]? = some src → src ∈ S)
    (hcalm : Calm s t) :
    Mapping S (s.push now t) ∧ (∀ u, srcOf u ∈ S → Retained s u → Retained (s.push now t) u) ∧
      (Accepted s t → Retained (s.push now t) t) := by
  rcases push_cases hS h.tree h.object now hsrcS with ⟨hunread, hpush⟩ | ⟨hS', -,
    ⟨e, he, c, heq, hc, ⟨hbelow, hpush⟩ | ⟨-, hpush⟩⟩ | ⟨hanew, c, hqueue, hpush⟩⟩
  · rw [hpush]
    refine ⟨h, fun u _ hu => hu, fun haccepted => ?_⟩
    exact absurd ⟨haccepted.src, haccepted.seq, haccepted.cum⟩ hunread
  · rw [hpush]
    refine ⟨h, fun u _ hu => hu, fun haccepted => ?_⟩
    have hcurrent := (current_iff hS h.tree hS').mpr ⟨e, he, heq, hc⟩
    exact absurd hbelow (Int64.not_lt.mpr (haccepted.notBelow c hcurrent))
  · -- the tuple goes into the queue of the connection that is there
    have hinsert : Mapping S (s.setConnection e.2
        (Connection.insert t { c with lastTouched := now })) := by
      refine h.setConnection hc fun q hq => ?_
      rcases Connection.of_mem_insert hq with rfl | hold
      · exact Or.inr ⟨hS', e, he, heq⟩
      · exact Or.inl hold
    have hpass := passes_flush e.2 (s.setConnection e.2
      (Connection.insert t { c with lastTouched := now }))
    rw [hpush]
    refine ⟨hinsert.passes he hpass, fun u _ hu => hpass.retained ?_, fun haccepted =>
      hpass.retained ?_⟩
    · exact hu.setConnection hc fun q hq => Connection.mem_insert hq
    · have hlt := (List.getElem?_eq_some_iff.mp hc).1
      have hcurrent := (current_iff hS h.tree hS').mpr ⟨e, he, heq, hc⟩
      refine Or.inr ⟨_, (current_iff hS hinsert.tree hS').mpr
        ⟨e, he, heq, List.getElem?_set_self hlt⟩, Connection.mem_insert_self ?_⟩
      exact haccepted.notQueued c hcurrent
  · -- the tuple is the first of a connection
    have hfirst : ∀ q ∈ (c.insert t).queue, srcOf q = srcOf t := by
      intro q hq
      rcases Connection.of_mem_insert hq with rfl | hq
      · rfl
      · rw [hqueue] at hq
        cases hq
    have hself : t ∈ (c.insert t).queue := Connection.mem_insert_self fun q hq => by
      rw [hqueue] at hq
      cases hq
    have hempty : ∀ d, s.current (srcOf t) = some d → d.queue = [] := by
      intro d hd
      rcases hanew with hzero | hnone
      · exact hcalm hzero d hd
      · unfold current Connections.lookup at hd
        rw [hnone] at hd
        cases hd
    have hmem := ((cmap_opened hS h.tree hS' (c.insert t)).2 (srcOf t, s.objects.length)).mpr
      (Or.inl rfl)
    have hpass := passes_flush s.objects.length (s.opened (srcOf t) (c.insert t))
    rw [hpush]
    refine ⟨(h.opened hS hS' hfirst).passes hmem hpass, fun u hu hkept => hpass.retained ?_,
      fun _ => hpass.retained ?_⟩
    · exact h.retained_opened hS hS' _ hempty hu hkept
    · exact h.retained_opened_self hS hS' hself

omit hS in
lemma mapping_outCb (h : Mapping S s) :
    Mapping S s.outCb ∧ ∀ u, Retained s u → Retained s.outCb u := by
  refine outCb_induction (P := fun s' => Mapping S s' ∧ ∀ u, Retained s u → Retained s' u)
    ⟨⟨h.tree, h.object, h.queued, h.timers⟩, fun u hu => hu⟩ ?_
  rintro s' hcmap ⟨hmapping, hkept⟩ e he
  have hpass := passes_flush e.2 s'
  exact ⟨hmapping.passes (hcmap ▸ he) hpass, fun u hu => hpass.retained (hkept u hu)⟩

lemma mapping_flushConnectionQ (h : Mapping S s) (now : ℤ) (hsrc : Mapped S s.cmap src) :
    ∃ s', s.flushConnectionQ now src = some s' ∧ Mapping S s' ∧
      ∀ u, Retained s u → Retained s' u := by
  obtain ⟨hsrcS, e, he, heq⟩ := hsrc
  have hlookup : s.lookup src = some e.2 := by
    unfold Connections.lookup
    rw [(findEntry_iff hS h.tree hsrcS).mpr ⟨he, heq⟩]
    rfl
  obtain ⟨c, hc⟩ : ∃ c, s.objects[e.2]? = some c :=
    ⟨_, List.getElem?_eq_getElem (h.object e he)⟩
  -- what only passes tuples on goes through to the end
  have hend : ∀ s' : ODelivery, Passes e.2 s s' →
      ∃ s'', ((s'.objects[e.2]?).bind fun c => pure
        (if c.queue = [] ∧ CONNECTION_TIMEOUT < c.touchDuration now then s'.unmap src else s')) =
          some s'' ∧ Mapping S s'' ∧ ∀ u, Retained s u → Retained s'' u := by
    intro s' hpass
    obtain ⟨c', hc', -⟩ := hpass.kept e.2 c hc
    refine ⟨s', ?_, h.passes he hpass, fun u hu => hpass.retained hu⟩
    rw [hc', bind_some, if_neg fun hdead => Connection.touchDuration_lt now c' hdead.2]
    rfl
  have hset : ∀ c' : Connection, c'.queue = c.queue → Passes e.2 s (s.setConnection e.2 c') := by
    intro c' hqueue
    refine passes_set hc rfl rfl (fun t ht => ht) (fun q hq => ?_) (fun q hq => ?_)
      fun timer htimer => Or.inl htimer
    · exact Or.inl (hqueue ▸ hq)
    · exact hqueue ▸ hq
  unfold flushConnectionQ
  simp only [hlookup, hc, bind_eq_bind, bind_some]
  split
  next t _ =>
    apply hend
    have hskip := hset { c with tcb := none, nextSeq := seqOf t + 1 } rfl
    exact hskip.trans (passes_flush e.2 _)
  · apply hend
    exact hset _ rfl

end Mapping

/-! ## Runs -/

/-- All arrivals of a run are calm. -/
def AllCalm (answers : List Bool) (events : List Event) : Prop :=
  Permitted step (fun s e => ∀ now t, e = .push now t → Calm s t) { answers := answers } events

section Runs

variable {S : Set Value}

lemma mapping_empty (S : Set Value) (answers : List Bool) : Mapping S { answers := answers } where
  tree := SearchTree.proper_nil
  object := nofun
  queued := nofun
  timers := nofun

lemma mapping_step (hS : LawfulOn S) {s : ODelivery} (h : Mapping S s) (event : Event)
    (hsrc : ∀ now t, event = .push now t → ∀ src, t[SRC]? = some src → src ∈ S)
    (hcalm : ∀ now t, event = .push now t → Calm s t) :
    ∃ s', s.step event = some s' ∧ Mapping S s' ∧
      (∀ u, srcOf u ∈ S → Retained s u → Retained s' u) ∧
      ∀ now t, event = .push now t → Accepted s t → Retained s' t := by
  rcases event with ⟨now, t⟩ | _ | ⟨now, handle⟩
  · obtain ⟨hmapping, hkept, hnew⟩ := mapping_push hS h now (hsrc now t rfl) (hcalm now t rfl)
    refine ⟨_, rfl, hmapping, hkept, ?_⟩
    rintro now' t' ⟨⟩
    exact hnew
  · obtain ⟨hmapping, hkept⟩ := mapping_outCb h
    exact ⟨_, rfl, hmapping, fun u _ => hkept u, nofun⟩
  · unfold ODelivery.step
    rcases hfind : s.timers.find? (·.1 = handle) with _ | timer
    · exact ⟨s, by simp only [hfind], h, fun u _ hu => hu, nofun⟩
    · simp only [hfind]
      have hmapped := h.timers timer (List.mem_of_find?_eq_some hfind)
      have hrest : Mapping S { s with timers := s.timers.filter fun timer => timer.1 ≠ handle } :=
        ⟨h.tree, h.object, h.queued, fun timer htimer =>
          h.timers timer (mem_of_mem_filter htimer)⟩
      obtain ⟨s', hs', hmapping, hkept⟩ := mapping_flushConnectionQ hS hrest now hmapped
      exact ⟨s', hs', hmapping, fun u _ hu => hkept u hu, nofun⟩

/-- **Ordered delivery loses nothing it accepted**, when every tuple with a cumulative number of
zero arrives at an empty queue: in every run of arrivals, unblockings and timers, whatever the
output answers, no pointer is null, and each tuple that was new when it was pushed is in the output
or in the queue of the current connection of its source.
Hyps: `LawfulOn` on the sources; `AllCalm` on the run -/
theorem accepted_retained (hS : LawfulOn S) {events : List Event}
    (hsrc : ∀ now t, Event.push now t ∈ events → ∀ src, t[SRC]? = some src → src ∈ S)
    {answers : List Bool} (hcalm : AllCalm answers events) :
    ∃ s, run { answers := answers } events = some s ∧
      ∀ before now t after s₀, events = before ++ .push now t :: after →
        run { answers := answers } before = some s₀ → Accepted s₀ t → Retained s t := by
  have hsources : ∀ e ∈ events, ∀ now t, e = .push now t → ∀ src, t[SRC]? = some src → src ∈ S :=
    fun e he now t heq => hsrc now t (heq ▸ he)
  -- the last event comes on top of a run that has kept everything so far
  refine ((hcalm.and_mem hsources).run_events
    (fun events s => run { answers := answers } events = some s ∧ Mapping S s ∧
      (∀ now t, Event.push now t ∈ events → ∀ src, t[SRC]? = some src → src ∈ S) ∧
      ∀ before now t after s₀, events = before ++ .push now t :: after →
        run { answers := answers } before = some s₀ → Accepted s₀ t → Retained s t)
    ?_ ⟨rfl, mapping_empty S answers, by simp, by simp⟩).imp fun s h => ⟨h.1, h.2.2.2.2⟩
  rintro events s e ⟨hs, hmapping, hpast, hkept⟩ ⟨hcalm, hsrc⟩
  obtain ⟨s', hs', hmapping', hkept', hnew⟩ := mapping_step hS hmapping e hsrc hcalm
  refine ⟨s', hs', ?_, hmapping', fun now t hmem => ?_,
    fun before now t after s₀ hsplit hs₀ haccepted => ?_⟩
  · unfold run at hs ⊢
    rw [foldlM_append, hs]
    simpa using hs'
  · rcases mem_append.mp hmem with hmem | hmem
    · exact hpast now t hmem
    · exact hsrc now t (mem_singleton.mp hmem).symm
  · rcases concat_eq_iff.mp hsplit with ⟨-, rfl, rfl⟩ | ⟨since, -, rfl⟩
    · obtain rfl := some.inj (hs.symm.trans hs₀)
      exact hnew now t rfl haccepted
    · refine hkept' t ?_ (hkept before now t since s₀ rfl hs₀ haccepted)
      obtain ⟨src, hread⟩ := isSome_iff_exists.mp haccepted.src
      rw [srcOf, hread]
      exact hpast now t (mem_append_right _ mem_cons_self) src hread

end Runs

/-- A tuple of the source `a` with a round trip time of one second, as the sender numbers it. -/
def numberedBy (cum seq : Int64) : List Value :=
  [.str [98], .str [97], .double ⟨0x3FF0000000000000⟩, .null, .null, .null, .int64 cum, .int64 seq,
    .int64 5]

lemma allCalm_acknowledged :
    AllCalm [] [.push 0 (numberedBy 0 1), .timer 1 0, .push 2 (numberedBy 2 3)] := by
  refine permitted_cons ?_ rfl (permitted_cons nofun rfl (permitted_cons ?_ rfl trivial))
  · rintro now t ⟨⟩ _ c hc
    exact absurd hc (by simp [current, Connections.lookup, Connections.findEntry, SearchTree.find])
  · rintro now t ⟨⟩ hzero
    exact absurd (some.inj hzero) (by decide)

theorem accepted_retained_acknowledged :
    ∃ s, run { answers := [] } [.push 0 (numberedBy 0 1), .timer 1 0, .push 2 (numberedBy 2 3)] =
        some s ∧
      ∀ before now t after s₀,
        [.push 0 (numberedBy 0 1), .timer 1 0, .push 2 (numberedBy 2 3)] =
          before ++ Event.push now t :: after →
        run { answers := [] } before = some s₀ → Accepted s₀ t → Retained s t := by
  refine accepted_retained lawfulOn_str (fun now t hmem src hsrc => ?_) allCalm_acknowledged
  simp only [mem_cons, Event.push.injEq, reduceCtorEq, not_mem_nil, false_or,
    or_false] at hmem
  rcases hmem with ⟨-, rfl⟩ | ⟨-, rfl⟩
  · exact ⟨[97], some.inj hsrc⟩
  · exact ⟨[97], some.inj hsrc⟩

/-- **A tuple is lost.** Two tuples arrive before the sender has seen an acknowledgement, so both
have a cumulative number of zero. The first waits in the queue, as the next number is zero; the
second makes the connection anew, and the queue is gone. -/
theorem accepted_lost :
    Accepted {} (numberedBy 0 1) ∧
      ∃ s, run {} [.push 0 (numberedBy 0 1), .push 1 (numberedBy 0 2)] = some s ∧
        ¬ Retained s (numberedBy 0 1) := by
  have hnone : current (srcOf (numberedBy 0 1)) {} = none := rfl
  have hrun : (run {} [.push 0 (numberedBy 0 1), .push 1 (numberedBy 0 2)]).map
      (fun s => (s.output, (s.current (.str [97])).map (·.queue))) =
        some ([], some [numberedBy 0 2]) := rfl
  obtain ⟨s, hs, hstate⟩ := map_eq_some_iff.mp hrun
  obtain ⟨houtput, hcurrent⟩ := Prod.mk.inj hstate
  refine ⟨⟨rfl, rfl, rfl, forall_mem_nil _, ?_, ?_⟩, s, hs, ?_⟩
  · intro c hc
    exact absurd hc.symm (some_ne_none c)
  · intro c hc
    rw [hnone] at hc
    exact absurd hc.symm (some_ne_none c)
  · rintro (hout | ⟨c, hc, hqueued⟩)
    · rw [houtput] at hout
      exact absurd hout not_mem_nil
    · have hc' : s.current (.str [97]) = some c := hc
      rw [hc', map_some, some.injEq] at hcurrent
      rw [hcurrent, mem_singleton] at hqueued
      simp [numberedBy] at hqueued

end P2.Net.ODelivery
