import P2.Net.CCT
import P2.Net.ODelivery
import Mathlib.Data.List.Nodup

/-!
# The congestion window and the tuples in flight

`CCT` compares its window with the number of destinations in its map. That is the number of tuples
in flight as long as no destination has two: `window_bounds`.
-/

namespace P2.Net.CCT

open P2.Value P2.Lib List Option

/-- The map holds the tuples in flight, one for each destination; timers are set for tuples in
flight only. -/
structure Tracks (S : Set Value) (s : CCT) (flights : List Flight) : Prop where
  tree : s.tmap.Proper comparator S
  apart : (s.tmap.toList.map (·.2)).Nodup
  entries : (s.tmap.toList.map fun e => (e.1, s.maps[e.2]?)).Perm
    (flights.map fun f => (f.dest, some [(f.seq, f.otp)]))
  nodup : (flights.map (·.otp)).Nodup
  tuples : ∀ f ∈ flights, ∃ t, s.tuples[f.otp]? = some t ∧ t.dest = f.dest ∧ t.seq = f.seq ∧
    (f.otp ∈ s.timers → t.tcb = true)
  timers : ∀ otp ∈ s.timers, ∃ f ∈ flights, f.otp = otp

variable {S : Set Value} {s s' : CCT} {flights : List Flight} {f g : Flight} {e : Value × ℕ}
  {dest : Value} {seq : Int64}

/-! ## Entries and tuples -/

lemma Tracks.exists_flight (h : Tracks S s flights) (he : e ∈ s.tmap.toList) :
    ∃ f ∈ flights, f.dest = e.1 ∧ s.maps[e.2]? = some [(f.seq, f.otp)] := by
  have hmem := h.entries.mem_iff.mp (mem_map_of_mem (f := fun e => (e.1, s.maps[e.2]?)) he)
  obtain ⟨f, hf, heq⟩ := mem_map.mp hmem
  exact ⟨f, hf, congrArg Prod.fst heq, (congrArg Prod.snd heq).symm⟩

lemma Tracks.exists_entry (h : Tracks S s flights) (hf : f ∈ flights) :
    ∃ e ∈ s.tmap.toList, e.1 = f.dest ∧ s.maps[e.2]? = some [(f.seq, f.otp)] := by
  have hmem := h.entries.mem_iff.mpr
    (mem_map_of_mem (f := fun f : Flight => (f.dest, some [(f.seq, f.otp)])) hf)
  obtain ⟨e, he, heq⟩ := mem_map.mp hmem
  exact ⟨e, he, congrArg Prod.fst heq, congrArg Prod.snd heq⟩

lemma Tracks.eq_of_otp (h : Tracks S s flights) (hf : f ∈ flights) (hg : g ∈ flights)
    (heq : f.otp = g.otp) : f = g :=
  inj_on_of_nodup_map h.nodup hf hg heq

lemma Tracks.currentWindow (h : Tracks S s flights) : s.currentWindow = flights.length := by
  have hlength := h.entries.length_eq
  rw [length_map, length_map] at hlength
  unfold CCT.currentWindow
  rw [← SearchTree.length_toList, hlength]

lemma Tracks.congr (h : Tracks S s flights) (htmap : s'.tmap = s.tmap) (hmaps : s'.maps = s.maps)
    (htuples : s'.tuples = s.tuples) (htimers : s'.timers = s.timers) : Tracks S s' flights := by
  obtain ⟨htree, hapart, hentries, hnodup, hobjects, hset⟩ := h
  constructor
  · rwa [htmap]
  · rwa [htmap]
  · rwa [htmap, hmaps]
  · exact hnodup
  · rwa [htuples, htimers]
  · rwa [htimers]

section Lawful

variable (hS : LawfulOn S)

include hS

lemma Tracks.of_findKeyed (h : Tracks S s flights) (hdest : dest ∈ S)
    (hfind : s.tmap.findKeyed comparator dest = some e) :
    e ∈ s.tmap.toList ∧ compareTo e.1 dest = .eq := by
  obtain ⟨he, hlt, hgt⟩ := h.tree.of_findKeyed hS.strictWeak hdest hfind
  refine ⟨he, (hS.eq_iff_not_comparator (h.tree.keys e he) hdest).mp ?_⟩
  rw [hlt, hgt]
  rfl

lemma Tracks.ne_of_findKeyed (h : Tracks S s flights) (hdest : dest ∈ S)
    (hfind : s.tmap.findKeyed comparator dest = none) (hf : f ∈ flights) :
    compareTo f.dest dest ≠ .eq := by
  obtain ⟨e, he, heq, -⟩ := h.exists_entry hf
  rw [← heq, ne_eq, ← hS.eq_iff_not_comparator (h.tree.keys e he) hdest]
  rcases h.tree.findKeyed_eq_none hS.strictWeak hdest hfind he with hlt | hlt
  · simp [hlt]
  · simp [hlt]

lemma Tracks.eq_of_dest (h : Tracks S s flights) (hf : f ∈ flights) (hg : g ∈ flights)
    (heq : compareTo f.dest g.dest = .eq) : f = g := by
  obtain ⟨a, ha, haf, hamap⟩ := h.exists_entry hf
  obtain ⟨b, hb, hbg, hbmap⟩ := h.exists_entry hg
  rw [← haf, ← hbg, ← hS.eq_iff_not_comparator (h.tree.keys a ha) (h.tree.keys b hb),
    Bool.and_eq_true, Bool.not_eq_true', Bool.not_eq_true'] at heq
  have hab := h.tree.eq_of_equivalent ha hb heq.1 heq.2
  rw [hab, hbmap] at hamap
  have hotp : g.otp = f.otp := by
    simp only [some.injEq, List.cons.injEq, Prod.mk.injEq] at hamap
    exact hamap.1.2
  exact h.eq_of_otp hf hg hotp.symm

omit hS in
lemma Tracks.dest_mem (h : Tracks S s flights) (hf : f ∈ flights) : f.dest ∈ S := by
  obtain ⟨e, he, heq, -⟩ := h.exists_entry hf
  exact heq ▸ h.tree.keys e he

lemma Tracks.dest_iff (h : Tracks S s flights) (hdest : dest ∈ S) (hf : f ∈ flights)
    (heq : compareTo f.dest dest = .eq) (hg : g ∈ flights) :
    compareTo g.dest dest = .eq ↔ g.otp = f.otp := by
  have hfS := h.dest_mem hf
  constructor
  · intro hgdest
    have hgf := hS.eq_trans (h.dest_mem hg) hdest hfS hgdest (hS.eq_symm hfS hdest heq)
    rw [h.eq_of_dest hS hg hf hgf]
  · intro hotp
    rw [h.eq_of_otp hg hf hotp]
    exact heq

lemma Tracks.filter_eq (h : Tracks S s flights) (hdest : dest ∈ S) (hf : f ∈ flights)
    (heq : compareTo f.dest dest = .eq) :
    flights.filter (fun g => ¬ (compareTo g.dest dest = .eq ∧ g.seq = f.seq)) =
      flights.filter (·.otp ≠ f.otp) := by
  refine filter_congr fun g hg => ?_
  rw [decide_eq_decide, h.dest_iff hS hdest hf heq hg, not_iff_not, and_iff_left_of_imp]
  intro hotp
  rw [h.eq_of_otp hg hf hotp]

/-! ## Releases -/

lemma Tracks.map (h : Tracks S s flights) (hdest : dest ∈ S)
    (hnone : ∀ f ∈ flights, compareTo f.dest dest ≠ .eq) (seq : Int64) :
    Tracks S (s.map dest seq) (flights ++ [⟨dest, seq, s.tuples.length⟩]) := by
  have hfind : s.tmap.findKeyed comparator dest = none := by
    rcases hfind : s.tmap.findKeyed comparator dest with _ | e
    · rfl
    · obtain ⟨he, heq⟩ := h.of_findKeyed hS hdest hfind
      obtain ⟨f, hf, hfe, -⟩ := h.exists_flight he
      rw [← hfe] at heq
      exact absurd heq (hnone f hf)
  obtain ⟨htree, hperm⟩ := h.tree.insertKeyed (v := s.maps.length) hS.strictWeak hdest
    fun e he => h.tree.findKeyed_eq_none hS.strictWeak hdest hfind he
  have hbound : ∀ e ∈ s.tmap.toList, e.2 < s.maps.length := by
    intro e he
    obtain ⟨f, -, -, hmap⟩ := h.exists_flight he
    exact (List.getElem?_eq_some_iff.mp hmap).1
  have hotp : ∀ f ∈ flights, f.otp < s.tuples.length := by
    intro f hf
    obtain ⟨t, ht, -⟩ := h.tuples f hf
    exact (List.getElem?_eq_some_iff.mp ht).1
  unfold CCT.map
  simp only [hfind]
  refine ⟨htree, ?_, ?_, ?_, fun f hf => ?_, fun otp hset => ?_⟩
  · rw [(hperm.map _).nodup_iff, map_cons, nodup_cons]
    refine ⟨fun hmem => ?_, h.apart⟩
    obtain ⟨e, he, heq⟩ := mem_map.mp hmem
    exact (hbound e he).ne heq
  · have hnew : (s.maps ++ [insertSeq seq s.tuples.length []])[s.maps.length]? =
        some [(seq, s.tuples.length)] := by
      rw [List.getElem?_concat_length]
      rfl
    have hold : s.tmap.toList.map (fun e =>
          (e.1, (s.maps ++ [insertSeq seq s.tuples.length []])[e.2]?)) =
        s.tmap.toList.map fun e => (e.1, s.maps[e.2]?) := by
      refine map_congr_left fun e he => ?_
      rw [List.getElem?_append_left (hbound e he)]
    refine (hperm.map _).trans ?_
    rw [map_cons, hold, hnew, map_append]
    exact (h.entries.cons _).trans (perm_append_singleton _ _).symm
  · rw [map_append, nodup_append]
    refine ⟨h.nodup, nodup_singleton _, fun a ha b hb => ?_⟩
    obtain ⟨f, hf, rfl⟩ := mem_map.mp ha
    rw [mem_singleton.mp hb]
    exact (hotp f hf).ne
  · rcases mem_append.mp hf with hf | hf
    · obtain ⟨t, ht, hd, hs, hset⟩ := h.tuples f hf
      refine ⟨t, ?_, hd, hs, fun hmem => hset ?_⟩
      · rw [List.getElem?_append_left (hotp f hf), ht]
      · exact (mem_append.mp hmem).resolve_right fun hlast =>
          (hotp f hf).ne (mem_singleton.mp hlast)
    · rw [mem_singleton.mp hf]
      exact ⟨_, List.getElem?_concat_length, rfl, rfl, fun _ => rfl⟩
  · rcases mem_append.mp hset with hset | hset
    · obtain ⟨f, hf, heq⟩ := h.timers otp hset
      exact ⟨f, mem_append_left _ hf, heq⟩
    · exact ⟨_, mem_append_right _ mem_cons_self, (mem_singleton.mp hset).symm⟩

/-! ## Acknowledgements and timeouts -/

omit hS in
lemma perm_cons_filter (hnodup : (flights.map (·.otp)).Nodup) (hf : f ∈ flights) :
    flights.Perm (f :: flights.filter (·.otp ≠ f.otp)) := by
  induction flights with
  | nil => exact absurd hf not_mem_nil
  | cons g flights ih =>
    rw [map_cons, nodup_cons] at hnodup
    rcases mem_cons.mp hf with rfl | hf
    · have hall : flights.filter (·.otp ≠ f.otp) = flights := by
        rw [filter_eq_self]
        intro g hg
        rw [decide_eq_true_eq]
        intro heq
        exact hnodup.1 (heq ▸ mem_map_of_mem hg)
      rw [filter_cons_of_neg (by simp), hall]
    · have hne : g.otp ≠ f.otp := by
        intro heq
        exact hnodup.1 (heq ▸ mem_map_of_mem hf)
      rw [filter_cons_of_pos (by simpa using hne)]
      exact ((ih hnodup.2 hf).cons g).trans (List.Perm.swap ..)

omit hS in
lemma Tracks.erase (h : Tracks S s flights) (hf : f ∈ flights)
    (hmap : s.maps[e.2]? = some [(f.seq, f.otp)])
    (hfind : s.tmap.findKeyed comparator dest = some e) (hdest : f.dest = e.1) (timers : List ℕ)
    (htimers : timers = s.timers ∧ f.otp ∉ s.timers ∨ timers = s.timers.filter (· ≠ f.otp)) :
    Tracks S
      { s with
        tmap := s.tmap.eraseFound comparator dest
        maps := s.maps.set e.2 []
        timers := timers } (flights.filter (·.otp ≠ f.otp)) := by
  obtain ⟨htree, hperm⟩ := h.tree.eraseFound hfind
  have hrest := perm_cons_filter h.nodup hf
  have hnot : f.otp ∉ timers ∧ ∀ otp ∈ timers, otp ∈ s.timers := by
    rcases htimers with ⟨rfl, hnot⟩ | rfl
    · exact ⟨hnot, fun _ h => h⟩
    · exact ⟨by simp, fun otp hotp => mem_of_mem_filter hotp⟩
  have hapart := (hperm.map (·.2)).nodup_iff.mp h.apart
  rw [map_cons, nodup_cons] at hapart
  refine ⟨htree, hapart.2, ?_, ?_, fun g hg => ?_, fun otp hset => ?_⟩
  · have hothers : ((s.tmap.eraseFound comparator dest).toList.map fun a =>
          (a.1, (s.maps.set e.2 [])[a.2]?)) =
        (s.tmap.eraseFound comparator dest).toList.map fun a => (a.1, s.maps[a.2]?) := by
      refine map_congr_left fun a ha => ?_
      rw [List.getElem?_set_ne]
      intro heq
      exact hapart.1 (heq ▸ mem_map_of_mem ha)
    rw [hothers]
    have hall := (hperm.map fun a => (a.1, s.maps[a.2]?)).symm.trans
      (h.entries.trans (hrest.map fun f : Flight => (f.dest, some [(f.seq, f.otp)])))
    rw [map_cons, map_cons, hmap, hdest] at hall
    exact hall.cons_inv
  · exact h.nodup.sublist (filter_sublist.map _)
  · obtain ⟨t, ht, hd, hs, hset⟩ := h.tuples g (mem_of_mem_filter hg)
    exact ⟨t, ht, hd, hs, fun hmem => hset (hnot.2 _ hmem)⟩
  · obtain ⟨g, hg, rfl⟩ := h.timers otp (hnot.2 otp hset)
    refine ⟨g, mem_filter.mpr ⟨hg, ?_⟩, rfl⟩
    rw [decide_eq_true_eq]
    intro heq
    exact hnot.1 (heq ▸ hset)

lemma Tracks.dealloc (h : Tracks S s flights) (hdest : dest ∈ S) (seq : Int64) :
    Tracks S (s.dealloc dest seq)
      (flights.filter fun f => ¬ (compareTo f.dest dest = .eq ∧ f.seq = seq)) := by
  unfold CCT.dealloc
  rcases hfind : s.tmap.findKeyed comparator dest with _ | e
  · have hall : flights.filter (fun f => ¬ (compareTo f.dest dest = .eq ∧ f.seq = seq)) = flights := by
      rw [filter_eq_self]
      intro f hf
      simp [h.ne_of_findKeyed hS hdest hfind hf]
    rw [hall]
    exact h
  · obtain ⟨he, heq⟩ := h.of_findKeyed hS hdest hfind
    obtain ⟨f, hf, hfe, hmap⟩ := h.exists_flight he
    rw [← hfe] at heq
    simp only [hmap, getD_some]
    by_cases hseq : f.seq = seq
    · subst hseq
      obtain ⟨t, ht, -, -, hset⟩ := h.tuples f hf
      have hrecord : [(f.seq, f.otp)].find? (·.1 = f.seq) = some (f.seq, f.otp) := by simp
      have hempty : [(f.seq, f.otp)].filter (·.1 ≠ f.seq) = [] := by simp
      simp only [hrecord, hempty, ht, map_some, getD_some, length_nil, if_true]
      rw [h.filter_eq hS hdest hf heq]
      rcases htcb : t.tcb with _ | _
      · have hnot : f.otp ∉ s.timers := by
          intro hmem
          rw [hset hmem] at htcb
          cases htcb
        have hgone := h.erase hf hmap hfind hfe s.timers (Or.inl ⟨rfl, hnot⟩)
        simp only [Bool.false_eq_true, if_false]
        split_ifs
        · exact hgone.congr rfl rfl rfl rfl
        · exact hgone
      · have hgone := h.erase hf hmap hfind hfe _ (Or.inr rfl)
        simp only [if_true]
        split_ifs
        · exact hgone.congr rfl rfl rfl rfl
        · exact hgone
    · have hnone : [(f.seq, f.otp)].find? (·.1 = seq) = none := by
        simp [hseq]
      have hall : flights.filter (fun f => ¬ (compareTo f.dest dest = .eq ∧ f.seq = seq)) =
          flights := by
        rw [filter_eq_self]
        intro g hg
        rw [decide_eq_true_eq, h.dest_iff hS hdest hf heq hg]
        rintro ⟨hotp, hgseq⟩
        rw [h.eq_of_otp hg hf hotp] at hgseq
        exact hseq hgseq
      simp only [hnone]
      rw [hall]
      exact h

omit hS in
lemma exists_clearWnd (held : List ℕ) (tuples : List CCTuple) (a : ℕ) {t : CCTuple}
    (ht : tuples[a]? = some t) :
    ∃ t', (held.foldl (fun tuples a => tuples.modify a CCTuple.clearWnd) tuples)[a]? = some t' ∧
      t'.dest = t.dest ∧ t'.seq = t.seq ∧ t'.tcb = t.tcb := by
  induction held generalizing tuples t with
  | nil => exact ⟨t, ht, rfl, rfl, rfl⟩
  | cons b held ih =>
    by_cases hab : b = a
    · obtain ⟨t', ht', hd, hs, htcb⟩ := ih (tuples.modify b CCTuple.clearWnd)
        (t := t.clearWnd) (by simp [hab, ht])
      exact ⟨t', ht', hd, hs, htcb⟩
    · exact ih _ (by simp [hab, ht])

omit hS in
lemma Tracks.clearWnd (h : Tracks S s flights) (held : List ℕ) :
    Tracks S { s with
      tuples := held.foldl (fun tuples a => tuples.modify a CCTuple.clearWnd) s.tuples } flights := by
  refine ⟨h.tree, h.apart, h.entries, h.nodup, fun f hf => ?_, h.timers⟩
  obtain ⟨t, ht, hd, hs, hset⟩ := h.tuples f hf
  obtain ⟨t', ht', hd', hs', htcb'⟩ := exists_clearWnd held s.tuples f.otp ht
  exact ⟨t', ht', hd'.trans hd, hs'.trans hs, fun hmem => htcb'.trans (hset hmem)⟩

omit hS in
lemma Tracks.clearTcb (h : Tracks S s flights) {otp : ℕ} (hotp : otp ∉ s.timers) :
    Tracks S { s with tuples := s.tuples.modify otp CCTuple.clearTcb } flights := by
  refine ⟨h.tree, h.apart, h.entries, h.nodup, fun f hf => ?_, h.timers⟩
  obtain ⟨t, ht, hd, hs, hset⟩ := h.tuples f hf
  by_cases heq : otp = f.otp
  · refine ⟨t.clearTcb, ?_, hd, hs, fun hmem => absurd (heq ▸ hmem) hotp⟩
    simp [heq, ht]
  · refine ⟨t, ?_, hd, hs, hset⟩
    simp [heq, ht]

lemma Tracks.timeoutCb (h : Tracks S s flights) {otp : ℕ} (hotp : otp ∈ s.timers) :
    Tracks S (({ s with timers := s.timers.filter (· ≠ otp) } : CCT).timeoutCb otp)
      (flights.filter (·.otp ≠ otp)) := by
  obtain ⟨f, hf, rfl⟩ := h.timers otp hotp
  obtain ⟨t, ht, hd, hs, -⟩ := h.tuples f hf
  have hfS := h.dest_mem hf
  have hfired : Tracks S { s with timers := s.timers.filter (· ≠ f.otp) } flights := by
    refine ⟨h.tree, h.apart, h.entries, h.nodup, fun g hg => ?_, fun otp hset => ?_⟩
    · obtain ⟨t, ht, hd, hs, hset⟩ := h.tuples g hg
      exact ⟨t, ht, hd, hs, fun hmem => hset (mem_of_mem_filter hmem)⟩
    · exact h.timers otp (mem_of_mem_filter hset)
  have hnot : f.otp ∉ s.timers.filter (· ≠ f.otp) := by simp
  unfold CCT.timeoutCb
  simp only [ht]
  rw [hd, hs, ← h.filter_eq hS hfS hf (compareTo_self f.dest)]
  split_ifs
  · have hslow : Tracks S
        ({ s with timers := s.timers.filter (· ≠ f.otp) } : CCT).failureTransmit flights :=
      hfired.congr rfl rfl rfl rfl
    exact ((hslow.clearWnd _).clearTcb hnot).dealloc hS hfS f.seq
  · exact (hfired.clearTcb hnot).dealloc hS hfS f.seq

end Lawful

/-! ## Whole runs -/

/-- A tuple is released only if none is in flight to its destination; destinations are ordered by
`compareTo`. -/
def OneEach (S : Set Value) (s : CCT) (history : List Happening) : Event → Prop
  | .pull (some (dest, _)) => s.currentWindow < s.maxWindow →
      dest ∈ S ∧ ∀ f ∈ inFlight history, compareTo f.dest dest ≠ .eq
  | .ack dest _ => dest ∈ S
  | _ => True

lemma inFlight_append (history more : List Happening) :
    inFlight (history ++ more) = more.foldl after (inFlight history) :=
  foldl_append

lemma Tracks.step (hS : LawfulOn S) {history : List Happening} (h : Tracks S s (inFlight history))
    {event : Event} (hevent : OneEach S s history event) :
    Tracks S (s.step event).1 (inFlight (history ++ (s.step event).2)) := by
  rw [inFlight_append]
  cases event with
  | pull offer =>
    simp only [CCT.step, CCT.pull]
    by_cases hopen : s.currentWindow < s.maxWindow
    · rcases offer with _ | ⟨dest, seq⟩
      · simp only [hopen, if_true]
        exact h.congr rfl rfl rfl rfl
      · obtain ⟨hdest, hnone⟩ := hevent hopen
        simp only [hopen, if_true]
        have hon : Tracks S ({ s with dataOn := true } : CCT) (inFlight history) :=
          h.congr rfl rfl rfl rfl
        exact hon.map hS hdest hnone seq
    · simp only [hopen, if_false]
      exact h.congr rfl rfl rfl rfl
  | ack dest seq => exact (h.dealloc hS hevent seq).congr rfl rfl rfl rfl
  | dataReady => exact h.congr rfl rfl rfl rfl
  | timeout otp =>
    by_cases hset : otp ∈ s.timers
    · simp only [CCT.step, if_pos hset]
      exact h.timeoutCb hS hset
    · simp only [CCT.step, if_neg hset]
      exact h

lemma tracks_mk' (S : Set Value) (init_wnd max_wnd : ℚ) :
    Tracks S (mk' init_wnd max_wnd) (inFlight []) :=
  ⟨SearchTree.proper_nil, nodup_nil, List.Perm.refl _, nodup_nil,
    forall_mem_nil _, forall_mem_nil _⟩

lemma Tracks.run (hS : LawfulOn S) {history : List Happening} (h : Tracks S s (inFlight history))
    {before after : List Event}
    (hevents : Throughout stepOn (fun s => OneEach S s.1 s.2) (s, history) (before ++ after)) :
    Tracks S (run (s, history) before).1 (inFlight (run (s, history) before).2) :=
  (throughout_append.mp hevents).1.foldl (fun s : CCT × List Happening => Tracks S s.1 (inFlight s.2))
    (fun _ _ h hevent => h.step hS hevent) h

/-- **The window bounds the tuples in flight** in every run that releases a tuple only if none is in
flight to its destination: where a tuple is released, fewer tuples are in flight than the integer
part of the window.
Hyps: `hevents` says that no destination has two tuples in flight -/
theorem window_bounds {S : Set Value} (hS : LawfulOn S) (init_wnd max_wnd : ℚ) (events : List Event)
    (hevents : Throughout stepOn (fun s => OneEach S s.1 s.2) (mk' init_wnd max_wnd, []) events) :
    ∀ before offer after s history f, events = before ++ .pull offer :: after →
      run (mk' init_wnd max_wnd, []) before = (s, history) → (s.pull offer).2 = some f →
        ((inFlight history).length : ℤ) < s.maxWindow := by
  rintro before offer after s history f rfl hrun hpull
  have htracks := (tracks_mk' S init_wnd max_wnd).run hS hevents
  rw [hrun] at htracks
  rw [← htracks.currentWindow]
  unfold CCT.pull at hpull
  by_contra hclosed
  rw [if_neg hclosed] at hpull
  cases hpull

def firstPull : Event := .pull (some (.str [97], 1))

lemma run_firstPull : run (mk' 2 2048, []) [firstPull] =
    ((mk' 2 2048).map (.str [97]) 1, [.released ⟨.str [97], 1, 0⟩]) := by
  unfold run firstPull
  rfl

theorem window_bounds_two_destinations :
    ∃ f, (((mk' 2 2048).map (.str [97]) 1).pull (some (.str [98], 1))).2 = some f ∧
      ((inFlight [.released ⟨.str [97], 1, 0⟩]).length : ℤ) <
        ((mk' 2 2048).map (.str [97]) 1).maxWindow := by
  have hopen : ((mk' 2 2048).map (.str [97]) 1).currentWindow <
      ((mk' 2 2048).map (.str [97]) 1).maxWindow := by
    decide
  have hpull : (((mk' 2 2048).map (.str [97]) 1).pull (some (.str [98], 1))).2 =
      some ⟨.str [98], 1, 1⟩ := by
    unfold pull
    rw [if_pos hopen]
    rfl
  refine ⟨_, hpull, window_bounds lawfulOn_str 2 2048
    [firstPull, .pull (some (.str [98], 1))] ⟨?_, ?_, trivial⟩ [firstPull] _ [] _ _ _ rfl
    run_firstPull hpull⟩
  · exact fun _ => ⟨⟨_, rfl⟩, forall_mem_nil _⟩
  · refine fun _ => ⟨⟨_, rfl⟩, fun f hf => ?_⟩
    rw [mem_singleton.mp hf]
    decide

/-- Two tuples to one destination are in flight, and the window of two is open for a third one. -/
theorem window_exceeded :
    ∃ s history f, run (mk' 2 2048, []) [firstPull, .pull (some (.str [97], 2))] = (s, history) ∧
      (s.pull (some (.str [97], 3))).2 = some f ∧
        ¬ ((inFlight history).length : ℤ) < s.maxWindow := by
  have hopen' : (((mk' 2 2048).map (.str [97]) 1).map (.str [97]) 2).currentWindow <
      (((mk' 2 2048).map (.str [97]) 1).map (.str [97]) 2).maxWindow := by
    decide
  refine ⟨((mk' 2 2048).map (.str [97]) 1).map (.str [97]) 2,
    [.released ⟨.str [97], 1, 0⟩, .released ⟨.str [97], 2, 1⟩], ⟨.str [97], 3, 2⟩, ?_, ?_, ?_⟩
  · unfold run
    simp only [foldl_cons, foldl_nil, stepOn, step, pull]
    rfl
  · unfold pull
    rw [if_pos hopen']
    rfl
  · decide

end P2.Net.CCT
