import P2.Planner.Joins

/-!
# Which rules join

A rule that does not is shown rows of zeros and ones on which it fails: `joins_iff`.
-/

namespace P2.Planner

open P2.Value P2.Overlog P2.Table P2.Lib List CommonTable

/-! ## Sound rules -/

namespace Strand

variable {ruleID : Name} {event f : Functor} {terms before : List Functor}
  {s : Strand ruleID event terms}

lemma planned_of_sound (s : Strand ruleID event terms) (hsound : Sound event terms) : s.Planned := by
  have hprefix : ∀ before after, terms = before ++ after →
      ∃ probes, generateMultipleProbeElements ruleID event.name (fieldNames event) before =
        some probes := by
    intro before
    induction before using reverseRecOn with
    | nil => exact fun _ _ => ⟨[], rfl⟩
    | append_singleton before f ih =>
      intro after hterms
      rw [append_assoc] at hterms
      obtain ⟨probes, hprobes⟩ := ih _ hterms
      obtain ⟨-, ⟨x, hx, hold⟩, -⟩ := hsound before f after hterms
      obtain ⟨p, hp⟩ : ∃ p, generateProbeElements ruleID event.name (namesBehind event before) f =
          some p := exists_generateProbeElements.mpr ⟨x, hx, mem_namesBehind.mpr hold⟩
      refine ⟨probes ++ [p.1], ?_⟩
      rw [generateMultipleProbeElements_append, generateMultipleProbeElements_singleton, hprobes]
      unfold namesBehind at hp
      simp only [Option.bind_eq_bind, Option.bind_some, hp]
      rfl
  exact hprefix terms [] (append_nil terms).symm

lemma Joins.planned (h : s.Joins) : s.Planned := by
  rcases eq_nil_or_concat terms with hnil | ⟨before, f, hconcat⟩
  · exact ⟨[], hnil ▸ rfl⟩
  · rw [concat_eq_append] at hconcat
    obtain ⟨ts, ⟨probes, hprobes, -⟩, -⟩ := h before f [] hconcat
    exact ⟨probes, hconcat ▸ hprobes⟩

lemma Joins.exists_after (h : s.Joins) (hvars : ∀ f ∈ event :: terms, VarsOnly f)
    (hnodup : (vars event).Nodup) {after : List Functor} (hterms : terms = before ++ f :: after) :
    ∃ ts, s.After before ts ∧
      Multiset.Rel (Holds (namesBehind event before)) ts (s.matched before) := by
  rcases eq_nil_or_concat before with rfl | ⟨before, g, rfl⟩
  · exact ⟨_, s.after_nil, rel_nil hvars hnodup⟩
  · rw [concat_eq_append] at hterms ⊢
    rw [append_assoc] at hterms
    exact h before g (f :: after) hterms

lemma Joins.exists_length_eq (h : s.Joins) (hvars : ∀ f ∈ event :: terms, VarsOnly f)
    (hnodup : (vars event).Nodup) {after : List Functor} (hterms : terms = before ++ f :: after)
    {W : List (Name × Value)} (hW : W ∈ s.matched before) : ∃ found : List Tuple,
      found.Perm ((s.rows f).filter fun u =>
        ∀ p ∈ W, ∀ q ∈ bindings f u, p.1 = q.1 → Same p.2 q.2) ∧
      (pulled found).length = (s.next f W).length := by
  obtain ⟨ts, hafter, hrel⟩ := h.exists_after hvars hnodup hterms
  obtain ⟨ts', hafter', hrel'⟩ := h before f after hterms
  exact Strand.exists_length_eq hvars h.planned hterms hafter hrel hafter' hrel' hW

lemma joins_iff_served (s : Strand ruleID event terms) (hvars : ∀ f ∈ event :: terms, VarsOnly f)
    (hsound : Sound event terms) : s.Joins ↔ s.Served := by
  constructor
  · intro h before f after hterms W hW
    obtain ⟨found, -, hlength⟩ :=
      h.exists_length_eq hvars (hsound before f after hterms).1 hterms hW
    -- a tuple is pulled even if nothing is found
    have hpos := (length_pulled found).2
    rw [hlength] at hpos
    obtain ⟨W', hW'⟩ := exists_mem_of_length_pos hpos
    obtain ⟨u, hu, -⟩ := mem_map.mp hW'
    obtain ⟨hu, hagree⟩ := mem_filter.mp hu
    exact ⟨u, hu, of_decide_eq_true hagree⟩
  · intro h before f after hterms
    have hne : terms ≠ [] := by
      rw [hterms]
      exact append_ne_nil_of_right_ne_nil _ (cons_ne_nil f after)
    apply Strand.exists_after hvars hsound (s.planned_of_sound hsound) h hne
    rw [hterms, append_assoc]
    rfl

end Strand

/-! ## A table with given rows -/

lemma exists_table (S : Schema) (ks : List Key) {rows : List Tuple} (hrows : ∀ u ∈ rows, u ∈ S.tuples)
    (hnodup : (rows.map Tuple.ID).Nodup) : ∃ table, Moves S (mk' []) table ∧
      table.scan.Perm rows ∧ ∀ k ∈ ks, table.HasIndex k := by
  -- entries are at the addresses that are the identifiers of their tuples
  suffices h : ∃ table, Moves S (mk' []) table ∧
      table.primaryIndex.toList.Perm (rows.map fun u => ⟨u.ID, u⟩) ∧ ∀ k ∈ ks, table.HasIndex k by
    obtain ⟨table, hmoves, hperm, hks⟩ := h
    refine ⟨table, hmoves, ?_, hks⟩
    have hmap := hperm.map Ref.tuple
    rw [map_map] at hmap
    exact hmap.trans (Perm.of_eq (map_id rows))
  induction rows with
  | nil =>
    induction ks with
    | nil => exact ⟨_, Relation.ReflTransGen.refl, Perm.refl _, by simp⟩
    | cons k ks ih =>
      obtain ⟨table, hmoves, hperm, hks⟩ := ih
      refine ⟨table.secondaryIndex k, hmoves.tail (Move.silent (.secondaryIndex k)), ?_, ?_⟩
      · rwa [(table.frame_secondaryIndex k).primaryIndex]
      · rw [forall_mem_cons]
        exact ⟨table.hasIndex_secondaryIndex k, fun k' hk' =>
          (hks k' hk').frame (table.frame_secondaryIndex k)⟩
  | cons u rows ih =>
    obtain ⟨hu, hrows⟩ := forall_mem_cons.mp hrows
    rw [map_cons, nodup_cons] at hnodup
    obtain ⟨table, hmoves, hperm, hks⟩ := ih hrows hnodup.2
    have hok := ((ok_mk' S []).moves_induction (P := fun s => s.key = []) hmoves
      (fun _ hs hmove => hmove.key_eq.trans hs) rfl)
    have hnew : ∀ x ∈ table.primaryIndex.toList,
        sameKey table.key x.tuple u = false ∧ x.addr ≠ u.ID := by
      intro x hx
      obtain ⟨w, hw, rfl⟩ := mem_map.mp (hperm.mem_iff.mp hx)
      have hne : w.ID ≠ u.ID := fun heq => hnodup.1 (heq ▸ mem_map_of_mem hw)
      refine ⟨?_, hne⟩
      rw [hok.2, Bool.eq_false_iff]
      exact fun hsame => hne (sameKey_nil.mp hsame)
    have hmove := Move.insert (S := S) (s := table) (r := ⟨u.ID, u⟩) hu hnew
    obtain ⟨-, hcons⟩ := hok.1.insert (r := ⟨u.ID, u⟩) hu hnew
    exact ⟨_, hmoves.tail hmove, hcons.trans (hperm.cons _), fun k hk => (hks k hk).move hmove⟩

/-! ## Tables of bits -/

def bit (b : Bool) : Value := .int64 (if b then 1 else 0)

lemma same_bit {a b : Bool} : Same (bit a) (bit b) ↔ a = b := by
  cases a <;> cases b <;> decide

def bitLists : ℕ → List (List Bool)
  | 0 => [[]]
  | n + 1 => (bitLists n).flatMap fun l => [false :: l, true :: l]

lemma mem_bitLists {n : ℕ} {l : List Bool} : l ∈ bitLists n ↔ l.length = n := by
  induction n generalizing l with
  | zero => simp [bitLists]
  | succ n ih =>
    unfold bitLists
    rw [mem_flatMap]
    constructor
    · rintro ⟨l', hl', hl⟩
      rcases mem_pair.mp hl with rfl | rfl
      · exact congrArg Nat.succ (ih.mp hl')
      · exact congrArg Nat.succ (ih.mp hl')
    · intro hlength
      cases l with
      | nil => cases hlength
      | cons b l =>
        refine ⟨l, ih.mpr (Nat.succ.inj hlength), ?_⟩
        cases b
        · exact mem_cons_self
        · exact mem_cons_of_mem _ mem_cons_self

def bitRows (name : Name) (n : ℕ) : List Tuple :=
  (bitLists n).zipIdx.map fun p => { ID := p.2, fields := .str name :: p.1.map bit }

lemma nodup_bitRows (name : Name) (n : ℕ) : ((bitRows name n).map Tuple.ID).Nodup := by
  unfold bitRows
  rw [map_map]
  show ((bitLists n).zipIdx.map Prod.snd).Nodup
  rw [zipIdx_map_snd]
  exact nodup_range'

lemma fields_of_mem_bitRows {name : Name} {n : ℕ} {u : Tuple} (hu : u ∈ bitRows name n) :
    ∃ l : List Bool, l.length = n ∧ u.fields = .str name :: l.map bit := by
  obtain ⟨⟨l, i⟩, hl, rfl⟩ := mem_map.mp hu
  exact ⟨l, mem_bitLists.mp (fst_mem_of_mem_zipIdx hl), rfl⟩

lemma exists_mem_bitRows (name : Name) (l : List Bool) :
    ∃ u ∈ bitRows name l.length, u.fields = .str name :: l.map bit := by
  obtain ⟨i, hi⟩ := mem_iff_getElem?.mp (mem_bitLists.mpr (rfl : l.length = l.length))
  have hmem : (l, i) ∈ (bitLists l.length).zipIdx := mem_zipIdx_iff_getElem?.mpr hi
  exact ⟨_, mem_map_of_mem hmem, rfl⟩

/-- The columns of rows of numbers, behind the name of the table. -/
def numberCols : ℕ → Set Value
  | 0 => Set.range Value.str
  | _ + 1 => Set.range Value.int64

lemma lawful_numberCols : Lawful numberCols
  | 0 => lawfulOn_str
  | _ + 1 => lawfulOn_int64

lemma typed_numberCols {name : Name} {values : List Value} {t : Tuple}
    (ht : t.fields = .str name :: values) (h : ∀ v ∈ values, v ∈ Set.range Value.int64) :
    Typed numberCols t := by
  intro i v hv
  rw [ht] at hv
  cases i with
  | zero =>
    cases hv
    exact ⟨name, rfl⟩
  | succ i => exact h v (mem_of_getElem? hv)

def bitSchema (name : Name) (n : ℕ) : Schema where
  cols := numberCols
  lawful := lawful_numberCols
  tuples := {u | u ∈ bitRows name n}
  typed u hu := by
    obtain ⟨l, -, hfields⟩ := fields_of_mem_bitRows hu
    exact typed_numberCols hfields (forall_mem_map.mpr fun b _ => ⟨_, rfl⟩)
  unique t ht u hu hID := inj_on_of_nodup_map (nodup_bitRows name n) ht hu hID

lemma exists_bitStrand (ruleID : Name) {event : Functor} {terms : List Functor}
    (hevent : VarsOnly event)
    (harity : ∀ f ∈ terms, ∀ g ∈ terms, f.name = g.name → f.args.length = g.args.length)
    (e : ℕ → Bool) : ∃ s : Strand ruleID event terms,
      bindings event s.tuple = (vars event).zipIdx.map (fun p => (p.1, bit (e p.2))) ∧
      ∀ f ∈ terms, (s.rows f).Perm (bitRows f.name f.args.length) := by
  obtain ⟨arity, harity⟩ : ∃ arity : Name → ℕ, ∀ f ∈ terms, arity f.name = f.args.length := by
    refine ⟨fun name => ((terms.find? (·.name = name)).map (·.args.length)).getD 0, fun f hf => ?_⟩
    rcases hfind : terms.find? (·.name = f.name) with _ | g
    · exact absurd (decide_eq_true rfl) (List.find?_eq_none.mp hfind f hf)
    · have hname := List.find?_some hfind
      simp only [hfind]
      exact harity g (List.mem_of_find?_eq_some hfind) f hf (of_decide_eq_true hname)
  obtain ⟨ks, hks⟩ : ∃ ks : List Key, ∀ probes, generateMultipleProbeElements ruleID event.name
      (fieldNames event) terms = some probes → ∀ p ∈ probes, p.keys.indexKey ∈ ks := by
    rcases generateMultipleProbeElements ruleID event.name (fieldNames event) terms with _ | probes
    · exact ⟨[], fun _ h => absurd h.symm (Option.some_ne_none _)⟩
    · refine ⟨probes.map (·.keys.indexKey), ?_⟩
      rintro _ ⟨⟩ p hp
      exact mem_map_of_mem hp
  have htable := fun name => exists_table (bitSchema name (arity name)) ks (fun _ hu => hu)
    (nodup_bitRows name (arity name))
  choose table hmoves hperm hindex using htable
  refine ⟨{
    tuple := { ID := 0, fields := .str event.name ::
      (range event.args.length).map fun i => bit (e i) }
    table := table
    schema := fun name => bitSchema name (arity name)
    key := fun _ => []
    types := fun _ => Set.range Value.int64
    reached := hmoves
    indexed := fun probes hprobes p hp => Or.inr (hindex p.table _ (hks probes hprobes p hp))
    lawful := fun _ => lawfulOn_int64
    size := by simp
    typed := ?_
    sizes := ?_
    columns := fun _ _ _ _ _ => rfl }, ?_, ?_⟩
  · rintro ⟨x, v⟩ hp
    obtain ⟨i, y, -, -, hv⟩ := mem_bindings.mp hp
    obtain ⟨j, -, rfl⟩ := mem_map.mp (mem_of_getElem? hv)
    exact ⟨_, rfl⟩
  · intro f hf u hu
    obtain ⟨l, hl, hfields⟩ := fields_of_mem_bitRows hu
    rw [hfields, length_cons, length_map, hl, harity f hf]
  · show (vars event).zip ((range event.args.length).map fun i => bit (e i)) = _
    rw [zipIdx_eq_zip_range', zip_map_right, ← range_eq_range', length_vars hevent]
    rfl
  · intro f hf
    rw [← harity f hf]
    exact hperm f.name

/-! ## Rules that join are sound -/

namespace Strand

variable {ruleID : Name} {event f : Functor} {terms before : List Functor}
  {s : Strand ruleID event terms} {W : List (Name × Value)}

lemma matched_eq_nil (h : ¬ Agree Same (bindings event s.tuple)) (before : List Functor) :
    s.matched before = [] := by
  induction before using reverseRecOn with
  | nil => exact filter_cons_of_neg (by simpa using h)
  | append_singleton before f ih =>
    rw [matched_concat, ih]
    rfl

lemma Joins.agree (h : s.Joins) {after : List Functor} (hterms : terms = f :: after) :
    Agree Same (bindings event s.tuple) := by
  by_contra hagree
  obtain ⟨ts, hafter, hrel⟩ := h [] f after hterms
  rw [matched_eq_nil hagree] at hrel
  have hts : ts = [] := (Multiset.coe_eq_zero ts).mp (Multiset.rel_zero_right.mp hrel)
  obtain ⟨ts₀, p, names, found, hafter₀, -, hmap, hflatten⟩ := after_concat.mp hafter
  cases s.after_nil.unique hafter₀
  obtain ⟨hrun, rfl⟩ := eq_map_of_mapM [] hmap
  have hrun := hrun s.tuple mem_cons_self
  rw [hts, map_singleton, flatten_singleton] at hflatten
  rw [hflatten] at hrun
  -- the probe makes as many tuples as it pulls
  unfold runProbe at hrun
  simp only [Option.bind_eq_bind, Option.bind_eq_some_iff] at hrun
  obtain ⟨found, -, hout⟩ := hrun
  have hpos := (length_pulled found).2
  rw [map_eq_nil_iff.mp (eq_map_of_mapM s.tuple hout).2.symm] at hpos
  cases hpos

end Strand

section Bits

variable {ruleID : Name} {event f : Functor} {terms before : List Functor}
  {s : Strand ruleID event terms} {W : List (Name × Value)} {e : ℕ → Bool}

def bitOf (W : List (Name × Value)) (x : Name) : Bool :=
  W.any fun p => p.1 = x ∧ compareTo p.2 (bit true) = .eq

lemma snd_of_mem_zip_map {α β : Type} {F : α → β} {l : List α} {q : α × β}
    (hq : q ∈ l.zip (l.map F)) : q.2 = F q.1 := by
  induction l with
  | nil => cases hq
  | cons a l ih =>
    rcases mem_cons.mp hq with rfl | hq
    · rfl
    · exact ih hq

variable (hvars : ∀ f ∈ event :: terms, VarsOnly f)
  (hevent : bindings event s.tuple = (vars event).zipIdx.map (fun p => (p.1, bit (e p.2))))
  (hrows : ∀ f ∈ terms, (s.rows f).Perm (bitRows f.name f.args.length))

include hvars hevent hrows

omit hvars in
lemma exists_bit (hbefore : before ⊆ terms) (hW : W ∈ s.combinations before) :
    ∀ p ∈ W, ∃ b, p.2 = bit b := by
  induction before using reverseRecOn generalizing W with
  | nil =>
    rw [mem_singleton.mp hW, hevent]
    intro p hp
    obtain ⟨q, -, rfl⟩ := mem_map.mp hp
    exact ⟨_, rfl⟩
  | append_singleton before f ih =>
    obtain ⟨hbefore, hf⟩ := append_subset.mp hbefore
    have hf := hf mem_cons_self
    rw [Strand.combinations_concat] at hW
    obtain ⟨W₀, hW₀, hmap⟩ := mem_flatMap.mp hW
    obtain ⟨u, hu, rfl⟩ := mem_map.mp hmap
    intro p hp
    rcases mem_append.mp hp with hp | hp
    · exact ih hbefore hW₀ p hp
    · obtain ⟨l, -, hfields⟩ := fields_of_mem_bitRows ((hrows f hf).mem_iff.mp hu)
      obtain ⟨i, y, -, -, hv⟩ := mem_bindings.mp hp
      rw [hfields, List.getElem?_cons_succ] at hv
      obtain ⟨b, -, hb⟩ := mem_map.mp (mem_of_getElem? hv)
      exact ⟨b, hb.symm⟩

omit hvars hevent in
lemma exists_row (hf : f ∈ terms) (l : List Bool) (hl : l.length = f.args.length) :
    ∃ u ∈ s.rows f, bindings f u = (vars f).zip (l.map bit) := by
  obtain ⟨u, hu, hfields⟩ := exists_mem_bitRows f.name l
  rw [hl] at hu
  refine ⟨u, (hrows f hf).mem_iff.mpr hu, ?_⟩
  unfold bindings
  rw [hfields]
  rfl

lemma eq_bitOf (hbefore : before ⊆ terms) (hW : W ∈ s.matched before) {p : Name × Value} (hp : p ∈ W) :
    p.2 = bit (bitOf W p.1) := by
  obtain ⟨hcombination, hagree⟩ := mem_filter.mp hW
  obtain ⟨-, htyped⟩ := Strand.mem_combinations hvars hbefore hcombination
  obtain ⟨b, hb⟩ := exists_bit hevent hrows hbefore hcombination p hp
  have hagree : Agree Same W := of_decide_eq_true hagree
  cases htrue : bitOf W p.1 with
  | true =>
    obtain ⟨q, hq, htest⟩ := any_eq_true.mp htrue
    obtain ⟨hqp, hqtrue⟩ := of_decide_eq_true htest
    obtain ⟨c, hc⟩ := exists_bit hevent hrows hbefore hcombination q hq
    rw [hc] at hqtrue
    have hsame := hagree.rel (fun x => equivOn_same (s.lawful x)) htyped hp hq hqp.symm
    rw [hb, hc, same_bit.mp hqtrue] at hsame
    rw [hb, same_bit.mp hsame]
  | false =>
    cases b with
    | false => exact hb
    | true =>
      have hany : bitOf W p.1 = true :=
        any_eq_true.mpr ⟨p, hp, decide_eq_true ⟨rfl, hb ▸ same_bit.mpr rfl⟩⟩
      rw [hany] at htrue
      cases htrue

lemma served_bits : s.Served := by
  intro before f after hterms W hW
  have hf : f ∈ terms := hterms ▸ mem_append_right _ mem_cons_self
  have hbefore : before ⊆ terms := hterms ▸ subset_append_left _ _
  have hfvars := hvars f (mem_cons_of_mem _ hf)
  obtain ⟨u, hu, hbindings⟩ := exists_row hrows hf ((vars f).map (bitOf W))
    (by rw [length_map, length_vars hfvars])
  have hmem : ∀ q ∈ bindings f u, q.2 = bit (bitOf W q.1) := by
    intro q hq
    rw [hbindings, map_map] at hq
    exact snd_of_mem_zip_map hq
  refine ⟨u, hu, agree_append_iff.mpr ⟨?_, ?_, ?_⟩⟩
  · exact of_decide_eq_true (mem_filter.mp hW).2
  · refine Pairwise.imp_of_mem ?_ (pairwise_of_forall (R := fun _ _ => True) (by simp))
    intro p q hp hq _ hpq
    rw [hmem p hp, hmem q hq, hpq]
    exact same_bit.mpr rfl
  · intro p hp q hq hpq
    rw [eq_bitOf hvars hevent hrows hbefore hW hp, hmem q hq, hpq]
    exact same_bit.mpr rfl

lemma matched_ne_nil (hnodup : (vars event).Nodup) {after : List Functor}
    (hterms : terms = before ++ after) : s.matched before ≠ [] := by
  induction before using reverseRecOn generalizing after with
  | nil =>
    rw [Strand.matched_nil (hvars event mem_cons_self) hnodup]
    exact cons_ne_nil _ _
  | append_singleton before f ih =>
    rw [append_assoc] at hterms
    obtain ⟨W, hW⟩ := exists_mem_of_ne_nil _ (ih hterms)
    obtain ⟨u, hu, hagree⟩ := served_bits hvars hevent hrows before f after hterms W hW
    rw [Strand.matched_concat]
    have hnext : W ++ bindings f u ∈ s.next f W :=
      mem_map_of_mem (mem_filter.mpr ⟨hu, decide_eq_true hagree⟩)
    exact ne_nil_of_mem (mem_flatMap.mpr ⟨W, hW, hnext⟩)

lemma pairwise_of_joins (h : s.Joins) (hnodup : (vars event).Nodup) {after : List Functor}
    (hterms : terms = before ++ f :: after) :
    (vars f).Pairwise fun x y => x = y → x ∈ occurring event before := by
  have hf : f ∈ terms := hterms ▸ mem_append_right _ mem_cons_self
  have hbefore : before ⊆ terms := hterms ▸ subset_append_left _ _
  have hfvars := hvars f (mem_cons_of_mem _ hf)
  by_contra hnot
  rw [pairwise_iff_getElem] at hnot
  push Not at hnot
  obtain ⟨i, j, hi, hj, hij, hsame, hnew⟩ := hnot
  obtain ⟨W, hW⟩ := exists_mem_of_ne_nil _ (matched_ne_nil hvars hevent hrows hnodup hterms)
  obtain ⟨hcombination, hagree⟩ := mem_filter.mp hW
  obtain ⟨hfst, htyped⟩ := Strand.mem_combinations hvars hbefore hcombination
  -- the row differs in the second occurrence from the one that continues the combination
  obtain ⟨u, hu, hbindings⟩ := exists_row hrows hf
    (((vars f).map (bitOf W)).set j (!bitOf W (vars f)[j]))
    (by rw [length_set, length_map, length_vars hfvars])
  have hcross : ∀ p ∈ W, ∀ q ∈ bindings f u, p.1 = q.1 → Same p.2 q.2 := by
    intro p hp q hq hpq
    rw [hbindings] at hq
    obtain ⟨k, hk⟩ := mem_iff_getElem?.mp hq
    obtain ⟨hvar, hvalue⟩ := List.getElem?_zip_eq_some.mp hk
    have hkj : k ≠ j := by
      rintro rfl
      rw [List.getElem?_eq_getElem hj, Option.some.injEq] at hvar
      apply hnew
      rw [hsame, hvar, ← hpq, ← hfst]
      exact mem_map_of_mem hp
    rw [List.getElem?_map, List.getElem?_set_ne hkj.symm, List.getElem?_map, hvar] at hvalue
    rw [eq_bitOf hvars hevent hrows hbefore hW hp, ← Option.some.inj hvalue, hpq]
    exact same_bit.mpr rfl
  have hfirst : ((vars f)[i], bit (bitOf W (vars f)[i])) ∈ bindings f u := by
    rw [hbindings]
    apply mem_of_getElem? (i := i)
    rw [List.getElem?_zip_eq_some]
    refine ⟨List.getElem?_eq_getElem hi, ?_⟩
    rw [List.getElem?_map, List.getElem?_set_ne hij.ne', List.getElem?_map,
      List.getElem?_eq_getElem hi]
    rfl
  have hsecond : ((vars f)[j], bit (!bitOf W (vars f)[j])) ∈ bindings f u := by
    rw [hbindings]
    apply mem_of_getElem? (i := j)
    rw [List.getElem?_zip_eq_some]
    refine ⟨List.getElem?_eq_getElem hj, ?_⟩
    rw [List.getElem?_map, List.getElem?_set_self (by rwa [length_map])]
    rfl
  have hdiffer : ¬ Agree Same (W ++ bindings f u) := by
    intro hall
    have htypes := htyped.append (Strand.typedBy_row hf hu)
    have hrel := hall.rel (fun x => equivOn_same (s.lawful x)) htypes
      (mem_append_right _ hfirst) (mem_append_right _ hsecond) hsame
    have heq := same_bit.mp hrel
    rw [hsame] at heq
    cases hbit : bitOf W (vars f)[j]
    · rw [hbit] at heq
      cases heq
    · rw [hbit] at heq
      cases heq
  obtain ⟨found, hperm, hlength⟩ := h.exists_length_eq hvars hnodup hterms hW
  have hle := (Strand.length_pulled found).1
  rw [hlength, hperm.length_eq] at hle
  unfold Strand.next at hle
  rw [length_map] at hle
  have hmem : u ∈ (s.rows f).filter fun u => Agree Same (W ++ bindings f u) := by
    rw [Strand.sublist_rows.eq_of_length_le hle]
    exact mem_filter.mpr ⟨hu, decide_eq_true hcross⟩
  exact hdiffer (of_decide_eq_true (mem_filter.mp hmem).2)

end Bits

/-- **Which rules join.** Take any rule with an event and table predicates without constants. Behind
each probe, whatever the event and the tables are, the tuples are the combinations that agree, with
columns that hold the values of the names, as long as every lookup finds a row: exactly if the rule
is sound. For a sound rule they are so exactly if every lookup does.
Hyps: `hvars` says that there are no constants; `harity` that a table has one number of columns -/
theorem joins_iff (ruleID : Name) (event : Functor) (terms : List Functor)
    (hvars : ∀ f ∈ event :: terms, VarsOnly f)
    (harity : ∀ f ∈ terms, ∀ g ∈ terms, f.name = g.name → f.args.length = g.args.length) :
    ((∀ s : Strand ruleID event terms, s.Served → s.Joins) ↔ Sound event terms) ∧
      (Sound event terms → ∀ s : Strand ruleID event terms, s.Joins ↔ s.Served) := by
  refine ⟨⟨fun h => ?_, fun hsound s => (s.joins_iff_served hvars hsound).mpr⟩,
    fun hsound s => s.joins_iff_served hvars hsound⟩
  intro before f after hterms
  have hevent := hvars event mem_cons_self
  have hnodup : (vars event).Nodup := by
    by_contra hnot
    rw [List.Nodup, pairwise_iff_getElem] at hnot
    push Not at hnot
    obtain ⟨i, j, hi, hj, hij, hsame⟩ := hnot
    -- an event whose two occurrences of the variable differ
    obtain ⟨s, hbits, -⟩ := exists_bitStrand ruleID hevent harity fun k => k == j
    have hdiffer : ¬ Agree Same (bindings event s.tuple) := by
      intro hagree
      have hmem : ∀ k (hk : k < (vars event).length),
          ((vars event)[k], bit (k == j)) ∈ bindings event s.tuple := by
        intro k hk
        rw [hbits]
        refine mem_map.mpr ⟨((vars event)[k], k), ?_, rfl⟩
        exact mem_zipIdx_iff_getElem?.mpr (List.getElem?_eq_getElem hk)
      have hrel := hagree.rel (fun x => equivOn_same (s.lawful x)) s.typed (hmem i hi) (hmem j hj)
        hsame
      have heq := same_bit.mp hrel
      rw [beq_self_eq_true, beq_iff_eq] at heq
      omega
    have hserved : s.Served := by
      intro before f after _ W hW
      rw [Strand.matched_eq_nil hdiffer] at hW
      cases hW
    rcases hcases : terms with _ | ⟨g, rest⟩
    · rw [hcases] at hterms
      exact absurd hterms (by simp)
    · exact hdiffer ((h s hserved).agree hcases)
  obtain ⟨s, hbits, hrows⟩ := exists_bitStrand ruleID hevent harity fun _ => false
  have hjoins := h s (served_bits (e := fun _ => false) hvars hbits hrows)
  refine ⟨hnodup, ?_,
    pairwise_of_joins (e := fun _ => false) hvars hbits hrows hjoins hnodup hterms⟩
  obtain ⟨ts, hafter, -⟩ := hjoins before f after hterms
  obtain ⟨-, p, names, -, -, hp, -⟩ := Strand.after_concat.mp hafter
  obtain ⟨x, hx, hold⟩ := Strand.exists_generateProbeElements.mp ⟨_, hp⟩
  exact ⟨x, hx, mem_namesBehind.mp hold⟩

/-! ## Examples -/

def atom (name : Name) (xs : List Name) : Functor := { name := name, args := xs.map (.var · false) }

lemma varsOnly_atom (name : Name) (xs : List Name) : VarsOnly (atom name xs) := by
  intro a ha
  obtain ⟨x, -, rfl⟩ := mem_map.mp ha
  rfl

def eXY : Functor := atom [101] [[88], [89]]

theorem joins_iff_eXY_tXZ :
    Sound eXY [atom [116] [[88], [90]]] ∧ ∃ s : Strand [] eXY [atom [116] [[88], [90]]],
      s.Served ∧ s.Joins := by
  have hsound : Sound eXY [atom [116] [[88], [90]]] := by
    intro before f after hterms
    cases before with
    | nil =>
      cases hterms
      exact ⟨by decide, ⟨[88], by decide, by decide⟩, by decide⟩
    | cons g before =>
      have hlength := congrArg List.length hterms
      simp at hlength
  have hvars : ∀ f ∈ eXY :: [atom [116] [[88], [90]]], VarsOnly f := by
    intro f hf
    rcases mem_pair.mp hf with rfl | rfl
    · exact varsOnly_atom _ _
    · exact varsOnly_atom _ _
  have harity : ∀ f ∈ [atom [116] [[88], [90]]], ∀ g ∈ [atom [116] [[88], [90]]],
      f.name = g.name → f.args.length = g.args.length := by
    intro f hf g hg _
    rw [mem_singleton.mp hf, mem_singleton.mp hg]
  obtain ⟨s, hbits, hrows⟩ := exists_bitStrand [] (hvars eXY mem_cons_self) harity fun _ => false
  have hserved := served_bits (e := fun _ => false) hvars hbits hrows
  exact ⟨hsound, s, hserved, ((joins_iff [] eXY _ hvars harity).2 hsound s).mpr hserved⟩

def emptyStrand : Strand [] eXY [atom [116] [[88], [89]]] where
  tuple := { ID := 0, fields := [.str [101], bit true, bit false] }
  table _ := (CommonTable.mk' [1]).secondaryIndex [1, 2]
  schema name := bitSchema name 2
  key _ := [1]
  types _ := Set.range Value.int64
  reached _ := Relation.ReflTransGen.single (.silent (.secondaryIndex [1, 2]))
  indexed := by
    rintro _ ⟨⟩ p hp
    rw [mem_singleton.mp hp]
    exact Or.inr (by decide)
  lawful _ := lawfulOn_int64
  size := rfl
  typed := by
    rintro p hp
    rcases mem_pair.mp hp with rfl | rfl
    · exact ⟨1, rfl⟩
    · exact ⟨0, rfl⟩
  sizes f hf u hu := by
    obtain ⟨l, hl, hfields⟩ := fields_of_mem_bitRows hu
    rw [hfields, mem_singleton.mp hf, length_cons, length_map, hl]
    rfl
  columns _ _ _ _ _ := rfl

/-- Where no row is found, the empty tuple is joined: `t(X, Y)` takes nothing out of it, and the
event passes. And the second occurrence of `Z` in `t(X, Z, Z)` is not compared with the first. -/
theorem joins_without_row :
    (emptyStrand.matched [atom [116] [[88], [89]]] = [] ∧
      ∃ t, emptyStrand.After [atom [116] [[88], [89]]] [t]) ∧
    ∃ s : Strand [] eXY [atom [116] [[88], [90], [90]]], s.Served ∧ ¬ s.Joins := by
  refine ⟨⟨rfl, _, _, rfl, rfl⟩, ?_⟩
  have hvars : ∀ f ∈ eXY :: [atom [116] [[88], [90], [90]]], VarsOnly f := by
    intro f hf
    rcases mem_pair.mp hf with rfl | rfl
    · exact varsOnly_atom _ _
    · exact varsOnly_atom _ _
  obtain ⟨s, hbits, hrows⟩ : ∃ s : Strand [] eXY [atom [116] [[88], [90], [90]]], _ ∧ _ :=
    exists_bitStrand [] (hvars eXY mem_cons_self)
    (by
      intro f hf g hg _
      rw [mem_singleton.mp hf, mem_singleton.mp hg]) fun _ => false
  refine ⟨s, served_bits (e := fun _ => false) hvars hbits hrows, fun hjoins => ?_⟩
  have hpairwise := pairwise_of_joins (e := fun _ => false) hvars hbits hrows hjoins (by decide)
    (nil_append _).symm
  exact absurd hpairwise (by decide)

end P2.Planner
