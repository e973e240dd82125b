import P2.Planner.LocalizeSound

/-!
# Localization ends

A split replaces predicates by one at the location that comes next. The number of predicates goes
down, or the one predicate moved makes the next splits join more: `weight`. The result is
`localizes`.
-/

namespace P2.Planner

open P2.Value P2.Overlog List Option

variable {tables tables' : Tables} {rule send next : Rule} {text : Expr → Name}

/-! ## Names of variables -/

def Proper (n : Name) : Prop := n ≠ [] ∧ n.head? ≠ some at'

def Named (f : Functor) : Prop :=
  ∀ arg ∈ f.args, ∀ name, Functor.varName arg = some name ∨ Functor.argLoc arg = some (at' :: name) →
    Proper name

lemma Proper.strip {n : Name} (h : Proper n) : strip n = n := if_neg h.2

lemma strip_at (n : Name) : strip (at' :: n) = n := if_pos rfl

lemma named_of_vars {f : Functor} (h : ∀ arg ∈ f.args, ∃ n b, arg = .var n b ∧ Proper n) :
    Named f := by
  intro arg harg k hk
  obtain ⟨n, b, rfl, hproper⟩ := h arg harg
  rcases hk with hk | hk
  · rw [← some_inj.mp hk]
    exact hproper
  · cases b with
    | false => cases hk
    | true =>
      have hk' := some_inj.mp hk
      rw [cons.injEq] at hk'
      rw [← hk'.2]
      exact hproper

lemma Named.getlocspec {f : Functor} (h : Named f) (hne : f.getlocspec ≠ []) :
    ∃ n, Proper n ∧ f.getlocspec = at' :: n := by
  unfold Functor.getlocspec at hne ⊢
  cases hlocs : f.args.filterMap Functor.argLoc with
  | nil =>
    rw [hlocs] at hne
    exact absurd rfl hne
  | cons loc locs =>
    cases locs with
    | cons loc' locs =>
      rw [hlocs] at hne
      exact absurd rfl hne
    | nil =>
      obtain ⟨arg, harg, hloc⟩ := mem_filterMap.mp
        (show loc ∈ f.args.filterMap Functor.argLoc by rw [hlocs]; exact mem_singleton_self _)
      have hform : ∃ n, loc = at' :: n := by
        unfold Functor.argLoc at hloc
        split at hloc
        · exact ⟨_, (some_inj.mp hloc).symm⟩
        · exact ⟨_, (some_inj.mp hloc).symm⟩
        · cases hloc
      obtain ⟨n, rfl⟩ := hform
      exact ⟨n, h arg harg n (Or.inr hloc), rfl⟩

lemma Named.fieldNames {f : Functor} (h : Named f) : ∀ n ∈ fieldNames f, Proper n := by
  intro n hn
  obtain ⟨arg, harg, hname⟩ := mem_filterMap.mp hn
  exact h arg harg n (Or.inl hname)

/-- The names collected: proper, and a location at most once. -/
def Collected (loc : Name) (names : List Name) : Prop :=
  (∀ n ∈ names, Proper n) ∧ names.countP (fieldNameEq loc) ≤ 1

lemma Collected.mergeWith {loc : Name} {names more : List Name} (h : Collected loc names)
    (hmore : ∀ n ∈ more, Proper n) : Collected loc (mergeWith names more) := by
  unfold Planner.mergeWith
  induction more generalizing names with
  | nil => exact h
  | cons n more ih =>
    rw [forall_mem_cons] at hmore
    rw [foldl_cons]
    refine ih ?_ hmore.2
    split_ifs with hnew
    · refine ⟨?_, ?_⟩
      · intro m hm
        rcases mem_append.mp hm with hm | hm
        · exact h.1 m hm
        · rw [mem_singleton.mp hm]
          exact hmore.1
      · rw [countP_append, countP_singleton]
        by_cases hloc : fieldNameEq loc n
        · -- the location was not among the names
          have hzero : names.countP (fieldNameEq loc) = 0 := by
            rw [countP_eq_zero]
            intro m hm hmloc
            unfold fieldPosition at hnew
            rw [isNone_iff_eq_none, findIdx?_eq_none_iff] at hnew
            have hmn := hnew m hm
            rw [Bool.eq_false_iff, ne_eq, fieldNameEq_iff] at hmn
            rw [fieldNameEq_iff] at hloc hmloc
            exact hmn (hmloc.symm.trans hloc)
          rw [hzero, if_pos hloc]
        · rw [if_neg hloc]
          exact h.2
    · exact h

lemma collected_scan {loc : Name} {fs rest : List Functor} {s s' : Scan} {f : Functor}
    (h : scan tables s fs = .boundary s' f rest) (hnamed : ∀ g ∈ fs, Named g)
    (hsome : ∀ names, s.names = some names → Collected loc names)
    (hnone : s.names = none → ∀ g, fs.head? = some g → Collected loc (fieldNames g)) :
    ∃ names, s'.names = some names ∧ Collected loc names := by
  have hjoin : ∀ (s : Scan) (a : Functor), Named a →
      (∀ names, s.names = some names → Collected loc names) →
      (s.names = none → Collected loc (fieldNames a)) →
      ∃ names, (s.join tables a).names = some names ∧ Collected loc names := by
    intro s a ha hsome hnone
    unfold Scan.join
    cases hs : s.names with
    | none => exact ⟨_, rfl, hnone hs⟩
    | some names => exact ⟨_, rfl, (hsome names hs).mergeWith ha.fieldNames⟩
  fun_induction scan tables s fs with
  | case1 | case2 | case4 => exact ScanEnd.noConfusion h
  | case3 s a b fs hab ih =>
    rw [forall_mem_cons] at hnamed
    obtain ⟨names, hnames, hcollected⟩ := hjoin s a hnamed.1 hsome fun h => hnone h a rfl
    refine ih h hnamed.2 (fun names' h' => ?_) (fun h' => ?_)
    · rw [hnames, some_inj] at h'
      exact h' ▸ hcollected
    · rw [hnames] at h'
      cases h'
  | case5 s a b fs hab =>
    obtain ⟨rfl, -, -⟩ := h
    exact hjoin s a (hnamed a mem_cons_self) hsome fun h => hnone h a rfl

lemma scan_ne_throws (tables : Tables) (s : Scan) {fs : List Functor} (hne : fs ≠ [])
    (hloc : ∀ f ∈ fs, f.getlocspec ≠ []) : scan tables s fs ≠ .throws := by
  fun_induction scan tables s fs with
  | case1 => exact absurd rfl hne
  | case2 | case5 => exact fun h => ScanEnd.noConfusion h
  | case3 s a b fs hab ih => exact ih (cons_ne_nil _ _) fun f hf => hloc f (mem_cons_of_mem _ hf)
  | case4 s a b fs hab hb => exact absurd hb (hloc b (by simp))

lemma getlocspec_newHead (name : Name) {n : Name} {names : List Name}
    (hnames : Collected (at' :: n) names) (hfound : names.any (fieldNameEq (at' :: n))) :
    let head : Functor :=
      { name := name, args := names.map fun m => .var m (fieldNameEq (at' :: n) m) }
    head.getlocspec = at' :: n ∧ Named head := by
  have hlocs : ∀ ns : List Name, (∀ m ∈ ns, Proper m) →
      (ns.map fun m => Expr.var m (fieldNameEq (at' :: n) m)).filterMap Functor.argLoc =
        (ns.filter (fieldNameEq (at' :: n))).map fun _ => at' :: n := by
    intro ns hns
    induction ns with
    | nil => rfl
    | cons m ns ih =>
      rw [forall_mem_cons] at hns
      rw [map_cons, filterMap_cons, ih hns.2, filter_cons]
      by_cases hm : fieldNameEq (at' :: n) m
      · have hmn : n = m := by
          rw [fieldNameEq_iff, strip_at, hns.1.strip] at hm
          exact hm
        rw [if_pos hm, map_cons, hm, ← hmn]
        rfl
      · rw [Bool.eq_false_iff.mpr hm]
        rfl
  have hone : (names.filter (fieldNameEq (at' :: n))).length = 1 := by
    rw [← countP_eq_length_filter]
    refine Nat.le_antisymm hnames.2 (countP_pos_iff.mpr ?_)
    obtain ⟨m, hm, hmn⟩ := any_eq_true.mp hfound
    exact ⟨m, hm, hmn⟩
  obtain ⟨m, hm⟩ := length_eq_one_iff.mp hone
  refine ⟨?_, ?_⟩
  · unfold Functor.getlocspec
    rw [hlocs names hnames.1, hm]
    rfl
  · refine named_of_vars fun arg harg => ?_
    obtain ⟨m', hm', rfl⟩ := mem_map.mp harg
    exact ⟨m', _, rfl, hnames.1 m' hm'⟩

/-! ## Rules with locations -/

/-- A rule with body predicates, all of them with proper variables and a location. -/
structure Located (rule : Rule) : Prop where
  ne_nil : rule.functors ≠ []
  named : ∀ f ∈ rule.functors, Named f
  getlocspec : ∀ f ∈ rule.functors, f.getlocspec ≠ []

/-- If the rule is split, the location it is sent to is an argument of the first predicate at most
once. A rule that stays as it is, or that localization gives up, is not asked for it. -/
def Once (tables : Tables) (rule : Rule) : Prop :=
  ∀ send next tables', step tables rule = .splits send next tables' →
    ∀ s f rest, scan tables { headName := rule.ruleID } (probeTerms tables rule) = .boundary s f rest →
      ∀ g, (probeTerms tables rule).head? = some g →
        (fieldNames g).countP (fieldNameEq f.getlocspec) ≤ 1

lemma functors_map_append_otherTerms (fs : List Functor) (rule : Rule) (r : Rule)
    (h : r.terms = fs.map .functor ++ otherTerms rule) : r.functors = fs := by
  unfold Rule.functors
  rw [h, filterMap_append, filterMap_map]
  have hothers : (otherTerms rule).filterMap Term.functor? = [] := by
    rw [filterMap_eq_nil_iff]
    intro term hterm
    exact isNone_iff_eq_none.mp (mem_filter.mp hterm).2
  rw [hothers, append_nil]
  exact filterMap_some

/-- **A split** at which the location is sent once: the new head is at that location, and what is left
of the rule has locations. -/
lemma Located.splits (h : Located rule) (honce : Once tables rule)
    (hstep : step tables rule = .splits send next tables') :
    ∃ run f rest, probeTerms tables rule = run ++ f :: rest ∧ run ≠ [] ∧ OneLocation run ∧
      (∀ g ∈ run, ¬ fieldNameEq g.getlocspec f.getlocspec) ∧ send.functors = run ∧
      next.functors = send.head :: f :: rest ∧ send.head.getlocspec = f.getlocspec ∧
      Located next ∧
      (tables' = tables ∨ ∃ info g, tables' = addTableInfo info tables ∧ run.head? = some g ∧
        materialized tables g) := by
  obtain ⟨s, f, rest, hscan, hsend, hnext⟩ := step_spec hstep
  obtain ⟨run, hbefore, hprobe, hne, hone, hchange⟩ := scan_spec hscan
  obtain ⟨hfound, hr, htables⟩ := addSendRule_spec hsend
  rw [show s.before = run from hbefore] at hr htables
  have hmem : ∀ g ∈ probeTerms tables rule, g ∈ rule.functors :=
    fun g hg => (probeTerms_perm tables rule).mem_iff.mp hg
  have hf : f ∈ rule.functors := hmem f (by rw [hprobe]; simp)
  obtain ⟨n, hn, hloc⟩ := (h.named f hf).getlocspec (h.getlocspec f hf)
  obtain ⟨names, hnames, hcollected⟩ := collected_scan hscan
    (fun g hg => h.named g (hmem g hg)) (fun names h' => absurd h' (some_ne_none _).symm)
    (fun _ g hg => ⟨(h.named g (hmem g (mem_of_mem_head? hg))).fieldNames,
      honce _ _ _ hstep s f rest hscan g hg⟩)
  rw [hnames, getD_some] at hfound hr
  rw [hloc] at hcollected hfound hr
  obtain ⟨hheadloc, hheadnamed⟩ := getlocspec_newHead s.headName hcollected hfound
  have hhead : send.head = { name := s.headName
                             args := names.map fun m => .var m (fieldNameEq (at' :: n) m) } := by
    rw [show send = _ from hr]
  rw [← hhead] at hheadloc hheadnamed
  have hnext' : next.functors = send.head :: f :: rest := by
    apply functors_map_append_otherTerms (send.head :: f :: rest) rule
    rw [hnext]
    rfl
  refine ⟨run, f, rest, hprobe, hne, hone, hchange, ?_, hnext', hheadloc.trans hloc.symm, ?_, ?_⟩
  · unfold Rule.functors
    rw [show send.terms = run.map Term.functor by rw [show send = _ from hr], filterMap_map]
    exact filterMap_some
  · have hrest : ∀ g ∈ f :: rest, g ∈ rule.functors :=
      fun g hg => hmem g (by rw [hprobe]; exact mem_append_right _ hg)
    refine ⟨hnext' ▸ cons_ne_nil _ _, ?_, ?_⟩
    · rw [hnext', forall_mem_cons]
      exact ⟨hheadnamed, fun g hg => h.named g (hrest g hg)⟩
    · rw [hnext', forall_mem_cons]
      exact ⟨by rw [hheadloc]; exact cons_ne_nil _ _, fun g hg => h.getlocspec g (hrest g hg)⟩
  · refine htables.imp_right ?_
    rintro ⟨info, htables, hsome⟩
    cases hhead : run.head? with
    | none =>
      rw [hhead] at hsome
      cases hsome
    | some g =>
      rw [hhead] at hsome
      exact ⟨info, g, htables, rfl, hsome⟩

/-! ## The measure -/

def firstSame : List Functor → Bool
  | f :: g :: _ => fieldNameEq f.getlocspec g.getlocspec
  | _ => true

def weight (tables : Tables) (rule : Rule) : ℕ :=
  if firstSame (probeTerms tables rule) then 0
  else 1 + 2 * (events tables rule).length + if firstSame (events tables rule) then 0 else 1

lemma materialized_addTableInfo {info : TableInfo} {f : Functor} (h : materialized tables f) :
    materialized (addTableInfo info tables) f := by
  unfold materialized getTableInfo addTableInfo at *
  split
  · exact h
  · rw [List.find?_append, Option.isSome_or, h]
    rfl

lemma probeTerms_next {f : Functor} (evs : List Functor) {mats : List Functor}
    (hnext : next.functors = f :: (evs ++ mats)) (hevs : ∀ g ∈ evs, ¬ materialized tables g)
    (hmats : ∀ g ∈ mats, materialized tables g) :
    events tables next = (if materialized tables f then evs else f :: evs) ∧
      probeTerms tables next = evs.reverse ++ f :: mats := by
  have hfilter : (evs ++ mats).filter (fun g => !materialized tables g) = evs := by
    rw [filter_append, filter_eq_self.mpr, filter_eq_nil_iff.mpr, append_nil]
    · exact fun g hg => by simp [hmats g hg]
    · exact fun g hg => by simp [hevs g hg]
  have hfilter' : (evs ++ mats).filter (materialized tables) = mats := by
    rw [filter_append, filter_eq_nil_iff.mpr, filter_eq_self.mpr, nil_append]
    · exact hmats
    · exact hevs
  have hevents : events tables next = if materialized tables f then evs else f :: evs := by
    unfold events
    rw [hnext, filter_cons, hfilter]
    by_cases hf : materialized tables f <;> simp [hf]
  rw [probeTerms_eq, hevents, hnext, filter_cons, hfilter']
  by_cases hf : materialized tables f <;> simp [hf]

lemma firstSame_append {fs gs : List Functor} (h : 2 ≤ fs.length) :
    firstSame (fs ++ gs) = firstSame fs := by
  rcases fs with _ | ⟨f, _ | ⟨g, fs⟩⟩
  · cases h
  · exact absurd h (by simp)
  · rfl

lemma weight_lt {f₀ f head : Functor} {rest : List Functor}
    (hprobe : probeTerms tables rule = f₀ :: f :: rest)
    (hchange : ¬ fieldNameEq f₀.getlocspec f.getlocspec)
    (hnext : next.functors = head :: f :: rest) (hloc : head.getlocspec = f.getlocspec)
    (htables : tables' = tables ∨
      ∃ info, tables' = addTableInfo info tables ∧ materialized tables f₀) :
    weight tables' next < weight tables rule := by
  have hheadSame : fieldNameEq head.getlocspec f.getlocspec := by rw [hloc, fieldNameEq_iff]
  have hweight : weight tables rule =
      1 + 2 * (events tables rule).length + if firstSame (events tables rule) then 0 else 1 := by
    unfold weight
    rw [hprobe, if_neg]
    exact hchange
  have hdone (hsame : firstSame (probeTerms tables' next)) :
      weight tables' next < weight tables rule := by
    unfold weight at hweight ⊢
    rw [if_pos hsame, hweight]
    omega
  have horder := probeTerms_eq tables rule
  rw [hprobe] at horder
  have hmats : ∀ g ∈ rule.functors.filter (materialized tables), materialized tables g :=
    fun g hg => (mem_filter.mp hg).2
  have hevs : ∀ g ∈ (events tables rule).reverse, ¬ materialized tables g := by
    intro g hg
    have := (mem_filter.mp (mem_reverse.mp hg)).2
    simpa using this
  cases hrev : (events tables rule).reverse with
  | nil =>
    -- no events: the order stays, and the new predicate is next to the one it was sent to
    rw [hrev, nil_append] at horder
    have hmats' : ∀ g ∈ f :: rest, materialized tables' g := by
      intro g hg
      have hg' := hmats g (horder ▸ mem_cons_of_mem _ hg)
      rcases htables with rfl | ⟨info, rfl, -⟩
      · exact hg'
      · exact materialized_addTableInfo hg'
    obtain ⟨-, hprobe'⟩ := probeTerms_next [] hnext (forall_mem_nil _)
      hmats'
    exact hdone (hprobe' ▸ hheadSame)
  | cons f₁ evs =>
    rw [hrev, cons_append, cons.injEq] at horder
    obtain ⟨rfl, horder⟩ := horder
    have hf₀ : ¬ materialized tables f₀ := hevs f₀ (by rw [hrev]; exact mem_cons_self)
    have htables' : tables' = tables := by
      rcases htables with rfl | ⟨info, -, hmat⟩
      · rfl
      · exact absurd hmat hf₀
    subst htables'
    rw [horder] at hnext
    obtain ⟨hevents', hprobe'⟩ := probeTerms_next evs hnext
      (fun g hg => hevs g (by rw [hrev]; exact mem_cons_of_mem _ hg)) hmats
    have hlen : (events tables' rule).length = evs.length + 1 := by
      rw [← length_reverse, hrev, length_cons]
    rcases evs with _ | ⟨g, _ | ⟨g', evs⟩⟩
    · apply hdone
      rw [hprobe', ← nil_append (rule.functors.filter _), ← horder]
      exact hheadSame
    · rw [cons_append, cons.injEq] at horder
      apply hdone
      rw [hprobe']
      rw [fieldNameEq_iff] at hheadSame
      show fieldNameEq g.getlocspec head.getlocspec
      rw [fieldNameEq_iff, ← horder.1]
      exact hheadSame.symm
    · obtain ⟨rfl, -⟩ := horder
      -- the other end of the events comes to the front
      have hsame : firstSame (probeTerms tables' next) = firstSame (events tables' rule) := by
        rw [hprobe', firstSame_append (by simp), ← reverse_reverse (events tables' rule),
          hrev, reverse_cons (a := f₀), firstSame_append (by simp)]
      unfold weight at hweight ⊢
      rw [hweight, hsame]
      cases hfirst : firstSame (events tables' rule) with
      | true =>
        rw [if_pos rfl]
        omega
      | false =>
        rw [if_neg Bool.false_ne_true, if_neg Bool.false_ne_true, hevents', hlen]
        by_cases hmat : materialized tables' head
        · rw [if_pos hmat]
          split_ifs <;> simp only [length_cons] <;> omega
        · rw [if_neg hmat, if_pos (show firstSame (head :: f :: g' :: evs) from hheadSame)]
          simp only [length_cons]
          omega

/-! ## The recursion -/

inductive Reaches : Tables → Rule → Tables → Rule → Prop where
  | refl {tables : Tables} {rule : Rule} : Reaches tables rule tables rule
  | split {tables tables₁ tables' : Tables} {rule rule' send next : Rule} :
      step tables rule = .splits send next tables₁ → Reaches tables₁ next tables' rule' →
      Reaches tables rule tables' rule'

def SameLocspec (rule : Rule) : Prop :=
  ∀ f ∈ rule.functors, ∀ g ∈ rule.functors, f.getlocspec = g.getlocspec

/-- A localization that exits or ends with localized rules besides those that were there. -/
def Ends (text : Expr → Name) (tables : Tables) (rules : List Rule) (rule : Rule) : Prop :=
  ∃ calls, (∃ why, rewriteRule text calls tables rules rule = .exit why) ∨
    ∃ rules' tables', rewriteRule text calls tables rules rule = .done rules' tables' ∧
      ∀ r ∈ rules', r ∈ rules ∨ SameLocspec r

lemma sameLocspec_of_oneLocation {fs : List Functor} (hone : OneLocation fs)
    (hnamed : ∀ f ∈ fs, Named f) (hloc : ∀ f ∈ fs, f.getlocspec ≠ []) {r : Rule}
    (hr : ∀ f ∈ r.functors, f ∈ fs) : SameLocspec r := by
  intro f hf g hg
  obtain ⟨n, -, hn⟩ := (hnamed f (hr f hf)).getlocspec (hloc f (hr f hf))
  obtain ⟨m, -, hm⟩ := (hnamed g (hr g hg)).getlocspec (hloc g (hr g hg))
  have hsame := hone f (hr f hf) g (hr g hg)
  rw [fieldNameEq_iff, hn, hm, strip_at, strip_at] at hsame
  rw [hn, hm, hsame]

lemma mem_add_rule {rules : List Rule} {r r' : Rule} (h : r ∈ add_rule text rules r') :
    r ∈ rules ∨ r = r' := by
  unfold add_rule at h
  split_ifs at h
  · exact Or.inl h
  · rw [mem_append, mem_singleton] at h
    exact h

lemma Ends.splits (hstep : step tables rule = .splits send next tables')
    (hsend : SameLocspec send) {rules : List Rule}
    (h : Ends text tables' (add_rule text rules send) next) : Ends text tables rules rule := by
  obtain ⟨calls, hends⟩ := h
  have hcall : rewriteRule text (calls + 1) tables rules rule =
      rewriteRule text calls tables' (add_rule text rules send) next := by
    rw [rewriteRule, hstep]
  refine ⟨calls + 1, ?_⟩
  rw [hcall]
  refine hends.imp_right ?_
  rintro ⟨rules', tables₁, hdone, hrules⟩
  refine ⟨rules', tables₁, hdone, fun r hr => ?_⟩
  rcases hrules r hr with hr | hr
  · rcases mem_add_rule hr with hr | rfl
    · exact Or.inl hr
    · exact Or.inr hsend
  · exact Or.inr hr

lemma Located.step_ne_throws (h : Located rule) : step tables rule ≠ .throws := by
  intro hstep
  have hperm := probeTerms_perm tables rule
  have hscan := scan_ne_throws tables { headName := rule.ruleID }
    (fun hnil => h.ne_nil (hnil ▸ hperm).nil_eq.symm)
    (fun f hf => h.getlocspec f (hperm.mem_iff.mp hf))
  unfold step at hstep
  split at hstep
  · exact Step.noConfusion hstep
  · exact hscan ‹_›
  · split_ifs at hstep
    split at hstep <;> exact Step.noConfusion hstep

lemma Located.ends (n w : ℕ) (h : Located rule) (hn : rule.functors.length = n)
    (hw : weight tables rule = w)
    (honce : ∀ tables' rule', Reaches tables rule tables' rule' → Once tables' rule')
    (rules : List Rule) : Ends text tables rules rule := by
  induction n using Nat.strong_induction_on generalizing w tables rule rules with
  | _ n ihn =>
  induction w using Nat.strong_induction_on generalizing tables rule rules with
  | _ w ihw =>
  cases hstep : step tables rule with
  | stays =>
    refine ⟨1, Or.inr ⟨_, _, by rw [rewriteRule, hstep], fun r hr => ?_⟩⟩
    refine (mem_add_rule hr).imp_right ?_
    rintro rfl
    exact sameLocspec_of_oneLocation (step_eq_stays_iff.mp hstep).2 h.named h.getlocspec
      fun f hf => hf
  | exits why => exact ⟨1, Or.inl ⟨why, by rw [rewriteRule, hstep]⟩⟩
  | throws => exact absurd hstep h.step_ne_throws
  | splits send next tables' =>
    obtain ⟨run, f, rest, hprobe, hne, hone, hchange, hsend, hnext, hloc, hlocated, htables⟩ :=
      h.splits (honce tables rule .refl) hstep
    have hlen : run.length + (rest.length + 1) = n := by
      rw [← hn, ← (probeTerms_perm tables rule).length_eq, hprobe, length_append, length_cons]
    have hlen' : next.functors.length = rest.length + 2 := by
      rw [hnext, length_cons, length_cons]
    have hsame : SameLocspec send := by
      have hmem : ∀ g ∈ run, g ∈ rule.functors := fun g hg =>
        (probeTerms_perm tables rule).mem_iff.mp (hprobe ▸ mem_append_left _ hg)
      exact sameLocspec_of_oneLocation hone (fun g hg => h.named g (hmem g hg))
        (fun g hg => h.getlocspec g (hmem g hg)) fun g hg => hsend ▸ hg
    have honce' : ∀ tables₁ rule₁, Reaches tables' next tables₁ rule₁ → Once tables₁ rule₁ :=
      fun tables₁ rule₁ hr => honce tables₁ rule₁ (.split hstep hr)
    refine Ends.splits hstep hsame ?_
    rcases run with _ | ⟨f₀, _ | ⟨f₁, run⟩⟩
    · exact absurd rfl hne
    · refine ihw _ ?_ hlocated (by rw [hlen', ← hlen]; simp; omega) rfl honce' _
      rw [← hw]
      refine weight_lt hprobe (hchange f₀ mem_cons_self) hnext hloc (htables.imp_right ?_)
      rintro ⟨info, g, htables, hg, hmat⟩
      rw [head?_cons, some_inj] at hg
      exact ⟨info, htables, hg ▸ hmat⟩
    · exact ihn _ (by rw [hlen', ← hlen]; simp only [length_cons]; omega) _ hlocated rfl rfl
        honce' _

/-! ## A condition on the rule itself -/

/-- No variable that is a location in the rule is an argument of one of its predicates more than once. -/
def Distinct (rule : Rule) : Prop :=
  ∀ f ∈ rule.functors, ∀ g ∈ rule.functors, (fieldNames g).countP (fieldNameEq f.getlocspec) ≤ 1

lemma Distinct.once (h : Distinct rule) : Once tables rule := by
  intro _ _ _ _ s f rest hscan g hg
  obtain ⟨run, -, hprobe, -⟩ := scan_spec hscan
  have hmem : ∀ f ∈ probeTerms tables rule, f ∈ rule.functors :=
    fun f hf => (probeTerms_perm tables rule).mem_iff.mp hf
  exact h f (hmem f (by rw [hprobe]; simp)) g (hmem g (mem_of_mem_head? hg))

lemma Distinct.splits (h : Distinct rule) (hlocated : Located rule)
    (hstep : step tables rule = .splits send next tables') : Distinct next := by
  obtain ⟨run, f, rest, hprobe, -, -, -, -, hnext, hloc, -⟩ := hlocated.splits h.once hstep
  obtain ⟨s, f', rest', hscan, hsend, -⟩ := step_spec hstep
  obtain ⟨-, hr, -⟩ := addSendRule_spec hsend
  have hmem : ∀ g ∈ probeTerms tables rule, g ∈ rule.functors :=
    fun g hg => (probeTerms_perm tables rule).mem_iff.mp hg
  have hrest : ∀ g ∈ f :: rest, g ∈ rule.functors :=
    fun g hg => hmem g (by rw [hprobe]; exact mem_append_right _ hg)
  -- locations are those of the rule
  have hlocs : ∀ a ∈ next.functors, ∃ b ∈ rule.functors, a.getlocspec = b.getlocspec := by
    rw [hnext, forall_mem_cons]
    exact ⟨⟨f, hrest f mem_cons_self, hloc⟩, fun a ha => ⟨a, hrest a ha, rfl⟩⟩
  intro a ha g hg
  obtain ⟨b, hb, hab⟩ := hlocs a ha
  rw [hab]
  rw [hnext] at hg
  rcases mem_cons.mp hg with rfl | hg
  · obtain ⟨names, hnames, hcollected⟩ := collected_scan hscan
      (fun g hg => hlocated.named g (hmem g hg))
      (fun names h' => absurd h' (some_ne_none _).symm)
      (fun _ g hg => ⟨(hlocated.named g (hmem g (mem_of_mem_head? hg))).fieldNames,
        h b hb g (hmem g (mem_of_mem_head? hg))⟩)
    have hfields : fieldNames send.head = names := by
      rw [show send = _ from hr, hnames]
      unfold fieldNames
      rw [filterMap_map]
      exact filterMap_some
    rw [hfields]
    exact hcollected.2
  · exact h b hb g (hrest g hg)

lemma Distinct.once_of_reaches (h : Distinct rule) (hlocated : Located rule) {rule' : Rule}
    (hreaches : Reaches tables rule tables' rule') : Once tables' rule' := by
  induction hreaches with
  | refl => exact h.once
  | split hstep _ ih =>
    obtain ⟨-, -, -, -, -, -, -, -, -, -, hnext, -⟩ := hlocated.splits h.once hstep
    exact ih (h.splits hlocated hstep) hnext

/-- **Localization ends and localizes.** For a rule with body predicates that all have a location,
where no split that is made sends to a location that is an argument of the first predicate more than
once, the localization exits or ends with rules in each of which all body predicates carry the same location
specifier.
Hyps: variables are named as the lexer names them; the condition on splits -/
theorem localizes (text : Expr → Name) (tables : Tables) (rule : Rule) (h : Located rule)
    (honce : ∀ tables' rule', Reaches tables rule tables' rule' → Once tables' rule') :
    ∃ calls, (∃ why, rewriteRule text calls tables [] rule = .exit why) ∨
      ∃ rules tables', rewriteRule text calls tables [] rule = .done rules tables' ∧
        ∀ r ∈ rules, ∀ f ∈ r.functors, ∀ g ∈ r.functors, f.getlocspec = g.getlocspec := by
  obtain ⟨calls, hends⟩ := h.ends _ _ rfl rfl honce []
  refine ⟨calls, hends.imp_right ?_⟩
  rintro ⟨rules, tables', hdone, hrules⟩
  exact ⟨rules, tables', hdone, fun r hr => (hrules r hr).resolve_left not_mem_nil⟩

theorem localizes_sampleRule :
    Located (sampleRule false) ∧ Distinct (sampleRule false) ∧
      ∃ calls, (∃ why, rewriteRule (fun _ => []) calls sampleTables [] (sampleRule false) = .exit why) ∨
        ∃ rules tables', rewriteRule (fun _ => []) calls sampleTables [] (sampleRule false) =
            .done rules tables' ∧
          ∀ r ∈ rules, ∀ f ∈ r.functors, ∀ g ∈ r.functors, f.getlocspec = g.getlocspec := by
  have hproper : Proper [65] ∧ Proper [66] ∧ Proper [67] := by
    refine ⟨⟨?_, ?_⟩, ⟨?_, ?_⟩, ⟨?_, ?_⟩⟩ <;> decide
  have hlocated : Located (sampleRule false) := by
    refine ⟨cons_ne_nil _ _, ?_, ?_⟩
    · refine forall_mem_cons.mpr ⟨named_of_vars ?_, forall_mem_singleton.mpr
        (named_of_vars ?_)⟩
      · exact forall_mem_cons.mpr ⟨⟨_, _, rfl, hproper.1⟩,
          forall_mem_singleton.mpr ⟨_, _, rfl, hproper.2.1⟩⟩
      · exact forall_mem_cons.mpr ⟨⟨_, _, rfl, hproper.2.1⟩,
          forall_mem_singleton.mpr ⟨_, _, rfl, hproper.2.2⟩⟩
    · exact forall_mem_cons.mpr ⟨cons_ne_nil _ _,
        forall_mem_singleton.mpr (cons_ne_nil _ _)⟩
  have hdistinct : Distinct (sampleRule false) := by
    refine forall_mem_cons.mpr ⟨?_, forall_mem_singleton.mpr ?_⟩
    · exact forall_mem_cons.mpr ⟨by decide, forall_mem_singleton.mpr (by decide)⟩
    · exact forall_mem_cons.mpr ⟨by decide, forall_mem_singleton.mpr (by decide)⟩
  exact ⟨hlocated, hdistinct, localizes (fun _ => []) sampleTables (sampleRule false) hlocated
    fun tables' rule' hr => hdistinct.once_of_reaches hlocated hr⟩

/-! ## A repeated location -/

def sampleQ : Functor := { name := [113], args := [.var [66] true, .var [67] false] }

def repeatedRule (ruleID : Name) (f : Functor) : Rule where
  ruleID := ruleID
  head := { name := [104], args := [.var [66] true, .var [67] false] }
  deleteFlag := false
  terms := [.functor f, .functor sampleQ]

/-- A predicate with the arguments `A, B, B` is sent on to `B` under another name, and the rest of the
rule has the same shape. -/
lemma step_repeatedRule {f : Functor} (ruleID : Name) (hargs : fieldNames f = [[65], [66], [66]])
    (hloc : f.getlocspec = [] ∨ f.getlocspec = [64, 65]) (hq : materialized tables sampleQ) :
    ∃ send tables' name, step tables (repeatedRule ruleID f) = .splits send
        (repeatedRule (ruleID ++ local2)
          { name := name, args := [.var [65] false, .var [66] true, .var [66] true] }) tables' ∧
      materialized tables' sampleQ := by
  have hprobe : probeTerms tables (repeatedRule ruleID f) = [f, sampleQ] := by
    show foldl _ [] [f, sampleQ] = _
    by_cases hf : materialized tables f <;> simp [hf, hq]
  have hchange : fieldNameEq f.getlocspec sampleQ.getlocspec = false := by
    rcases hloc with hloc | hloc <;> rw [hloc] <;> rfl
  have hscan : ∃ s, scan tables { headName := ruleID } [f, sampleQ] = .boundary s sampleQ [] ∧
      s.names = some [[65], [66], [66]] := by
    unfold scan
    rw [hchange]
    refine ⟨_, rfl, ?_⟩
    show some (fieldNames f) = _
    rw [hargs]
  obtain ⟨s, hscan, hnames⟩ := hscan
  have hsend : ∃ r, addSendRule tables (repeatedRule ruleID f) s.before s.headName s.before.head?
      sampleQ.getlocspec s.minLifetime [[65], [66], [66]] = some r := by
    unfold addSendRule
    rw [if_pos (by decide : [[65], [66], [66]].any (fieldNameEq sampleQ.getlocspec) = true)]
    split
    · split_ifs <;> exact ⟨_, rfl⟩
    · exact ⟨_, rfl⟩
  obtain ⟨⟨send, tables'⟩, hsend⟩ := hsend
  obtain ⟨-, hr, htables⟩ := addSendRule_spec hsend
  refine ⟨send, tables', s.headName, ?_, ?_⟩
  · unfold step
    rw [hprobe, show ({ headName := (repeatedRule ruleID f).ruleID } : Scan) = { headName := ruleID }
      from rfl, hscan]
    simp only [hnames, getD_some, hsend]
    rw [if_neg (by rintro ⟨-, -, hagg⟩; cases hagg), show send = _ from hr]
    rfl
  · rcases htables with htables | ⟨info, htables, -⟩
    · rw [show tables' = tables from htables]
      exact hq
    · rw [show tables' = _ from htables]
      exact materialized_addTableInfo hq

lemma rewriteRule_repeatedRule (calls : ℕ) {f : Functor} (ruleID : Name)
    (hargs : fieldNames f = [[65], [66], [66]])
    (hloc : f.getlocspec = [] ∨ f.getlocspec = [64, 65]) (hq : materialized tables sampleQ)
    (rules : List Rule) :
    rewriteRule text calls tables rules (repeatedRule ruleID f) = .outOfCalls := by
  induction calls generalizing tables f ruleID rules with
  | zero => rfl
  | succ calls ih =>
    obtain ⟨send, tables', name, hstep, hq'⟩ := step_repeatedRule ruleID hargs hloc hq
    rw [rewriteRule, hstep]
    exact ih _ rfl (Or.inl rfl) hq' _

/-- For the rule `r h(@B, C) :- p(@A, B, B), q(@B, C)` over tables `p` and `q` no number of calls
suffices. -/
theorem repeated_location_never_ends :
    ¬ ∃ calls, rewriteRule (fun _ => []) calls sampleTables []
      (repeatedRule [114]
        { name := [112], args := [.var [65] true, .var [66] false, .var [66] false] }) ≠
      .outOfCalls := by
  rintro ⟨calls, hcalls⟩
  exact hcalls (rewriteRule_repeatedRule calls [114] rfl (Or.inr rfl) rfl [])

end P2.Planner
