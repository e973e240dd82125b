import Mathlib.Data.List.Perm.Basic
import P2.Planner.Localize

/-!
# What localization preserves

`localized_iff`, through what stays the same at each split.
-/

namespace P2.Planner

open P2.Value P2.Overlog List

/-! ## Names -/

def strip (n : Name) : Name := if n.head? = some at' then n.tail else n

lemma fieldNameEq_iff {n₁ n₂ : Name} : fieldNameEq n₁ n₂ ↔ strip n₁ = strip n₂ := by
  unfold fieldNameEq strip
  have hcons : ∀ n : Name, n.head? = some at' → n = at' :: n.tail := by
    intro n hn
    cases n with
    | nil => cases hn
    | cons c n => rw [head?_cons, Option.some_inj] at hn; rw [hn]; rfl
  by_cases h₁ : n₁.head? = some at' <;> by_cases h₂ : n₂.head? = some at'
  · simp only [h₁, h₂, and_self, true_or, if_true, decide_eq_true_eq]
    constructor
    · exact fun h => congrArg tail h
    · intro h
      rw [hcons n₁ h₁, hcons n₂ h₂, h]
  · simp [h₁, h₂]
  · simp only [h₁, h₂, false_and, not_true_eq_false, and_false, or_self, if_false, if_true,
      ne_eq, not_false_eq_true, decide_eq_true_eq]
    exact eq_comm
  · simp [h₁, h₂]

def OneLocation (fs : List Functor) : Prop :=
  ∀ f ∈ fs, ∀ g ∈ fs, fieldNameEq f.getlocspec g.getlocspec

lemma oneLocation_cons_cons {f g : Functor} {fs : List Functor} :
    OneLocation (f :: g :: fs) ↔
      fieldNameEq f.getlocspec g.getlocspec ∧ OneLocation (g :: fs) := by
  unfold OneLocation
  simp only [fieldNameEq_iff]
  constructor
  · intro h
    exact ⟨h f (by simp) g (by simp), fun a ha b hb => h a (by simp_all) b (by simp_all)⟩
  · rintro ⟨hfg, h⟩ a ha b hb
    have hg : ∀ c ∈ f :: g :: fs, strip c.getlocspec = strip g.getlocspec := by
      intro c hc
      rcases mem_cons.mp hc with rfl | hc
      · exact hfg
      · exact h c hc g mem_cons_self
    rw [hg a ha, hg b hb]

lemma OneLocation.perm {fs gs : List Functor} (h : OneLocation fs) (hperm : fs.Perm gs) :
    OneLocation gs :=
  fun f hf g hg => h f (hperm.mem_iff.mpr hf) g (hperm.mem_iff.mpr hg)

/-! ## One split -/

variable {tables tables' : Tables} {rule send next : Rule} {text : Expr → Name}

lemma scan_spec {fs rest : List Functor} {s s' : Scan} {f : Functor}
    (h : scan tables s fs = .boundary s' f rest) :
    ∃ run, s'.before = s.before ++ run ∧ fs = run ++ f :: rest ∧ run ≠ [] ∧ OneLocation run ∧
      ∀ g ∈ run, ¬ fieldNameEq g.getlocspec f.getlocspec := by
  fun_induction scan tables s fs with
  | case1 | case2 | case4 => exact ScanEnd.noConfusion h
  | case3 s a b fs hab ih =>
    obtain ⟨run, hbefore, hfs, hne, hone, hchange⟩ := ih h
    obtain ⟨c, run, rfl⟩ := exists_cons_of_ne_nil hne
    rw [cons_append, cons.injEq] at hfs
    obtain ⟨rfl, hfs⟩ := hfs
    refine ⟨a :: b :: run, ?_, by rw [hfs]; rfl, cons_ne_nil _ _,
      oneLocation_cons_cons.mpr ⟨hab, hone⟩, ?_⟩
    · rw [hbefore]
      exact append_assoc _ [a] _
    · intro g hg
      rcases mem_cons.mp hg with rfl | hg
      · have hb := hchange b mem_cons_self
        rw [fieldNameEq_iff] at hab hb ⊢
        rw [hab]
        exact hb
      · exact hchange g hg
  | case5 s a b fs hab =>
    obtain ⟨rfl, rfl, rfl⟩ := h
    refine ⟨[a], rfl, rfl, cons_ne_nil _ _, ?_, ?_⟩
    · intro f hf g hg
      rw [mem_singleton.mp hf, mem_singleton.mp hg, fieldNameEq_iff]
    · intro g hg
      rw [mem_singleton.mp hg]
      exact hab

lemma scan_eq_noBoundary_iff {fs : List Functor} {s : Scan} :
    scan tables s fs = .noBoundary ↔ fs ≠ [] ∧ OneLocation fs := by
  fun_induction scan tables s fs with
  | case1 => exact ⟨fun h => ScanEnd.noConfusion h, fun h => absurd rfl h.1⟩
  | case2 =>
    refine ⟨fun _ => ⟨cons_ne_nil _ _, fun f hf g hg => ?_⟩, fun _ => rfl⟩
    rw [mem_singleton.mp hf, mem_singleton.mp hg, fieldNameEq_iff]
  | case3 s a b fs hab ih =>
    rw [ih, oneLocation_cons_cons]
    simp [hab]
  | case4 _ _ _ _ hab | case5 _ _ _ _ hab =>
    rw [oneLocation_cons_cons]
    exact ⟨fun h => ScanEnd.noConfusion h, fun h => absurd h.2.1 hab⟩

def events (tables : Tables) (rule : Rule) : List Functor :=
  rule.functors.filter fun f => !materialized tables f

lemma probeTerms_eq (tables : Tables) (rule : Rule) :
    probeTerms tables rule =
      (events tables rule).reverse ++ rule.functors.filter (materialized tables) := by
  unfold probeTerms events
  suffices h : ∀ fs evs mats : List Functor, (fs.foldl (fun probe f =>
      if materialized tables f then probe ++ [f] else f :: probe) (evs ++ mats)) =
      (fs.filter fun f => !materialized tables f).reverse ++ evs ++
        (mats ++ fs.filter (materialized tables)) by
    simpa using h rule.functors [] []
  intro fs
  induction fs with
  | nil => exact fun evs mats => by simp
  | cons f fs ih =>
    intro evs mats
    rw [foldl_cons]
    by_cases hf : materialized tables f
    · rw [if_pos hf, append_assoc, ih evs (mats ++ [f])]
      simp [hf]
    · rw [if_neg hf, ← cons_append, ih (f :: evs) mats]
      simp [hf]

lemma probeTerms_perm (tables : Tables) (rule : Rule) :
    (probeTerms tables rule).Perm rule.functors := by
  rw [probeTerms_eq]
  refine ((reverse_perm _).append_right _).trans (perm_append_comm.trans ?_)
  exact filter_append_perm _ _

lemma terms_perm (rule : Rule) :
    (rule.functors.map Term.functor ++ otherTerms rule).Perm rule.terms := by
  unfold Rule.functors otherTerms
  induction rule.terms with
  | nil => exact Perm.nil
  | cons term terms ih =>
    cases term with
    | functor f => exact ih.cons _
    | assign var e => exact perm_middle.trans (ih.cons _)
    | select e => exact perm_middle.trans (ih.cons _)

lemma addSendRule_spec {newTerms : List Functor} {newFunctorName loc : Name}
    {functor : Option Functor} {minLifetime : TimeRep} {names : List Name} {r : Rule × Tables}
    (h : addSendRule tables rule newTerms newFunctorName functor loc minLifetime names = some r) :
    names.any (fieldNameEq loc) ∧
      r.1 = { ruleID := rule.ruleID ++ local1
              head :=
                { name := newFunctorName
                  args := names.map fun name => .var name (fieldNameEq loc name) }
              deleteFlag := false
              terms := newTerms.map Term.functor } ∧
      (r.2 = tables ∨ ∃ info, r.2 = addTableInfo info tables ∧
        (functor.bind fun f => getTableInfo tables f.name).isSome) := by
  unfold addSendRule at h
  by_cases hfound : names.any (fieldNameEq loc)
  · rw [if_pos hfound] at h
    refine ⟨hfound, ?_⟩
    cases hinfo : functor.bind fun f => getTableInfo tables f.name with
    | none =>
      rw [hinfo] at h
      rw [← Option.some_inj.mp h]
      exact ⟨rfl, Or.inl rfl⟩
    | some info =>
      rw [hinfo] at h
      by_cases hzero : minLifetime ≠ .ticks 0
      · simp only [hzero, if_true, ne_eq, not_false_eq_true] at h
        rw [← Option.some_inj.mp h]
        exact ⟨rfl, Or.inr ⟨_, rfl, rfl⟩⟩
      · simp only [hzero, if_false] at h
        rw [← Option.some_inj.mp h]
        exact ⟨rfl, Or.inl rfl⟩
  · rw [if_neg hfound] at h
    cases h

lemma step_spec (h : step tables rule = .splits send next tables') :
    ∃ s f rest,
      scan tables { headName := rule.ruleID } (probeTerms tables rule) = .boundary s f rest ∧
      addSendRule tables rule s.before s.headName s.before.head? f.getlocspec s.minLifetime
        (s.names.getD []) = some (send, tables') ∧
      next = { ruleID := rule.ruleID ++ local2, head := rule.head, deleteFlag := false
               terms := .functor send.head :: (f :: rest).map .functor ++ otherTerms rule } := by
  unfold step at h
  cases hscan : scan tables { headName := rule.ruleID } (probeTerms tables rule) with
  | noBoundary => rw [hscan] at h; exact Step.noConfusion h
  | throws => rw [hscan] at h; exact Step.noConfusion h
  | boundary s f rest =>
    rw [hscan] at h
    simp only at h
    split_ifs at h
    cases hsend : addSendRule tables rule s.before s.headName s.before.head? f.getlocspec
        s.minLifetime (s.names.getD []) with
    | none => rw [hsend] at h; exact Step.noConfusion h
    | some r =>
      rw [hsend] at h
      obtain ⟨rfl, rfl, rfl⟩ := h
      exact ⟨s, f, rest, rfl, hsend, rfl⟩

lemma step_eq_stays_iff : step tables rule = .stays ↔ rule.functors ≠ [] ∧ OneLocation rule.functors := by
  have hperm := probeTerms_perm tables rule
  have hscan : scan tables { headName := rule.ruleID } (probeTerms tables rule) = .noBoundary ↔
      rule.functors ≠ [] ∧ OneLocation rule.functors := by
    rw [scan_eq_noBoundary_iff]
    refine and_congr (not_congr ?_) ⟨fun h => h.perm hperm, fun h => h.perm hperm.symm⟩
    exact ⟨fun h => (h ▸ hperm).nil_eq.symm, fun h => (h ▸ hperm).eq_nil⟩
  rw [← hscan]
  unfold step
  constructor
  · intro h
    cases hend : scan tables { headName := rule.ruleID } (probeTerms tables rule) with
    | noBoundary => rfl
    | throws => rw [hend] at h; exact Step.noConfusion h
    | boundary s f rest =>
      rw [hend] at h
      simp only at h
      split_ifs at h
      split at h <;> exact Step.noConfusion h
  · intro h
    rw [h]

/-! ## Rules unfold -/

/-- The intermediate predicates of a body replaced, from the last rule that sends to the first: one
occurrence of the head of a rule that sends goes, its body comes in. -/
noncomputable def unfold (sends : List Rule) (terms : List Term) : List Term :=
  open Classical in
  sends.foldr (fun send terms => send.terms ++ terms.erase (.functor send.head)) terms

lemma unfold_step (h : step tables rule = .splits send next tables') :
    (unfold [send] next.terms).Perm rule.terms := by
  obtain ⟨s, f, rest, hscan, hsend, rfl⟩ := step_spec h
  obtain ⟨run, hbefore, hprobe, -⟩ := scan_spec hscan
  obtain ⟨-, hr, -⟩ := addSendRule_spec hsend
  have hterms : send.terms = run.map Term.functor := by
    rw [show send = _ from hr]
    exact congrArg (map Term.functor) hbefore
  classical
  unfold unfold
  rw [foldr_cons, foldr_nil, cons_append, erase_cons_head, hterms,
    ← append_assoc, ← map_append, ← hprobe]
  exact (((probeTerms_perm tables rule).map _).append_right _).trans (terms_perm rule)

lemma unfold_perm (sends : List Rule) {terms terms' : List Term} (h : terms.Perm terms') :
    (unfold sends terms).Perm (unfold sends terms') := by
  induction sends with
  | nil => exact h
  | cons send sends ih =>
    classical
    exact (ih.erase _).append_left _

/-! ## Generated rules -/

/-- Rules that a split of the rule, or of what is left of it, does not make again: their texts begin
with a number that the rule has passed. -/
def Past (text : Expr → Name) (rules : List Rule) (rule : Rule) : Prop :=
  ∀ r ∈ rules, ∃ p, p ++ local1 <+: r.toString text ∧ p ++ local2 <+: rule.ruleID

lemma ruleID_prefix_toString (rule : Rule) : rule.ruleID <+: rule.toString text := by
  unfold Rule.toString
  simp only [append_assoc]
  exact prefix_append _ _

lemma Past.add_rule {rules : List Rule} {r : Rule} (h : Past text rules rule)
    (hr : rule.ruleID <+: r.ruleID) : add_rule text rules r = rules ++ [r] := by
  unfold Planner.add_rule
  rw [if_neg]
  simp only [any_eq_true, decide_eq_true_eq, not_exists, not_and]
  intro r' hr' heq
  obtain ⟨p, hp, hp'⟩ := h r' hr'
  have hlong : p ++ local2 <+: r'.toString text := by
    rw [heq]
    exact hp'.trans (hr.trans (ruleID_prefix_toString r))
  have hsame : p ++ local1 = p ++ local2 :=
    (prefix_of_prefix_length_le hp hlong (by simp [local1, local2])).eq_of_length
      (by simp [local1, local2])
  exact absurd (append_cancel_left hsame) (by decide)

lemma Past.splits {rules : List Rule} (h : Past text rules rule)
    (hstep : step tables rule = .splits send next tables') :
    Planner.add_rule text rules send = rules ++ [send] ∧ Past text (rules ++ [send]) next := by
  obtain ⟨s, f, rest, -, hsend, rfl⟩ := step_spec hstep
  obtain ⟨-, hr, -⟩ := addSendRule_spec hsend
  have hid : send.ruleID = rule.ruleID ++ local1 := by rw [show send = _ from hr]
  refine ⟨h.add_rule (hid ▸ prefix_append _ _), fun r hmem => ?_⟩
  rcases mem_append.mp hmem with hmem | hmem
  · obtain ⟨p, hp, hp'⟩ := h r hmem
    exact ⟨p, hp, hp'.trans (prefix_append _ _)⟩
  · rw [mem_singleton.mp hmem]
    exact ⟨rule.ruleID, hid ▸ ruleID_prefix_toString send, prefix_refl _⟩

/-- **The rules that a localization generates**: rules that send and a last one, which have the head
of the rule and unfold to its body. -/
lemma rewriteRule_spec {calls : ℕ} {rules rules' : List Rule} (hpast : Past text rules rule)
    (h : rewriteRule text calls tables rules rule = .done rules' tables') :
    ∃ sends last, rules' = rules ++ (sends ++ [last]) ∧ last.head = rule.head ∧
      (unfold sends last.terms).Perm rule.terms ∧
      (step tables rule = .stays → last.deleteFlag = rule.deleteFlag) ∧
      (step tables rule ≠ .stays → last.deleteFlag = false) := by
  fun_induction rewriteRule text calls tables rules rule with
  | case1 | case3 | case4 => exact Outcome.noConfusion h
  | case2 calls tables rules rule hstep =>
    obtain ⟨rfl, rfl⟩ := h
    refine ⟨[], rule, ?_, rfl, Perm.refl _, fun _ => rfl, fun hne => absurd hstep hne⟩
    exact hpast.add_rule (prefix_refl _)
  | case5 calls tables rules rule send next tables₁ hstep ih =>
    obtain ⟨hadd, hpast'⟩ := hpast.splits hstep
    rw [hadd] at h ih
    obtain ⟨sends, last, rfl, hhead, hperm, hstays, hsplits⟩ := ih hpast' h
    obtain ⟨s, f, rest, -, -, hnext⟩ := step_spec hstep
    refine ⟨send :: sends, last, ?_, ?_, ?_, fun hs => ?_, fun _ => ?_⟩
    · rw [append_assoc]
      rfl
    · rw [hhead, hnext]
    · exact (unfold_perm [send] hperm).trans (unfold_step hstep)
    · exact Step.noConfusion (hstep.symm.trans hs)
    · by_cases hnext' : step tables₁ next = .stays
      · rw [hstays hnext', hnext]
      · exact hsplits hnext'

/-- **Localization preserves rules.** Where the localization of a rule finishes, its last rule with
the intermediate predicates unfolded is the rule (the same head, the same action, the same body
terms) exactly if the rule inserts, or its predicates are at one location to begin with.
Hyps: the localization finishes -/
theorem localized_iff (text : Expr → Name) (tables tables' : Tables) (rule : Rule) (calls : ℕ)
    (rules : List Rule) (h : rewriteRule text calls tables [] rule = .done rules tables') :
    ∃ sends last, rules = sends ++ [last] ∧
      ((last.head = rule.head ∧ last.deleteFlag = rule.deleteFlag ∧
          (unfold sends last.terms).Perm rule.terms) ↔
        rule.deleteFlag = false ∨ OneLocation rule.functors) := by
  have hpast : Past text [] rule := forall_mem_nil _
  obtain ⟨sends, last, hrules, hhead, hperm, hstays, hsplits⟩ := rewriteRule_spec hpast h
  refine ⟨sends, last, hrules, ⟨?_, ?_⟩⟩
  · rintro ⟨-, hflag, -⟩
    by_cases hstep : step tables rule = .stays
    · exact Or.inr (step_eq_stays_iff.mp hstep).2
    · exact Or.inl (hflag ▸ hsplits hstep)
  · intro hcond
    refine ⟨hhead, ?_, hperm⟩
    by_cases hstep : step tables rule = .stays
    · exact hstays hstep
    · rw [hsplits hstep]
      rcases hcond with hflag | hone
      · exact hflag.symm
      · -- a rule without predicates does not get this far
        have hempty : rule.functors = [] := by
          by_contra hne
          exact hstep (step_eq_stays_iff.mpr ⟨hne, hone⟩)
        have hthrows : step tables rule = .throws := by
          have hprobe : probeTerms tables rule = [] := by
            have hperm' := probeTerms_perm tables rule
            rw [hempty] at hperm'
            exact hperm'.eq_nil
          unfold step
          rw [hprobe]
          rfl
        cases calls with
        | zero => exact Outcome.noConfusion h
        | succ calls =>
          unfold rewriteRule at h
          rw [hthrows] at h
          exact Outcome.noConfusion h

def sampleRule (deleteFlag : Bool) : Rule where
  ruleID := [114]
  head := { name := [104], args := [.var [66] true, .var [67] false] }
  deleteFlag := deleteFlag
  terms := [.functor { name := [112], args := [.var [65] true, .var [66] false] },
    .functor { name := [113], args := [.var [66] true, .var [67] false] }]

def sampleTables : Tables :=
  [{ tableName := [112], timeout := .posInfin, size := 0, primaryKeys := [0] },
    { tableName := [113], timeout := .posInfin, size := 0, primaryKeys := [0] }]

theorem localized_iff_sampleRule :
    ∃ rules tables', rewriteRule (fun _ => []) 2 sampleTables [] (sampleRule false) =
        .done rules tables' ∧
      ∃ sends last, rules = sends ++ [last] ∧
        last.head = (sampleRule false).head ∧ last.deleteFlag = (sampleRule false).deleteFlag ∧
        (unfold sends last.terms).Perm (sampleRule false).terms := by
  refine ⟨_, _, rfl, ?_⟩
  obtain ⟨sends, last, hrules, hiff⟩ :=
    localized_iff (fun _ => []) sampleTables _ (sampleRule false) 2 _ rfl
  exact ⟨sends, last, hrules, hiff.mpr (Or.inl rfl)⟩

/-- The rule above, as one that deletes: its last rule inserts. -/
theorem delete_lost_by_split :
    ∃ send last tables', rewriteRule (fun _ => []) 2 sampleTables [] (sampleRule true) =
        .done [send, last] tables' ∧
      (sampleRule true).deleteFlag = true ∧ last.deleteFlag = false ∧
      last.head = (sampleRule true).head := by
  refine ⟨_, _, _, rfl, rfl, ?_, ?_⟩
  · rfl
  · rfl

end P2.Planner
