import P2.Lib.Choices
import P2.Pel.LexText
import P2.Planner.Localize

/-!
# Event, condition, action

A rule without events is a view. The planner rewrites it into delta rules: for each predicate of the
body, one that adds to the head what an insertion derives, and one that takes away what a deletion
derives: `rewriteViewRule`.
-/

namespace P2.Planner.Eca

open P2.Overlog P2.Lib P2.Pel List

inductive Event where
  | INSERT | DELETE | RECV | REFRESH
  deriving DecidableEq

inductive Action where
  | SEND | ADD | DELETE | DROP
  deriving DecidableEq

structure EcaRule where
  ruleID : Name
  event : Event × Functor
  action : Action × Functor
  probeTerms : List Functor := []
  selectAssignTerms : List Term := []

def Event.toString (text : Expr → Name) : Event × Functor → Name
  | (.RECV, f) => ascii "EVENT_RECV<" ++ f.toString text ++ ascii ">"
  | (.INSERT, f) => ascii "EVENT_INSERT<" ++ f.toString text ++ ascii ">"
  | (.DELETE, f) => ascii "EVENT_DELETE<" ++ f.toString text ++ ascii ">"
  | (.REFRESH, f) => ascii "EVENT_REFRESH<" ++ f.toString text ++ ascii ">"

def Action.toString (text : Expr → Name) : Action × Functor → Name
  | (.SEND, f) => ascii "ACTION_SEND<" ++ f.toString text ++ ascii ">"
  | (.ADD, f) => ascii "ACTION_ADD<" ++ f.toString text ++ ascii ">"
  | (.DELETE, f) => ascii "ACTION_DELETE<" ++ f.toString text ++ ascii ">"
  | (.DROP, f) => ascii "ACTION_DROP<" ++ f.toString text ++ ascii ">"

/-- The text of a rule, without its identifier. -/
def EcaRule.toRuleString (text : Expr → Name) (r : EcaRule) : Name :=
  Action.toString text r.action ++ ascii " :- " ++ Functor.commas (Event.toString text r.event ::
    (r.probeTerms.map (·.toString text) ++ r.selectAssignTerms.map (·.toString text))) ++ ascii "."

def add_rule (text : Expr → Name) (ecaRules : List EcaRule) (r : EcaRule) : List EcaRule :=
  if ecaRules.any fun r' => r'.toRuleString text = r.toRuleString text then ecaRules
  else ecaRules ++ [r]

/-! ## Views -/

def softState (tables : Tables) (name : Name) : Bool :=
  match getTableInfo tables name with
  | none => true
  | some info => info.timeout ≠ .posInfin

def softStateRule (tables : Tables) (rule : Rule) : Bool :=
  rule.functors.any (fun f => softState tables f.name) || softState tables rule.head.name

def localHead (rule : Rule) (f : Functor) : Bool :=
  rule.head.getlocspec ≠ [] && fieldNameEq rule.head.getlocspec f.getlocspec

/-- The rules for the predicate `f`, the term number `count`, as they are added. -/
def viewRules (tables : Tables) (rule : Rule) (count : ℕ) (f : Functor) : List EcaRule :=
  let ruleID := rule.ruleID ++ ascii "Eca" ++ numeral count
  let remoteID := ruleID ++ ascii "Remote"
  let deleteFunctor : Functor := { rule.head with name := rule.head.name ++ ascii "delete" }
  let sendFunctor : Functor :=
    { rule.head with name := rule.ruleID ++ rule.head.name ++ ascii "send" }
  let softStatePredicate := softState tables f.name
  let head : Bool := materialized tables rule.head
  let add : Action × Functor :=
    if head then (if localHead rule f then (.ADD, rule.head) else (.SEND, sendFunctor))
    else (.SEND, rule.head)
  let delete : Action × Functor :=
    if head && localHead rule f then (.DELETE, rule.head) else (.SEND, deleteFunctor)
  let delta (suffix : String) (event : Event) (action : Action × Functor) : EcaRule :=
    { ruleID := ruleID ++ ascii suffix, event := (event, f), action := action
      probeTerms := (rule.terms.eraseIdx count).filterMap Term.functor?
      selectAssignTerms := otherTerms rule }
  let recv (suffix : String) (event : Functor) (action : Action) : EcaRule :=
    { ruleID := remoteID ++ ascii suffix, event := (.RECV, event), action := (action, rule.head) }
  (if head && !localHead rule f then
    [recv "Ins" sendFunctor .ADD] ++ (if softStatePredicate then [recv "Ref" sendFunctor .ADD] else [])
      ++ (if softStateRule tables rule then [] else [recv "Del" deleteFunctor .DELETE]) else []) ++
    [delta "Ins" .INSERT add] ++ (if softStatePredicate then [delta "Ref" .REFRESH add] else []) ++
    (if softStateRule tables rule then [] else [delta "Del" .DELETE delete])

/-- All rules of a view, before those with the same text are dropped. -/
def allViewRules (tables : Tables) (rule : Rule) : List EcaRule :=
  rule.terms.zipIdx.flatMap fun x => (x.1.functor?.map (viewRules tables rule x.2)).getD []

def rewriteViewRule (text : Expr → Name) (tables : Tables) (rule : Rule)
    (ecaRules : List EcaRule) : List EcaRule :=
  (allViewRules tables rule).foldl (add_rule text) ecaRules

/-! ## Local views over tables that do not expire -/

variable {tables : Tables} {rule : Rule} {text : Expr → Name}

lemma foldl_add_rule {rules ecaRules : List EcaRule}
    (h : ((ecaRules ++ rules).map (·.toRuleString text)).Nodup) :
    rules.foldl (add_rule text) ecaRules = ecaRules ++ rules := by
  induction rules generalizing ecaRules with
  | nil => rw [append_nil]; rfl
  | cons r rules ih =>
    have hnew : add_rule text ecaRules r = ecaRules ++ [r] := by
      unfold add_rule
      rw [if_neg]
      intro hany
      obtain ⟨r', hr', heq⟩ := any_eq_true.mp hany
      rw [map_append, nodup_append'] at h
      exact h.2.2 (mem_map_of_mem hr')
        (mem_map.mpr ⟨r, mem_cons_self, (of_decide_eq_true heq).symm⟩)
    rw [foldl_cons, hnew, ih (by rwa [append_assoc]), append_assoc]
    rfl

/-- What a delta rule does, without its identifier. -/
def EcaRule.body (r : EcaRule) : (Event × Functor) × (Action × Functor) × List Functor × List Term :=
  (r.event, r.action, r.probeTerms, r.selectAssignTerms)

/-- The delta rule of a predicate for an event, with the other predicates. -/
def deltaBody (rule : Rule) (event : Event) (action : Action) (x : Functor × List Functor) :
    (Event × Functor) × (Action × Functor) × List Functor × List Term :=
  ((event, x.1), (action, rule.head), x.2, otherTerms rule)

lemma turns_filterMap (before terms : List Term) :
    (terms.zipIdx before.length).flatMap (fun x => (x.1.functor?.map fun f =>
        [(f, ((before ++ terms).eraseIdx x.2).filterMap Term.functor?)]).getD []) =
      (turns (terms.filterMap Term.functor?)).map fun x =>
        (x.1, before.filterMap Term.functor? ++ x.2) := by
  induction terms generalizing before with
  | nil => rfl
  | cons t terms ih =>
    have hrest := ih (before ++ [t])
    rw [length_append, length_singleton, append_assoc, singleton_append] at hrest
    rw [zipIdx_cons, flatMap_cons, hrest]
    rcases hf : t.functor? with _ | f
    · simp [hf]
    · have herase : (before ++ t :: terms).eraseIdx before.length = before ++ terms := by
        rw [eraseIdx_append_of_length_le le_rfl, Nat.sub_self, eraseIdx_cons_zero]
      simp [hf, turns, herase]

lemma rewriteViewRule_of_nodup (hhard : softStateRule tables rule = false)
    (hlocal : ∀ f ∈ rule.functors, localHead rule f)
    (htext : ((allViewRules tables rule).map (·.toRuleString text)).Nodup) :
    (rewriteViewRule text tables rule []).map (·.body) = (turns rule.functors).flatMap fun x =>
      [deltaBody rule .INSERT .ADD x, deltaBody rule .DELETE .DELETE x] := by
  have hsoft : ∀ f ∈ rule.functors, softState tables f.name = false := by
    unfold softStateRule at hhard
    simp only [Bool.or_eq_false_iff, any_eq_false, Bool.not_eq_true] at hhard
    exact hhard.1
  have hhead : materialized tables rule.head = true := by
    unfold softStateRule softState at hhard
    simp only [Bool.or_eq_false_iff] at hhard
    unfold materialized
    rcases hinfo : getTableInfo tables rule.head.name with _ | info
    · rw [hinfo] at hhard
      exact absurd hhard.2 (by decide)
    · rfl
  have hrules : ∀ x ∈ rule.terms.zipIdx,
      ((x.1.functor?.map (viewRules tables rule x.2)).getD []).map (·.body) =
        ((x.1.functor?.map fun f =>
          [(f, (rule.terms.eraseIdx x.2).filterMap Term.functor?)]).getD []).flatMap fun x =>
            [deltaBody rule .INSERT .ADD x, deltaBody rule .DELETE .DELETE x] := by
    intro x hx
    rcases hf : x.1.functor? with _ | f
    · rfl
    · have hmem : f ∈ rule.functors := mem_filterMap.mpr ⟨x.1, fst_mem_of_mem_zipIdx hx, hf⟩
      simp [viewRules, hsoft f hmem, hlocal f hmem, hhead, hhard, EcaRule.body, deltaBody]
  have hturns := turns_filterMap [] rule.terms
  simp only [length_nil, nil_append, filterMap_nil, Prod.mk.eta, map_id'] at hturns
  unfold rewriteViewRule
  rw [foldl_add_rule (by rwa [nil_append]), nil_append]
  unfold allViewRules
  rw [map_flatMap, flatMap_congr hrules, ← flatMap_assoc, hturns]
  rfl

end P2.Planner.Eca
