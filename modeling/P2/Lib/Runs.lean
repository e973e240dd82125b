import Mathlib.Data.List.Basic

/-!
# Runs of a step function

* `Permitted`: each event of a run happens in a state that permits it, for steps that may fail;
  `Permitted.run` and `Permitted.run_events` carry an invariant along such a run.
* `Throughout`: the same for steps that do not fail; `Throughout.foldl` carries an invariant.
* `concat_eq_iff`: where an event stands in a history that grows at its end.
-/

namespace P2.Lib

variable {σ ε : Type*} {step : σ → ε → Option σ} {P : σ → ε → Prop} {inv : σ → Prop}

/-- Each event of a run happens in a state that permits it. -/
def Permitted (step : σ → ε → Option σ) (P : σ → ε → Prop) : σ → List ε → Prop
  | _, [] => True
  | s, e :: es => P s e ∧ ∀ s' ∈ step s e, Permitted step P s' es

instance decidablePermitted [∀ s e, Decidable (P s e)] : ∀ s es, Decidable (Permitted step P s es)
  | _, [] => inferInstanceAs (Decidable True)
  | s, e :: es =>
    have : DecidablePred (Permitted step P · es) := (decidablePermitted · es)
    inferInstanceAs (Decidable (P s e ∧ ∀ s' ∈ step s e, Permitted step P s' es))

/-- An invariant that speaks of the events so far. -/
lemma Permitted.run_events (inv : List ε → σ → Prop)
    (hstep : ∀ es s e, inv es s → P s e → ∃ s', step s e = some s' ∧ inv (es ++ [e]) s') {s : σ}
    {es : List ε} (h : Permitted step P s es) (hs : inv [] s) :
    ∃ s', es.foldlM step s = some s' ∧ inv es s' := by
  have hrun : ∀ es past s, Permitted step P s es → inv past s →
      ∃ s', es.foldlM step s = some s' ∧ inv (past ++ es) s' := by
    intro es
    induction es with
    | nil => exact fun past s _ hs => ⟨s, rfl, (List.append_nil past).symm ▸ hs⟩
    | cons e es ih =>
      intro past s h hs
      obtain ⟨s', hs', hinv⟩ := hstep past s e hs h.1
      obtain ⟨t, ht, hinvt⟩ := ih _ s' (h.2 s' hs') hinv
      refine ⟨t, ?_, by simpa using hinvt⟩
      rw [List.foldlM_cons, hs']
      exact ht
  exact hrun es [] s h hs

lemma Permitted.run (hstep : ∀ s e, inv s → P s e → ∃ s', step s e = some s' ∧ inv s') {s : σ}
    {es : List ε} (h : Permitted step P s es) (hs : inv s) :
    ∃ s', es.foldlM step s = some s' ∧ inv s' :=
  h.run_events (fun _ => inv) (fun _ => hstep) hs

lemma permitted_of_mem {R : ε → Prop} {s : σ} {es : List ε} (h : ∀ e ∈ es, R e) :
    Permitted step (fun _ => R) s es := by
  induction es generalizing s with
  | nil => trivial
  | cons e es ih =>
    obtain ⟨he, hes⟩ := List.forall_mem_cons.mp h
    exact ⟨he, fun _ _ => ih hes⟩

lemma permitted_cons {s s' : σ} {e : ε} {es : List ε} (h : P s e) (hstep : step s e = some s')
    (hrest : Permitted step P s' es) : Permitted step P s (e :: es) := by
  refine ⟨h, fun t ht => ?_⟩
  rw [Option.mem_def, hstep, Option.some_inj] at ht
  exact ht ▸ hrest

lemma Permitted.and_mem {R : ε → Prop} {s : σ} {es : List ε} (h : Permitted step P s es)
    (hR : ∀ e ∈ es, R e) : Permitted step (fun s e => P s e ∧ R e) s es := by
  induction es generalizing s with
  | nil => trivial
  | cons e es ih =>
    obtain ⟨he, hes⟩ := List.forall_mem_cons.mp hR
    exact ⟨⟨h.1, he⟩, fun s' hs' => ih (h.2 s' hs') hes⟩

lemma Permitted.of_append {s : σ} {es more : List ε} (h : Permitted step P s (es ++ more)) :
    Permitted step P s es := by
  induction es generalizing s with
  | nil => trivial
  | cons e es ih => exact ⟨h.1, fun s' hs' => ih (h.2 s' hs')⟩

lemma permitted_of_foldlM (hP : ∀ s e s', step s e = some s' → P s e) {s s' : σ} {es : List ε}
    (h : es.foldlM step s = some s') : Permitted step P s es := by
  induction es generalizing s with
  | nil => trivial
  | cons e es ih =>
    rw [List.foldlM_cons, Option.bind_eq_bind, Option.bind_eq_some_iff] at h
    obtain ⟨s₁, hs₁, hrest⟩ := h
    exact permitted_cons (hP s e s₁ hs₁) hs₁ (ih hrest)

/-! ## Steps that do not fail -/

section Throughout

/-- Each event of a run happens in a state that permits it, where no step fails. -/
def Throughout (step : σ → ε → σ) (P : σ → ε → Prop) : σ → List ε → Prop
  | _, [] => True
  | s, e :: es => P s e ∧ Throughout step P (step s e) es

variable {step : σ → ε → σ} {Q : σ → ε → Prop} {s : σ} {es : List ε}

instance decidableThroughout [∀ s e, Decidable (P s e)] : ∀ s es, Decidable (Throughout step P s es)
  | _, [] => inferInstanceAs (Decidable True)
  | s, e :: es =>
    have := decidableThroughout (step s e) es
    inferInstanceAs (Decidable (P s e ∧ Throughout step P (step s e) es))

lemma Throughout.foldl (inv : σ → Prop) (hstep : ∀ s e, inv s → P s e → inv (step s e))
    (h : Throughout step P s es) (hs : inv s) : inv (es.foldl step s) := by
  induction es generalizing s with
  | nil => exact hs
  | cons e es ih => exact ih h.2 (hstep s e hs h.1)

lemma Throughout.imp (hPQ : ∀ s e, P s e → Q s e) (h : Throughout step P s es) :
    Throughout step Q s es := by
  induction es generalizing s with
  | nil => trivial
  | cons e es ih => exact ⟨hPQ s e h.1, ih h.2⟩

lemma Throughout.and (hP : Throughout step P s es) (hQ : Throughout step Q s es) :
    Throughout step (fun s e => P s e ∧ Q s e) s es := by
  induction es generalizing s with
  | nil => trivial
  | cons e es ih => exact ⟨⟨hP.1, hQ.1⟩, ih hP.2 hQ.2⟩

lemma Throughout.of_mem {R : ε → Prop} (hPR : ∀ s e, P s e → R e) (h : Throughout step P s es) :
    ∀ e ∈ es, R e := by
  induction es generalizing s with
  | nil => exact List.forall_mem_nil _
  | cons e es ih => exact List.forall_mem_cons.mpr ⟨hPR s e h.1, ih h.2⟩

lemma throughout_of_mem {R : ε → Prop} (h : ∀ e ∈ es, R e) : Throughout step (fun _ => R) s es := by
  induction es generalizing s with
  | nil => trivial
  | cons e es ih =>
    obtain ⟨he, hes⟩ := List.forall_mem_cons.mp h
    exact ⟨he, ih hes⟩

lemma throughout_append {before after : List ε} : Throughout step P s (before ++ after) ↔
    Throughout step P s before ∧ Throughout step P (before.foldl step s) after := by
  induction before generalizing s with
  | nil => exact (iff_of_eq (true_and _)).symm
  | cons e before ih =>
    show P s e ∧ Throughout step P (step s e) (before ++ after) ↔
      (P s e ∧ Throughout step P (step s e) before) ∧ _
    rw [ih, and_assoc]
    rfl

end Throughout

/-! ## Lists -/

/-- A history that is split at an event, and the event that was added last. -/
lemma concat_eq_iff {α : Type*} {l before after : List α} {x a : α} :
    l ++ [a] = before ++ x :: after ↔
      after = [] ∧ x = a ∧ l = before ∨ ∃ since, after = since ++ [a] ∧ l = before ++ x :: since := by
  constructor
  · intro h
    rcases List.eq_nil_or_concat' after with rfl | ⟨since, b, rfl⟩
    · obtain ⟨rfl, hx⟩ := List.append_inj' h rfl
      exact Or.inl ⟨rfl, (List.singleton_inj.mp hx).symm, rfl⟩
    · have h' : l ++ [a] = (before ++ x :: since) ++ [b] := by
        rw [h, List.append_assoc]
        rfl
      obtain ⟨rfl, hb⟩ := List.append_inj' h' rfl
      rw [List.singleton_inj.mp hb]
      exact Or.inr ⟨since, rfl, rfl⟩
  · rintro (⟨rfl, rfl, rfl⟩ | ⟨since, rfl, rfl⟩)
    · rfl
    · rw [List.append_assoc]
      rfl

lemma mapM_eq_some_map {α β : Type*} {f : α → Option β} {g : α → β} {l : List α}
    (h : ∀ a ∈ l, f a = some (g a)) : l.mapM f = some (l.map g) := by
  induction l with
  | nil => rfl
  | cons a l ih =>
    obtain ⟨ha, hl⟩ := List.forall_mem_cons.mp h
    rw [List.mapM_cons, ha, ih hl]
    rfl

/-- What is left for a loop that settles one thing after the other. -/
lemma countP_lt_countP {α : Type*} {p q : α → Bool} {l : List α} (hpq : ∀ x ∈ l, p x → q x) {a : α}
    (ha : a ∈ l) (hp : ¬ p a) (hq : q a) : l.countP p < l.countP q := by
  obtain ⟨before, after, rfl⟩ := List.append_of_mem ha
  obtain ⟨hbefore, -, hafter⟩ := by simpa only [List.forall_mem_append, List.forall_mem_cons] using hpq
  have hle := List.countP_mono_left hbefore
  have hle' := List.countP_mono_left hafter
  rw [List.countP_append, List.countP_append, List.countP_cons_of_neg hp, List.countP_cons_of_pos hq]
  omega

end P2.Lib
