import Mathlib.Data.List.Basic

/-!
# Programs with state and errors

Rules for programs of the standard monad `EStateM ε σ`, which pass a state along and may end in an
error. A postcondition is split in two: what holds of the result and the state where the program
returns, and which errors are allowed where it does not.

* `Ends E m s Q` — from `s`, the program `m` returns with `Q`, or fails with an error `E` allows.
* `ends_bind`, `ends_pure`, … — one rule for each way to build a program, tagged for `simp`.
* `bind_eq_of_ok`, `tryCatch_eq_of_error`, … — what a program comes to when its first part does.
* `andM_eq_ok`, `orM_eq_ok` — connectives of tests that return and leave the state as it is.
-/

namespace P2.Lib.Exec

variable {ε σ α β : Type} {E : ε → σ → Prop} {s : σ} {Q : α → σ → Prop}

/-- From `s`, the program returns with the postcondition `Q` or fails with an error that `E` allows. -/
def Ends (E : ε → σ → Prop) (m : EStateM ε σ α) (s : σ) (Q : α → σ → Prop) : Prop :=
  match m s with
  | .ok a t => Q a t
  | .error e t => E e t

/-- A computation that reads the state and may fail. -/
def ofExcept (x : σ → Except ε α) : EStateM ε σ α := fun s =>
  match x s with
  | .ok a => .ok a s
  | .error e => .error e s

@[simp] lemma ends_pure {a : α} : Ends E (pure a) s Q ↔ Q a s := Iff.rfl

@[simp] lemma ends_throw {e : ε} : Ends E (throw e : EStateM ε σ α) s Q ↔ E e s := Iff.rfl

@[simp] lemma ends_bind {m : EStateM ε σ β} {f : β → EStateM ε σ α} :
    Ends E (m >>= f) s Q ↔ Ends E m s fun b t => Ends E (f b) t Q := by
  show Ends E (EStateM.bind m f) s Q ↔ _
  unfold Ends EStateM.bind
  cases m s <;> rfl

@[simp] lemma ends_map {m : EStateM ε σ β} {f : β → α} :
    Ends E (f <$> m) s Q ↔ Ends E m s fun b t => Q (f b) t := by
  show Ends E (EStateM.map f m) s Q ↔ _
  unfold Ends EStateM.map
  cases m s <;> rfl

@[simp] lemma ends_get {Q : σ → σ → Prop} : Ends E (get : EStateM ε σ σ) s Q ↔ Q s s := Iff.rfl

@[simp] lemma ends_ite {p : Prop} [Decidable p] {m m' : EStateM ε σ α} :
    Ends E (if p then m else m') s Q ↔ (p → Ends E m s Q) ∧ (¬ p → Ends E m' s Q) := by
  by_cases h : p <;> simp [h]

@[simp] lemma ends_tryCatch {m : EStateM ε σ α} {handler : ε → EStateM ε σ α} :
    Ends E (tryCatch m handler) s Q ↔ Ends (fun e t => Ends E (handler e) t Q) m s Q := by
  show Ends E (EStateM.tryCatch m handler) s Q ↔ _
  unfold Ends EStateM.tryCatch
  cases m s <;> rfl

lemma ends_ofExcept {x : σ → Except ε α} :
    Ends E (ofExcept x) s Q ↔ (∀ a, x s = .ok a → Q a s) ∧ ∀ e, x s = .error e → E e s := by
  unfold Ends ofExcept
  cases x s <;> simp

lemma Ends.mono {E' : ε → σ → Prop} {Q' : α → σ → Prop} {m : EStateM ε σ α} (h : Ends E m s Q)
    (hE : ∀ e t, E e t → E' e t) (hQ : ∀ a t, Q a t → Q' a t) : Ends E' m s Q' := by
  unfold Ends at h ⊢
  cases hm : m s with
  | ok a t =>
    rw [hm] at h
    exact hQ a t h
  | error e t =>
    rw [hm] at h
    exact hE e t h

lemma ends_false {m : EStateM ε σ α} :
    Ends (fun _ _ => False) m s Q ↔ ∃ a t, m s = .ok a t ∧ Q a t := by
  unfold Ends
  cases m s <;> simp

lemma ends_of_eq {m : EStateM ε σ α} {a : α} {t : σ} (h : m s = .ok a t) :
    Ends E m s Q ↔ Q a t := by
  unfold Ends
  rw [h]

lemma ends_of_error {m : EStateM ε σ α} {e : ε} {t : σ} (h : m s = .error e t) :
    Ends E m s Q ↔ E e t := by
  unfold Ends
  rw [h]

lemma Ends.and {E' : ε → σ → Prop} {Q' : α → σ → Prop} {m : EStateM ε σ α} (h : Ends E m s Q)
    (h' : Ends E' m s Q') :
    Ends (fun e t => E e t ∧ E' e t) m s fun a t => Q a t ∧ Q' a t := by
  unfold Ends at h h' ⊢
  cases hm : m s with
  | ok a t =>
    rw [hm] at h h'
    exact ⟨h, h'⟩
  | error e t =>
    rw [hm] at h h'
    exact ⟨h, h'⟩

lemma Ends.imp {Q' : α → σ → Prop} {m : EStateM ε σ α} (h : Ends E m s Q)
    (hQ : ∀ a t, Q a t → Q' a t) : Ends E m s Q' :=
  h.mono (fun _ _ he => he) hQ

lemma Ends.forM {Inv : σ → Prop} {f : α → EStateM ε σ PUnit} (l : List α) (hinit : Inv s)
    (hstep : ∀ a ∈ l, ∀ t, Inv t → Ends E (f a) t fun _ => Inv) :
    Ends E (l.forM f) s fun _ => Inv := by
  induction l generalizing s with
  | nil => exact hinit
  | cons a l ih =>
    rw [List.forM, ends_bind]
    refine (hstep a List.mem_cons_self s hinit).imp fun _ t hinv => ?_
    exact ih hinv fun a' ha' => hstep a' (List.mem_cons_of_mem a ha')

section Equations

variable {m : EStateM ε σ α} {a : α} {e : ε} {t : σ}

lemma bind_eq_of_ok {f : α → EStateM ε σ β} (hm : m s = .ok a t) : (m >>= f) s = f a t := by
  show EStateM.bind m f s = _
  unfold EStateM.bind
  rw [hm]

lemma bind_eq_of_error {f : α → EStateM ε σ β} (hm : m s = .error e t) :
    (m >>= f) s = .error e t := by
  show EStateM.bind m f s = _
  unfold EStateM.bind
  rw [hm]

lemma tryCatch_eq_of_ok {handler : ε → EStateM ε σ α} (hm : m s = .ok a t) :
    tryCatch m handler s = .ok a t := by
  show EStateM.tryCatch m handler s = _
  unfold EStateM.tryCatch
  rw [hm]

lemma tryCatch_eq_of_error {handler : ε → EStateM ε σ α} (hm : m s = .error e t) :
    tryCatch m handler s = handler e t := by
  show EStateM.tryCatch m handler s = _
  unfold EStateM.tryCatch
  rw [hm]
  rfl

lemma ofExcept_eq_of_ok {x : σ → Except ε α} (hx : x s = .ok a) : ofExcept x s = .ok a s := by
  unfold ofExcept
  rw [hx]

lemma ofExcept_eq_of_error {x : σ → Except ε α} (hx : x s = .error e) :
    ofExcept x s = .error e s := by
  unfold ofExcept
  rw [hx]

end Equations

lemma andM_eq_ok {x y : EStateM ε σ Bool} {b c : Bool} (hx : x s = .ok b s) (hy : y s = .ok c s) :
    (x <&&> y) s = .ok (b && c) s := by
  show EStateM.bind x (fun b => match toBool b with | true => y | false => pure b) s = _
  unfold EStateM.bind
  rw [hx]
  cases b with
  | false => rfl
  | true => exact hy

lemma orM_eq_ok {x y : EStateM ε σ Bool} {b c : Bool} (hx : x s = .ok b s) (hy : y s = .ok c s) :
    (x <||> y) s = .ok (b || c) s := by
  show EStateM.bind x (fun b => match toBool b with | true => pure b | false => y) s = _
  unfold EStateM.bind
  rw [hx]
  cases b with
  | false => exact hy
  | true => rfl

end P2.Lib.Exec
