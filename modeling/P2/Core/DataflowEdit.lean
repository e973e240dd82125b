import Mathlib.Data.List.Nodup
import Mathlib.Data.List.Perm.Basic
import Mathlib.Order.Bounds.Basic

/-!
# Pruning in a dataflow edit

`DataflowEdit::validate` takes out the old elements that an edit has disconnected, with their
hookups, until every element that is left is still referenced: `prune_greatest`.
-/

namespace P2.Core.DataflowEdit

open List

structure Shape (ε : Type) where
  ninputs : ε → ℕ
  noutputs : ε → ℕ

section Model

variable {ε : Type} [DecidableEq ε] (shape : Shape ε)

/-- `element_referenced_in_hookup`; a hookup goes from its first element to its second. -/
def referenced (e : ε) (hookups : List (ε × ε)) : Bool :=
  (0 < shape.ninputs e && hookups.any (·.2 = e)) ||
    (shape.ninputs e = 0 && 0 < shape.noutputs e && hookups.any (·.1 = e))

/-- The loop over the elements: `fully_connected`, the elements that stay, and their hookups. -/
def sweep : List ε → List (ε × ε) → Bool × List ε × List (ε × ε)
  | [], hookups => (true, [], hookups)
  | e :: elements, hookups =>
    if referenced shape e hookups then
      let rest := sweep elements hookups
      (rest.1, e :: rest.2.1, rest.2.2)
    else (false, (sweep elements (hookups.filter fun h => !(h.2 = e || h.1 = e))).2)

/-- The outer loop, with at most so many rounds; `none` where these do not suffice. -/
def prune : ℕ → List ε → List (ε × ε) → Option (List ε)
  | 0, _, _ => none
  | n + 1, elements, hookups =>
    let swept := sweep shape elements hookups
    if swept.1 then some swept.2.1 else prune n swept.2.1 swept.2.2

end Model

variable {ε : Type} (shape : Shape ε) (new : List ε) (hookups : List (ε × ε))

/-- What connects an element to a set of old elements or to the new ones: a hookup into it if it has
inputs, else one out of it. -/
def Supported (K : Set ε) (e : ε) : Prop :=
  if 0 < shape.ninputs e then ∃ h ∈ hookups, h.2 = e ∧ (h.1 ∈ K ∨ h.1 ∈ new)
  else 0 < shape.noutputs e ∧ ∃ h ∈ hookups, h.1 = e ∧ (h.2 ∈ K ∨ h.2 ∈ new)

def SelfSupporting (old : List ε) : Set (Set ε) :=
  {K | (∀ e ∈ K, e ∈ old) ∧ ∀ e ∈ K, Supported shape new hookups K e}

structure Wf (old : List ε) : Prop where
  nodup : old.Nodup
  fresh : ∀ e ∈ old, e ∉ new
  ends : ∀ h ∈ hookups, (h.1 ∈ old ∨ h.1 ∈ new) ∧ (h.2 ∈ old ∨ h.2 ∈ new)

/-- The hookups that are left are those between elements that are left or new. -/
def Between (A : Set ε) (left : List (ε × ε)) : Prop :=
  ∀ h, h ∈ left ↔ h ∈ hookups ∧ (h.1 ∈ A ∨ h.1 ∈ new) ∧ (h.2 ∈ A ∨ h.2 ∈ new)

variable {shape new hookups}

lemma Supported.mono {K A : Set ε} (hKA : K ⊆ A) {e : ε} (h : Supported shape new hookups K e) :
    Supported shape new hookups A e := by
  unfold Supported at *
  split_ifs at h ⊢ with hn
  · obtain ⟨x, hx, hxe, hend⟩ := h
    exact ⟨x, hx, hxe, hend.imp_left fun hK => hKA hK⟩
  · obtain ⟨hout, x, hx, hxe, hend⟩ := h
    exact ⟨hout, x, hx, hxe, hend.imp_left fun hK => hKA hK⟩

variable [DecidableEq ε]

lemma Between.referenced_iff {A : Set ε} {left : List (ε × ε)} (h : Between new hookups A left)
    {e : ε} (he : e ∈ A) : referenced shape e left ↔ Supported shape new hookups A e := by
  have hinto : (∃ x ∈ left, x.2 = e) ↔ ∃ x ∈ hookups, x.2 = e ∧ (x.1 ∈ A ∨ x.1 ∈ new) := by
    constructor
    · rintro ⟨x, hx, rfl⟩
      exact ⟨x, ((h x).mp hx).1, rfl, ((h x).mp hx).2.1⟩
    · rintro ⟨x, hx, rfl, hend⟩
      exact ⟨x, (h x).mpr ⟨hx, hend, .inl he⟩, rfl⟩
  have hout : (∃ x ∈ left, x.1 = e) ↔ ∃ x ∈ hookups, x.1 = e ∧ (x.2 ∈ A ∨ x.2 ∈ new) := by
    constructor
    · rintro ⟨x, hx, rfl⟩
      exact ⟨x, ((h x).mp hx).1, rfl, ((h x).mp hx).2.2⟩
    · rintro ⟨x, hx, rfl, hend⟩
      exact ⟨x, (h x).mpr ⟨hx, .inl he, hend⟩, rfl⟩
  unfold Supported
  split_ifs with hn
  · simp [referenced, hn, Nat.pos_iff_ne_zero.mp hn, hinto]
  · simp [referenced, Nat.eq_zero_of_not_pos hn, hout]

lemma Between.erase {A B : Set ε} {left : List (ε × ε)} (h : Between new hookups A left) {e : ε}
    (hB : ∀ x, x ∈ B ↔ x ∈ A ∧ x ≠ e) (he : e ∉ new) :
    Between new hookups B (left.filter fun h => !(h.2 = e || h.1 = e)) := by
  have hend : ∀ x, (x ∈ B ∨ x ∈ new) ↔ (x ∈ A ∨ x ∈ new) ∧ x ≠ e := by
    intro x
    have hnew : x ∈ new → x ≠ e := fun hx hxe => he (hxe ▸ hx)
    rw [hB]
    tauto
  intro x
  rw [mem_filter, h x, hend, hend]
  simp only [Bool.not_eq_true', Bool.or_eq_false_iff, decide_eq_false_iff_not]
  tauto

/-- One sweep over the elements that remain, after those that were passed and kept: it loses no
element of a self-supporting set, and it reports that nothing was lost only if all are supported. -/
lemma sweep_spec (shape : Shape ε) {old : List ε} (hfresh : ∀ e ∈ old, e ∉ new) (passed elements : List ε)
    {left : List (ε × ε)} (hnodup : (passed ++ elements).Nodup) (hold : elements ⊆ old)
    (hleft : Between new hookups {e | e ∈ passed ++ elements} left) :
    ∃ connected kept left', sweep shape elements left = (connected, kept, left') ∧
      kept <+ elements ∧ Between new hookups {e | e ∈ passed ++ kept} left' ∧
      (∀ K ∈ SelfSupporting shape new hookups old, (∀ e ∈ K, e ∈ passed ++ elements) →
        ∀ e ∈ K, e ∈ passed ++ kept) ∧
      (connected = true → kept = elements ∧
        ∀ e ∈ elements, Supported shape new hookups {e | e ∈ passed ++ elements} e) ∧
      (connected = false → kept.length < elements.length) := by
  induction elements generalizing passed left with
  | nil => exact ⟨true, [], left, rfl, .slnil, hleft, fun K _ h => h, by simp, by simp⟩
  | cons e elements ih =>
    have hassoc : passed ++ e :: elements = (passed ++ [e]) ++ elements := by simp
    have hiff : referenced shape e left ↔ _ :=
      hleft.referenced_iff (mem_append_right passed mem_cons_self)
    rw [sweep]
    split_ifs with href
    · rw [hassoc] at hnodup hleft hiff ⊢
      obtain ⟨connected, kept, left', hsweep, hsub, hbetween, hK, htrue, hfalse⟩ :=
        ih (passed ++ [e]) hnodup (fun x hx => hold (mem_cons_of_mem e hx)) hleft
      have hkept : passed ++ e :: kept = (passed ++ [e]) ++ kept := by simp
      refine ⟨connected, e :: kept, left', by rw [hsweep], hsub.cons_cons e, hkept ▸ hbetween,
        hkept ▸ hK, fun hc => ?_, fun hc => Nat.succ_lt_succ (hfalse hc)⟩
      obtain ⟨rfl, hall⟩ := htrue hc
      exact ⟨rfl, forall_mem_cons.mpr ⟨hiff.mp href, hall⟩⟩
    · -- the element is not supported, so it belongs to no self-supporting set
      have hne : ∀ x, x ∈ passed ++ elements ↔ x ∈ passed ++ e :: elements ∧ x ≠ e := by
        intro x
        have hmid : e ∉ passed ++ elements := (nodup_middle.mp hnodup).notMem
        simp only [mem_append, mem_cons] at hmid ⊢
        constructor
        · exact fun hx => ⟨hx.imp_right .inr, fun hxe => hmid (hxe ▸ hx)⟩
        · rintro ⟨hx | hx | hx, hxe⟩
          exacts [.inl hx, absurd hx hxe, .inr hx]
      obtain ⟨connected, kept, left', hsweep, hsub, hbetween, hK, -, -⟩ :=
        ih passed (nodup_middle.mp hnodup).of_cons (fun x hx => hold (mem_cons_of_mem e hx))
          (hleft.erase hne (hfresh e (hold mem_cons_self)))
      refine ⟨false, kept, left', by rw [hsweep], hsub.cons e, hbetween, fun K hmem hKA => ?_,
        by simp, fun _ => Nat.lt_succ_of_le hsub.length_le⟩
      refine hK K hmem fun x hx => (hne x).mpr ⟨hKA x hx, fun hxe => href (hiff.mpr ?_)⟩
      exact (hmem.2 e (hxe ▸ hx)).mono hKA

lemma prune_spec (shape : Shape ε) {old : List ε} (hfresh : ∀ e ∈ old, e ∉ new) (n : ℕ) (elements : List ε)
    {left : List (ε × ε)} (hn : elements.length < n) (hnodup : elements.Nodup)
    (hold : elements ⊆ old) (hleft : Between new hookups {e | e ∈ elements} left)
    (hK : ∀ K ∈ SelfSupporting shape new hookups old, ∀ e ∈ K, e ∈ elements) :
    ∃ kept, prune shape n elements left = some kept ∧
      IsGreatest (SelfSupporting shape new hookups old) {e | e ∈ kept} := by
  induction n generalizing elements left with
  | zero => exact absurd hn (Nat.not_lt_zero _)
  | succ n ih =>
    obtain ⟨connected, kept, left', hsweep, hsub, hbetween, hkeeps, htrue, hfalse⟩ :=
      sweep_spec shape hfresh [] elements hnodup hold hleft
    simp only [prune, hsweep]
    have hkept : ∀ K ∈ SelfSupporting shape new hookups old, ∀ e ∈ K, e ∈ kept :=
      fun K hmem => hkeeps K hmem (hK K hmem)
    cases connected with
    | true =>
      obtain ⟨rfl, hall⟩ := htrue rfl
      exact ⟨kept, rfl, ⟨fun e he => hold he, hall⟩, hkept⟩
    | false =>
      have hlt := hfalse rfl
      exact ih kept (by omega) (hnodup.sublist hsub) (fun x hx => hold (hsub.subset hx)) hbetween
        hkept

/-- **An edit prunes exactly the disconnected part**: the loop ends, it keeps the greatest set of
old elements that support one another, and the order of the vectors does not matter. -/
theorem prune_greatest (shape : Shape ε) (new old : List ε) (oldHookups newHookups : List (ε × ε))
    (hwf : Wf new (oldHookups ++ newHookups) old) :
    ∃ kept, (∃ rounds, prune shape rounds old (oldHookups ++ newHookups) = some kept) ∧
      IsGreatest (SelfSupporting shape new (oldHookups ++ newHookups) old) {e | e ∈ kept} ∧
      ∀ old' hookups', old'.Perm old → hookups'.Perm (oldHookups ++ newHookups) →
        ∃ kept', (∃ rounds, prune shape rounds old' hookups' = some kept') ∧
          ∀ e, e ∈ kept' ↔ e ∈ kept := by
  set hookups := oldHookups ++ newHookups
  -- membership is all that the conditions are about
  have hrun : ∀ old' hookups', old'.Perm old → hookups'.Perm hookups →
      ∃ kept, (∃ rounds, prune shape rounds old' hookups' = some kept) ∧
        IsGreatest (SelfSupporting shape new hookups old) {e | e ∈ kept} := by
    intro old' hookups' hold hhook
    have hbetween : Between new hookups {e | e ∈ old'} hookups' := by
      refine fun h => ⟨fun hh => ⟨hhook.subset hh, ?_⟩, fun hh => hhook.symm.subset hh.1⟩
      obtain ⟨hfrom, hto⟩ := hwf.ends h (hhook.subset hh)
      exact ⟨hfrom.imp_left fun hx => hold.symm.subset hx,
        hto.imp_left fun hx => hold.symm.subset hx⟩
    obtain ⟨kept, hprune, hgreatest⟩ := prune_spec shape hwf.fresh (old'.length + 1) old'
      (Nat.lt_succ_self _) (hold.nodup_iff.mpr hwf.nodup) hold.subset hbetween
      fun K hK e he => hold.symm.subset (hK.1 e he)
    exact ⟨kept, ⟨_, hprune⟩, hgreatest⟩
  obtain ⟨kept, hkept, hgreatest⟩ := hrun old hookups (Perm.refl _) (Perm.refl _)
  refine ⟨kept, hkept, hgreatest, fun old' hookups' hold hhook => ?_⟩
  obtain ⟨kept', hkept', hgreatest'⟩ := hrun old' hookups' hold hhook
  exact ⟨kept', hkept', Set.ext_iff.mp (hgreatest'.unique hgreatest)⟩

theorem prune_greatest_cycle :
    ∃ kept, (∃ rounds, prune ⟨fun _ => 1, fun _ => 1⟩ rounds [0, 1, 2] ([(0, 1), (1, 0)] ++ [(2, 3)]) =
        some kept) ∧
      IsGreatest (SelfSupporting ⟨fun _ => 1, fun _ => 1⟩ [3] ([(0, 1), (1, 0)] ++ [(2, 3)])
        [0, 1, 2]) {e | e ∈ kept} ∧
      ∀ old' hookups', old'.Perm [0, 1, 2] → hookups'.Perm ([(0, 1), (1, 0)] ++ [(2, 3)]) →
        ∃ kept', (∃ rounds, prune ⟨fun _ => 1, fun _ => 1⟩ rounds old' hookups' = some kept') ∧
          ∀ e, e ∈ kept' ↔ e ∈ kept :=
  prune_greatest _ [3] _ _ _ ⟨by decide, by decide, by decide⟩

end P2.Core.DataflowEdit
