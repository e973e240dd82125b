import Mathlib.Data.List.Perm.Basic
import Mathlib.Data.List.Nodup

/-!
# Reassembly buffers

Pieces of several wholes arrive in some order at a buffer. A whole is named by a key; a piece is
kept until as many pieces of its key are there as the whole has, and is dropped when a duplicate
test takes it for a copy. `pending_run_eq_nil_iff` says when nothing is left.
-/

namespace P2.Lib.Reassembly

open List

variable {F K : Type} [DecidableEq K]

/-- The pieces that wait for others, and the keys of the wholes put together so far, in order. -/
structure Buffer (F K : Type) where
  pending : List F := []
  /-- The keys whose wholes are complete. -/
  done : List K := []

variable (key : F → K) (total : K → ℕ) (dup : List F → F → Bool)

def arrive (b : Buffer F K) (f : F) : Buffer F K :=
  if dup b.pending f then b
  else if b.pending.countP (key · = key f) + 1 = total (key f) then
    ⟨b.pending.filter (key · ≠ key f), b.done ++ [key f]⟩
  else ⟨f :: b.pending, b.done⟩

/-- The arrivals of a list, one after the other. -/
def run (b : Buffer F K) (order : List F) : Buffer F K := order.foldl (arrive key total dup) b

/-- The pieces among those arrived whose wholes are not yet complete. -/
def waiting (arrived : List F) : List F :=
  arrived.filter fun f => arrived.countP (key · = key f) < total (key f)

def Complete (order : List F) : Prop :=
  ∀ f ∈ order, order.countP (key · = key f) = total (key f)

/-- The buffer has kept the pieces of the incomplete wholes, and has put each of the others
together once. -/
structure Tracks (arrived : List F) (b : Buffer F K) : Prop where
  /-- Nothing was lost or left behind. -/
  pending : b.pending.Perm (waiting key total arrived)
  /-- No whole was put together twice. -/
  nodup : b.done.Nodup
  /-- The complete wholes were put together. -/
  done : ∀ k, k ∈ b.done ↔ (∃ f ∈ arrived, key f = k) ∧ arrived.countP (key · = k) = total k

variable {key : F → K} {total : K → ℕ} {dup : List F → F → Bool}

lemma tracks_nil : Tracks key total [] (⟨[], []⟩ : Buffer F K) where
  pending := List.Perm.refl _
  nodup := nodup_nil
  done k := by simp

lemma Complete.countP_lt {pre post : List F} {f : F} (h : Complete key total (pre ++ f :: post)) :
    pre.countP (key · = key f) + post.countP (key · = key f) + 1 = total (key f) := by
  have hf := h f (by simp)
  rw [countP_append, countP_cons] at hf
  simp only [decide_true, if_true] at hf
  omega

lemma countP_waiting {arrived : List F} {k : K} (h : arrived.countP (key · = k) < total k) :
    (waiting key total arrived).countP (key · = k) = arrived.countP (key · = k) := by
  unfold waiting
  rw [countP_filter]
  apply countP_congr
  intro g _
  simp only [Bool.and_eq_true, decide_eq_true_eq, and_iff_left_iff_imp]
  rintro rfl
  exact h

lemma waiting_concat {pre : List F} {f : F} (h : pre.countP (key · = key f) < total (key f)) :
    waiting key total (pre ++ [f]) =
      if pre.countP (key · = key f) + 1 = total (key f) then
        (waiting key total pre).filter (key · ≠ key f)
      else waiting key total pre ++ [f] := by
  have hself : (pre ++ [f]).countP (key · = key f) = pre.countP (key · = key f) + 1 := by
    simp
  have hother : ∀ g, key g ≠ key f →
      (pre ++ [f]).countP (key · = key g) = pre.countP (key · = key g) := by
    intro g hg
    simp [Ne.symm hg]
  unfold waiting
  rw [filter_append]
  split_ifs with hlast
  · have hgone : List.filter
        (fun g => decide ((pre ++ [f]).countP (key · = key g) < total (key g))) [f] = [] := by
      simp [hlast]
    rw [hgone, append_nil, filter_filter]
    apply filter_congr
    intro g _
    by_cases hg : key g = key f
    · simp [hg, hlast]
    · simp [hg, hother g hg]
  · have hstays : List.filter
        (fun g => decide ((pre ++ [f]).countP (key · = key g) < total (key g))) [f] = [f] := by
      have hlt : pre.countP (key · = key f) + 1 < total (key f) := by omega
      simp [hlt]
    congr 1
    apply filter_congr
    intro g _
    by_cases hg : key g = key f
    · rw [hg, hself, decide_eq_decide]
      omega
    · rw [hother g hg]

lemma Tracks.arrive {pre post : List F} {f : F} {b : Buffer F K}
    (horder : Complete key total (pre ++ f :: post)) (hb : Tracks key total pre b)
    (hdup : dup b.pending f = false) :
    Tracks key total (pre ++ [f]) (arrive key total dup b f) := by
  have hcount := horder.countP_lt
  have hlt : pre.countP (key · = key f) < total (key f) := by omega
  have hpend : b.pending.countP (key · = key f) = pre.countP (key · = key f) := by
    rw [hb.pending.countP_eq, countP_waiting hlt]
  have hself : (pre ++ [f]).countP (key · = key f) = pre.countP (key · = key f) + 1 := by
    simp
  have hother : ∀ k, k ≠ key f → (pre ++ [f]).countP (key · = k) = pre.countP (key · = k) := by
    intro k hk
    simp [Ne.symm hk]
  have hnew : key f ∉ b.done := fun hmem => by have := ((hb.done _).mp hmem).2; omega
  have hdone : ∀ k, k ≠ key f → (k ∈ b.done ↔
      (∃ g ∈ pre ++ [f], key g = k) ∧ (pre ++ [f]).countP (key · = k) = total k) := by
    intro k hk
    rw [hb.done k, hother k hk]
    simp [Ne.symm hk]
  unfold Reassembly.arrive
  rw [hdup, if_neg Bool.false_ne_true, hpend]
  have hwait := waiting_concat hlt
  split_ifs at hwait ⊢ with hlast
  · refine ⟨hwait ▸ hb.pending.filter _, ?_, fun k => ?_⟩
    · exact nodup_append.mpr ⟨hb.nodup, nodup_singleton _, fun k hk k' hk' heq =>
        hnew (mem_singleton.mp hk' ▸ heq ▸ hk)⟩
    · by_cases hk : k = key f
      · subst hk
        simp only [mem_append, mem_singleton, or_true, hself, hlast, and_true, true_iff]
        exact ⟨f, Or.inr rfl, rfl⟩
      · rw [mem_append, mem_singleton, or_iff_left hk, hdone k hk]
  · refine ⟨?_, hb.nodup, fun k => ?_⟩
    · rw [hwait]
      exact (hb.pending.cons f).trans (perm_append_singleton f _).symm
    · by_cases hk : k = key f
      · subst hk
        rw [hself]
        exact iff_of_false hnew fun h => hlast h.2
      · exact hdone k hk

lemma exists_pending_arrive (dup : List F → F → Bool) {b : Buffer F K} {f : F} {k : K} {n : ℕ}
    (hmem : ∃ g ∈ b.pending, key g = k)
    (hcount : b.pending.countP (key · = k) + (n + if key f = k then 1 else 0) < total k) :
    (∃ g ∈ (arrive key total dup b f).pending, key g = k) ∧
      (arrive key total dup b f).pending.countP (key · = k) + n < total k := by
  obtain ⟨g, hg, rfl⟩ := hmem
  unfold Reassembly.arrive
  by_cases hf : key f = key g
  · rw [if_pos hf] at hcount
    split_ifs with hd hlast
    · exact ⟨⟨g, hg, rfl⟩, by omega⟩
    · rw [hf] at hlast
      omega
    · refine ⟨⟨g, mem_cons_of_mem f hg, rfl⟩, ?_⟩
      rw [countP_cons_of_pos (by simpa using hf)]
      omega
  · split_ifs with hd hlast
    · exact ⟨⟨g, hg, rfl⟩, by omega⟩
    · refine ⟨⟨g, mem_filter.mpr ⟨hg, by simpa using Ne.symm hf⟩, rfl⟩, ?_⟩
      have hle : (b.pending.filter (key · ≠ key f)).countP (key · = key g) ≤
          b.pending.countP (key · = key g) := filter_sublist.countP_le
      show (b.pending.filter (key · ≠ key f)).countP (key · = key g) + n < total (key g)
      omega
    · refine ⟨⟨g, mem_cons_of_mem f hg, rfl⟩, ?_⟩
      rw [countP_cons_of_neg (by simpa using hf)]
      omega

lemma exists_pending_run (dup : List F → F → Bool) {b : Buffer F K} {post : List F} {k : K}
    (hmem : ∃ g ∈ b.pending, key g = k)
    (hcount : b.pending.countP (key · = k) + post.countP (key · = k) < total k) :
    ∃ g ∈ (run key total dup b post).pending, key g = k := by
  induction post generalizing b with
  | nil => exact hmem
  | cons f post ih =>
    rw [countP_cons] at hcount
    have hstep := exists_pending_arrive dup hmem (by simpa using hcount)
    exact ih hstep.1 hstep.2

section Settled

variable (hperm : ∀ l l' f, l.Perm l' → dup l f = dup l' f)
  (hsibling : ∀ l f, dup l f → ∃ g ∈ l, key g = key f)

include hperm in
lemma Tracks.run {pre post : List F} {b : Buffer F K} (horder : Complete key total (pre ++ post))
    (hb : Tracks key total pre b)
    (hdup : ∀ mid f rest, post = mid ++ f :: rest →
      dup (waiting key total (pre ++ mid)) f = false) :
    Tracks key total (pre ++ post) (run key total dup b post) := by
  induction post generalizing pre b with
  | nil => rwa [append_nil]
  | cons f post ih =>
    have hf : dup b.pending f = false := by
      rw [hperm _ _ f hb.pending, ← append_nil pre]
      exact hdup [] f post rfl
    have horder' : Complete key total ((pre ++ [f]) ++ post) := by
      rwa [append_assoc, singleton_append]
    have hrest := ih horder' (hb.arrive horder hf) fun mid g rest hpost => by
      rw [append_assoc]
      exact hdup (f :: mid) g rest (by rw [hpost, cons_append])
    rwa [append_assoc, singleton_append] at hrest

include hperm hsibling in
lemma not_dup_of_pending_eq_nil {pre post : List F} {b : Buffer F K}
    (horder : Complete key total (pre ++ post)) (hb : Tracks key total pre b)
    (hnil : (Reassembly.run key total dup b post).pending = []) :
    ∀ mid f rest, post = mid ++ f :: rest → dup (waiting key total (pre ++ mid)) f = false := by
  induction post generalizing pre b with
  | nil =>
    intro mid f rest hpost
    exact absurd (congrArg List.length hpost) (by simp)
  | cons f post ih =>
    have hf : dup b.pending f = false := by
      by_contra hd
      rw [Bool.not_eq_false] at hd
      have hcount := horder.countP_lt
      have hpend : b.pending.countP (key · = key f) = pre.countP (key · = key f) := by
        rw [hb.pending.countP_eq, countP_waiting (by omega)]
      have hstay : arrive key total dup b f = b := by
        unfold Reassembly.arrive
        rw [if_pos hd]
      have hleft : b.pending.countP (key · = key f) + post.countP (key · = key f) <
          total (key f) := by omega
      obtain ⟨g, hg, -⟩ := exists_pending_run dup (hsibling _ _ hd) hleft
      unfold Reassembly.run at hnil hg
      rw [foldl_cons, hstay] at hnil
      rw [hnil] at hg
      exact absurd hg not_mem_nil
    have horder' : Complete key total ((pre ++ [f]) ++ post) := by
      rwa [append_assoc, singleton_append]
    intro mid g rest hpost
    rcases mid with _ | ⟨f', mid⟩
    · obtain ⟨rfl, -⟩ := List.cons.inj hpost
      rw [append_nil, ← hperm _ _ f hb.pending]
      exact hf
    · obtain ⟨rfl, hpost'⟩ := List.cons.inj hpost
      have := ih horder' (hb.arrive horder hf) hnil mid g rest hpost'
      rwa [append_assoc, singleton_append] at this

lemma waiting_eq_nil {order : List F} (horder : Complete key total order) :
    waiting key total order = [] := by
  unfold waiting
  rw [filter_eq_nil_iff]
  intro f hf
  rw [horder f hf]
  simp

include hperm hsibling in
/-- **Nothing is left exactly when no piece was taken for a copy**, judged by what an ideal buffer
keeps at that moment. -/
theorem pending_run_eq_nil_iff {order : List F} (horder : Complete key total order) :
    (run key total dup ⟨[], []⟩ order).pending = [] ↔
      ∀ pre f post, order = pre ++ f :: post → dup (waiting key total pre) f = false := by
  constructor
  · intro hnil
    have h : ∀ mid f rest, order = mid ++ f :: rest → dup (waiting key total ([] ++ mid)) f = false :=
      not_dup_of_pending_eq_nil hperm hsibling horder tracks_nil hnil
    exact h
  · intro hdup
    have h : Tracks key total ([] ++ order) (run key total dup ⟨[], []⟩ order) :=
      Tracks.run hperm horder tracks_nil hdup
    have hwait := h.pending
    rw [nil_append, waiting_eq_nil horder] at hwait
    exact hwait.eq_nil

end Settled

end P2.Lib.Reassembly
