import Mathlib.Data.List.Dedup
import Mathlib.Data.List.Nodup

/-!
# The order of last occurrences

A queue in which an element may stand several times, and the list of its elements by their last
occurrence. Elements enter at the end and leave at the head.

* `recent_pop_of_mem`, `recent_pop_of_notMem` — leaving changes nothing, unless the element stands
  nowhere else in the queue; then it was the last one.
-/

namespace P2.Lib

open List

variable {α : Type*} [DecidableEq α] {queue : List α} {a b : α}

/-- The elements of a queue, the one that entered last first. -/
def recent (queue : List α) : List α := queue.dedup.reverse

@[simp] lemma mem_recent : a ∈ recent queue ↔ a ∈ queue := by
  unfold recent
  rw [mem_reverse, mem_dedup]

lemma nodup_recent (queue : List α) : (recent queue).Nodup := nodup_reverse.mpr (nodup_dedup queue)

lemma recent_pop_of_mem (h : a ∈ queue) : recent (a :: queue) = recent queue := by
  unfold recent
  rw [dedup_cons_of_mem h]

lemma recent_pop_of_notMem (h : a ∉ queue) : recent (a :: queue) = recent queue ++ [a] := by
  unfold recent
  rw [dedup_cons_of_notMem h, reverse_cons]

lemma dedup_append_singleton (queue : List α) (a : α) :
    (queue ++ [a]).dedup = queue.dedup.filter (· ≠ a) ++ [a] := by
  induction queue with
  | nil => rfl
  | cons b queue ih =>
    rw [cons_append]
    by_cases hb : b ∈ queue
    · rw [dedup_cons_of_mem hb, dedup_cons_of_mem (mem_append_left _ hb), ih]
    · rw [dedup_cons_of_notMem hb]
      by_cases hba : b = a
      · have hmem : b ∈ queue ++ [a] := mem_append_right _ (mem_singleton.mpr hba)
        have hdrop : ¬ decide (b ≠ a) = true := by simpa using hba
        rw [dedup_cons_of_mem hmem, ih, filter_cons, if_neg hdrop]
      · have hnot : b ∉ queue ++ [a] := by
          rw [mem_append, mem_singleton]
          exact not_or.mpr ⟨hb, hba⟩
        rw [dedup_cons_of_notMem hnot, ih, filter_cons, if_pos (decide_eq_true hba)]
        rfl

lemma recent_push (queue : List α) (a : α) :
    recent (queue ++ [a]) = a :: (recent queue).filter (· ≠ a) := by
  unfold recent
  rw [dedup_append_singleton, reverse_append, filter_reverse]
  rfl

end P2.Lib
