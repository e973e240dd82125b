import Mathlib.Data.List.Basic

/-!
# A block of memory

A block of cells that is read and written by ranges, as `memcpy` does.

* `slice mem off n` — the `n` cells from `off` on.
* `store mem off cells` — the block with the cells written from `off` on; `none` where they do not
  fit.
-/

namespace P2.Lib.Memory

open List

variable {α : Type} {mem cells : List α} {off n : ℕ}

def slice (mem : List α) (off n : ℕ) : List α := (mem.drop off).take n

def store (mem : List α) (off : ℕ) (cells : List α) : Option (List α) :=
  if off + cells.length ≤ mem.length then
    some (mem.take off ++ cells ++ mem.drop (off + cells.length))
  else none

lemma length_slice (h : off + n ≤ mem.length) : (slice mem off n).length = n := by
  unfold slice
  rw [length_take, length_drop]
  omega

lemma slice_add (mem : List α) (off m n : ℕ) :
    slice mem off (m + n) = slice mem off m ++ slice mem (off + m) n := by
  unfold slice
  rw [take_add, drop_drop]

lemma take_slice (mem : List α) (off : ℕ) {m n : ℕ} (h : m ≤ n) :
    (slice mem off n).take m = slice mem off m := by
  unfold slice
  rw [take_take, Nat.min_eq_left h]

lemma drop_slice (mem : List α) (off m n : ℕ) :
    (slice mem off n).drop m = slice mem (off + m) (n - m) := by
  unfold slice
  rw [drop_take, drop_drop]

lemma getElem?_slice (mem : List α) (off : ℕ) {i n : ℕ} (h : i < n) :
    (slice mem off n)[i]? = mem[off + i]? := by
  unfold slice
  rw [List.getElem?_take_of_lt h, List.getElem?_drop]

lemma getElem?_store {mem' : List α} (h : store mem off cells = some mem') (i : ℕ) :
    mem'[i]? = if off ≤ i ∧ i < off + cells.length then cells[i - off]? else mem[i]? := by
  unfold store at h
  split at h
  · rename_i hfit
    rw [← Option.some.inj h]
    have htake : (mem.take off).length = off := by
      rw [length_take]
      omega
    by_cases hlow : i < off
    · rw [if_neg (by omega), append_assoc, List.getElem?_append_left (htake.symm ▸ hlow),
        List.getElem?_take_of_lt hlow]
    · by_cases hin : i < off + cells.length
      · rw [if_pos ⟨by omega, hin⟩, append_assoc, List.getElem?_append_right (by omega), htake,
          List.getElem?_append_left (by omega)]
      · have hlen : (mem.take off ++ cells).length = off + cells.length := by
          rw [length_append, htake]
        rw [if_neg (by omega), List.getElem?_append_right (by omega), List.getElem?_drop]
        congr 1
        omega
  · cases h

lemma store_spec (mem : List α) (off : ℕ) (cells : List α) (h : off + cells.length ≤ mem.length) :
    ∃ mem', store mem off cells = some mem' ∧ mem'.length = mem.length ∧
      slice mem' off cells.length = cells ∧
    ∀ o n, o + n ≤ off ∨ off + cells.length ≤ o → slice mem' o n = slice mem o n := by
  obtain ⟨mem', hmem'⟩ : ∃ mem', store mem off cells = some mem' := ⟨_, if_pos h⟩
  refine ⟨mem', hmem', ?_, ?_, fun o n hapart => ?_⟩
  · rw [store, if_pos h] at hmem'
    rw [← Option.some.inj hmem', length_append, length_append, length_take, length_drop]
    omega
  · apply ext_getElem?
    intro i
    by_cases hi : i < cells.length
    · rw [getElem?_slice _ _ hi, getElem?_store hmem', if_pos (by omega), Nat.add_sub_cancel_left]
    · have hlen : (slice mem' off cells.length).length ≤ cells.length := length_take_le _ _
      rw [List.getElem?_eq_none (by omega), List.getElem?_eq_none (by omega)]
  · apply ext_getElem?
    intro i
    by_cases hi : i < n
    · rw [getElem?_slice _ _ hi, getElem?_slice _ _ hi, getElem?_store hmem', if_neg (by omega)]
    · have hlen : ∀ m : List α, (slice m o n).length ≤ n := fun m => length_take_le _ _
      rw [List.getElem?_eq_none (Nat.le_trans (hlen mem') (Nat.not_lt.mp hi)),
        List.getElem?_eq_none (Nat.le_trans (hlen mem) (Nat.not_lt.mp hi))]

/-- A list that repeats itself after `n` cells. -/
def Repeats (n : ℕ) (cells : List α) : Prop := cells.drop n = cells.take (cells.length - n)

instance [DecidableEq α] (n : ℕ) (cells : List α) : Decidable (Repeats n cells) :=
  inferInstanceAs (Decidable (_ = _))

lemma repeats_iff : Repeats n cells ↔ ∀ i, n + i < cells.length → cells[n + i]? = cells[i]? := by
  constructor
  · intro h i hi
    rw [← List.getElem?_drop, h, List.getElem?_take_of_lt (by omega)]
  · intro h
    apply ext_getElem?
    intro i
    by_cases hi : n + i < cells.length
    · rw [List.getElem?_drop, List.getElem?_take_of_lt (by omega), h i hi]
    · rw [List.getElem?_eq_none (by rw [length_drop]; omega),
        List.getElem?_eq_none (by rw [length_take]; omega)]

lemma repeats_of_length_le (h : cells.length ≤ n) : Repeats n cells :=
  repeats_iff.mpr fun i hi => absurd hi (by omega)

/-- **A range copied to the start of its block** stays as it is exactly if it repeats itself after
the distance of the copy. -/
lemma slice_store_slice {mem' : List α} (hfit : off + n ≤ mem.length)
    (h : store mem 0 (slice mem off n) = some mem') :
    slice mem' off n = slice mem off n ↔ Repeats off (slice mem off n) := by
  have hlen : (slice mem off n).length = n := length_slice hfit
  -- a cell of the range is written by the copy if it lies below the length of the range
  have hcell : ∀ i < n, (slice mem' off n)[i]? =
      if off + i < n then (slice mem off n)[off + i]? else (slice mem off n)[i]? := by
    intro i hi
    rw [getElem?_slice _ _ hi, getElem?_store h]
    by_cases hlow : off + i < n
    · rw [if_pos ⟨Nat.zero_le _, by omega⟩, if_pos hlow, Nat.sub_zero]
    · rw [if_neg (by omega), if_neg hlow, getElem?_slice _ _ hi]
  rw [repeats_iff, hlen]
  constructor
  · intro hsame i hi
    have hread := hcell i (by omega)
    rw [if_pos hi, hsame] at hread
    exact hread.symm
  · intro hrep
    apply ext_getElem?
    intro i
    by_cases hi : i < n
    · rw [hcell i hi]
      split_ifs with hlow
      · exact hrep i hlow
      · rfl
    · have hshort : ∀ m : List α, (slice m off n).length ≤ n := fun m => length_take_le _ _
      rw [List.getElem?_eq_none (Nat.le_trans (hshort mem') (Nat.not_lt.mp hi)),
        List.getElem?_eq_none (Nat.le_trans (hshort mem) (Nat.not_lt.mp hi))]

end P2.Lib.Memory
