import Mathlib.Data.List.Pairwise
import Mathlib.Tactic.Common

/-!
# Numbered items

Queues of items that carry sequence numbers of 64 bits, in the order of their numbers.

* `place number x queue`: the queue with the item in its place, unless its number is there.
* `mem_place`, `pairwise_place`: what is in the new queue, and that it is in order;
  `exists_of_place_eq_none`: why there is none.
* `toInt_add_one`: the next number, below the greatest one.
-/

namespace P2.Lib.Numbered

open List Option Int64

lemma toInt_add_one {n : Int64} (h : n ≠ maxValue) : (n + 1).toInt = n.toInt + 1 := by
  have hlt : n.toInt < 2 ^ 63 - 1 := by
    have hle : n.toInt ≤ 2 ^ 63 - 1 := toInt_le n
    rcases Int.lt_or_eq_of_le hle with hlt | heq
    · exact hlt
    · exact absurd (toInt_inj.mp heq) h
  have hge : -2 ^ 63 ≤ n.toInt := le_toInt n
  rw [toInt_add]
  apply Int.bmod_eq_of_le
  · show _ ≤ n.toInt + 1
    omega
  · show n.toInt + 1 < _
    omega

variable {α : Type} {number : α → Int64} {x : α} {queue queue' : List α}

/-- The item goes in front of the first one with a greater number; `none` where its number is there. -/
def place (number : α → Int64) (x : α) : List α → Option (List α)
  | [] => some [x]
  | q :: queue =>
    if number x = number q then none
    else if number x < number q then some (x :: q :: queue)
    else (place number x queue).map (q :: ·)

lemma mem_place (hplace : place number x queue = some queue') (q : α) :
    q ∈ queue' ↔ q = x ∨ q ∈ queue := by
  fun_induction place number x queue generalizing queue' with
  | case1 =>
    rw [← some.inj hplace]
    simp
  | case2 => cases hplace
  | case3 => rw [← some.inj hplace, mem_cons]
  | case4 p queue _ _ ih =>
    obtain ⟨rest, hrest, rfl⟩ := map_eq_some_iff.mp hplace
    rw [mem_cons, ih hrest, mem_cons]
    tauto

lemma exists_of_place_eq_none (hplace : place number x queue = none) :
    ∃ q ∈ queue, number x = number q := by
  fun_induction place number x queue with
  | case1 | case3 => cases hplace
  | case2 q queue heq => exact ⟨q, mem_cons_self, heq⟩
  | case4 q queue _ _ ih =>
    obtain ⟨r, hr, heq⟩ := ih (map_eq_none_iff.mp hplace)
    exact ⟨r, mem_cons_of_mem q hr, heq⟩

lemma pairwise_place (hplace : place number x queue = some queue')
    (hsorted : queue.Pairwise fun p q => number p < number q) :
    queue'.Pairwise fun p q => number p < number q := by
  fun_induction place number x queue generalizing queue' with
  | case1 =>
    rw [← some.inj hplace]
    exact pairwise_singleton _ _
  | case2 => cases hplace
  | case3 q queue _ hlt =>
    rw [← some.inj hplace]
    refine pairwise_cons.mpr ⟨?_, hsorted⟩
    rintro p (_ | ⟨_, hp⟩)
    · exact hlt
    · exact Int64.lt_trans hlt ((pairwise_cons.mp hsorted).1 p hp)
  | case4 q queue heq hlt ih =>
    rw [pairwise_cons] at hsorted
    obtain ⟨rest, hrest, rfl⟩ := map_eq_some_iff.mp hplace
    refine pairwise_cons.mpr ⟨fun p hp => ?_, ih hrest hsorted.2⟩
    rcases (mem_place hrest p).mp hp with rfl | hp
    · exact Int64.lt_of_le_of_ne (Int64.not_lt.mp hlt) (Ne.symm heq)
    · exact hsorted.1 p hp

end P2.Lib.Numbered
