import Mathlib.Data.List.Basic

/-!
# Longest match

How a generated lexer chooses among its rules: the rule that matches most of the text, and of
several such rules the first one: `longest`.
-/

namespace P2.Lib

open List

variable {ρ : Type} {len : ρ → ℕ}

def longest (len : ρ → ℕ) : List ρ → Option ρ
  | [] => none
  | r :: rules =>
    match longest len rules with
    | none => some r
    | some r' => if len r < len r' then some r' else some r

lemma longest_mem {rules : List ρ} {r : ρ} (h : longest len rules = some r) : r ∈ rules := by
  fun_induction longest len rules with
  | case1 => cases h
  | case2 | case4 => exact mem_cons.mpr (Or.inl (Option.some.inj h).symm)
  | case3 r₀ rules r' hl _ ih => exact mem_cons_of_mem r₀ (ih (hl.trans h))

lemma longest_eq_find? {rules : List ρ} {n : ℕ} (hle : ∀ r ∈ rules, len r ≤ n)
    (hmax : ∃ r ∈ rules, len r = n) : longest len rules = rules.find? fun r => len r == n := by
  induction rules with
  | nil =>
    obtain ⟨r, hr, -⟩ := hmax
    cases hr
  | cons r₀ rules ih =>
    have hle' : ∀ r ∈ rules, len r ≤ n := fun r hr => hle r (mem_cons_of_mem r₀ hr)
    rw [longest, List.find?_cons]
    by_cases h₀ : len r₀ = n
    · simp only [h₀, beq_self_eq_true]
      cases hl : longest len rules with
      | none => rfl
      | some r' => simp [if_neg (Nat.not_lt.mpr (hle' r' (longest_mem hl)))]
    · have hmax' : ∃ r ∈ rules, len r = n := by
        obtain ⟨r, hr, hlen⟩ := hmax
        rcases mem_cons.mp hr with rfl | hr
        · exact absurd hlen h₀
        · exact ⟨r, hr, hlen⟩
      have hlt : len r₀ < n := Nat.lt_of_le_of_ne (hle r₀ mem_cons_self) h₀
      rw [ih hle' hmax']
      cases hfind : rules.find? fun r => len r == n with
      | none =>
        obtain ⟨r, hr, hlen⟩ := hmax'
        exact absurd hlen (by simpa using List.find?_eq_none.mp hfind r hr)
      | some r' =>
        have hr' : len r' = n := by simpa using List.find?_some hfind
        simp [hr', if_pos hlt, beq_eq_false_iff_ne.mpr h₀]

end P2.Lib
