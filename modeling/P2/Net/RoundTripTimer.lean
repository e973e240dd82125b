import Mathlib.Algebra.Order.Ring.Int
import Mathlib.Data.List.Induction
import Mathlib.Tactic.Common

/-!
# The estimate of the round trip time

`RoundTripTimer` keeps for each destination an average of the measured delays, scaled by eight, their
variance, scaled by four, and the timeout, in integers of 32 bits.

* `RTTRec.add_rtt_meas` and `RTTRec.timeout` are the two updates of the record.
* `RTTRec.estimate_exact`: no operation overflows, and the average and the timeout keep their bounds.
-/

namespace P2.Net

def MAX_RTO : ℤ := 5000

def MIN_RTO : ℤ := 500

structure RTTRec where
  sa : ℤ := -1
  sv : ℤ := 0
  rto : ℤ := MAX_RTO

namespace RTTRec

def clamp (rto : ℤ) : ℤ := if MAX_RTO < rto then MAX_RTO else if rto < MIN_RTO then MIN_RTO else rto

/-- What is left of a number in 32 bits. -/
def wrap (n : ℤ) : ℤ := n.bmod (2 ^ 32)

section Model

/-! The results of all operations go through `w`: `wrap` as in the source, or `id`. -/

variable (w : ℤ → ℤ)

def add_rtt_meas (m : ℤ) (r : RTTRec) : RTTRec :=
  if m < 0 then r
  else if r.sa = -1 then { sa := w (m * 8), sv := 0, rto := clamp (w (w (m * 4) + 10)) }
  else
    let m := w (m - r.sa / 8)
    let sa := w (r.sa + m)
    let m := if m < 0 then w (-1 * m) else m
    let m := w (m - r.sv / 4)
    let sv := w (r.sv + m)
    { sa := sa, sv := sv, rto := clamp (w (w (sa / 8 + sv) + 10)) }

def timeout (r : RTTRec) : RTTRec := { r with rto := clamp (w (r.rto * 2)) }

/-- An acknowledgement with a measured delay, or `none`: a timeout. -/
def step (r : RTTRec) : Option ℤ → RTTRec
  | some m => r.add_rtt_meas w m
  | none => r.timeout w

end Model

def Measured (os : List (Option ℤ)) : Prop := ∃ m, some m ∈ os ∧ 0 ≤ m

/-- Once a delay was measured, the average is between the least and the greatest delay. -/
structure Within (L D : ℤ) (measured : Prop) (r : RTTRec) : Prop where
  average : measured → r.sa ≠ -1 ∧ 8 * L ≤ r.sa ∧ r.sa / 8 ≤ D
  fresh : ¬ measured → r.sa = -1
  variance : 0 ≤ r.sv ∧ r.sv / 4 ≤ D
  timeout : MIN_RTO ≤ r.rto ∧ r.rto ≤ MAX_RTO

lemma clamp_within (n : ℤ) : MIN_RTO ≤ clamp n ∧ clamp n ≤ MAX_RTO := by
  unfold clamp MIN_RTO MAX_RTO
  split_ifs <;> omega

lemma wrap_eq {n : ℤ} (h : -2 ^ 31 ≤ n) (h' : n < 2 ^ 31) : wrap n = n :=
  Int.bmod_eq_of_le (by omega) (by omega)

variable {L D m : ℤ} {r : RTTRec} {measured : Prop}

lemma Within.step (hL : 0 ≤ L) (hD : 8 * D + 7 < 2 ^ 31) (h : r.Within L D measured) {o : Option ℤ}
    (ho : ∀ m ∈ o, 0 ≤ m → L ≤ m ∧ m ≤ D) : r.step wrap o = r.step id o ∧
      (r.step id o).Within L D (measured ∨ ∃ m ∈ o, 0 ≤ m) := by
  obtain ⟨haverage, hfresh, ⟨hsv, hsv'⟩, htimeout⟩ := h
  cases o with
  | none =>
    unfold MIN_RTO MAX_RTO at htimeout
    refine ⟨?_, fun h => haverage (h.resolve_right nofun), fun hnot => hfresh (mt Or.inl hnot),
      ⟨hsv, hsv'⟩, clamp_within _⟩
    simp only [RTTRec.step, RTTRec.timeout, wrap_eq (n := r.rto * 2) (by omega) (by omega), id]
  | some m =>
    by_cases hm : m < 0
    · have hnone : ¬ ∃ m' ∈ some m, 0 ≤ m' := by simpa using hm
      simp only [RTTRec.step, add_rtt_meas, if_pos hm, hnone, or_false]
      exact ⟨trivial, haverage, hfresh, ⟨hsv, hsv'⟩, htimeout⟩
    obtain ⟨hLm, hmD⟩ := ho m rfl (Int.not_lt.mp hm)
    have hnow : measured ∨ ∃ m' ∈ some m, 0 ≤ m' := Or.inr ⟨m, rfl, Int.not_lt.mp hm⟩
    simp only [RTTRec.step, add_rtt_meas, if_neg hm]
    by_cases hfirst : r.sa = -1
    · simp only [if_pos hfirst, id]
      rw [wrap_eq (n := m * 8) (by omega) (by omega), wrap_eq (n := m * 4) (by omega) (by omega),
        wrap_eq (n := m * 4 + 10) (by omega) (by omega)]
      refine ⟨rfl, fun _ => ⟨?_, ?_, ?_⟩, fun hnot => absurd hnow hnot, ⟨Int.le_refl _, ?_⟩,
        clamp_within _⟩ <;> dsimp only <;> omega
    · obtain ⟨-, hsa, hsa'⟩ := haverage (by_contra fun hnot => hfirst (hfresh hnot))
      -- how far the delay is from the average, and how far that is from the variance
      obtain ⟨d, hd⟩ : ∃ d, d = m - r.sa / 8 := ⟨_, rfl⟩
      obtain ⟨a, ha⟩ : ∃ a, a = if d < 0 then -1 * d else d := ⟨_, rfl⟩
      have hwrap : (if d < 0 then wrap (-1 * d) else d) = a := by
        rw [ha, wrap_eq (by omega) (by omega)]
      have hbound : 0 ≤ a ∧ a ≤ D := by
        split_ifs at ha <;> omega
      simp only [if_neg hfirst, id, ← hd, wrap_eq (n := d) (by omega) (by omega), hwrap, ← ha]
      rw [wrap_eq (n := r.sa + d) (by omega) (by omega),
        wrap_eq (n := a - r.sv / 4) (by omega) (by omega),
        wrap_eq (n := r.sv + _) (by omega) (by omega), wrap_eq (n := _ / 8 + _) (by omega) (by omega),
        wrap_eq (n := _ + 10) (by omega) (by omega)]
      refine ⟨rfl, fun _ => ⟨?_, ?_, ?_⟩, fun hnot => absurd hnow hnot, ⟨?_, ?_⟩, clamp_within _⟩ <;>
        dsimp only <;> omega

lemma within_run (hL : 0 ≤ L) (hLD : L ≤ D) (hD : 8 * D + 7 < 2 ^ 31) (os : List (Option ℤ))
    (hos : ∀ m, some m ∈ os → 0 ≤ m → L ≤ m ∧ m ≤ D) :
    os.foldl (RTTRec.step wrap) {} = os.foldl (RTTRec.step id) {} ∧
      (os.foldl (RTTRec.step id) {}).Within L D (Measured os) := by
  induction os using List.reverseRecOn with
  | nil =>
    refine ⟨rfl, fun ⟨_, hm, _⟩ => absurd hm List.not_mem_nil, fun _ => rfl, ⟨Int.le_refl 0, ?_⟩,
      by decide⟩
    show (0 : ℤ) / 4 ≤ D
    omega
  | append_singleton os o ih =>
    obtain ⟨heq, hwithin⟩ := ih fun m hm => hos m (List.mem_append_left _ hm)
    obtain ⟨heq', hstep⟩ := hwithin.step hL hD fun m hm =>
      hos m (List.mem_append_right os (List.mem_singleton.mpr hm.symm))
    have hmeasured : Measured (os ++ [o]) = (Measured os ∨ ∃ m ∈ o, 0 ≤ m) := by
      simp [Measured, or_and_right, exists_or, eq_comm]
    rw [List.foldl_append, List.foldl_append, heq, hmeasured]
    exact ⟨heq', hstep⟩

/-- **The estimate in 32 bits** never overflows: after any acknowledgements and timeouts it is what
unbounded integers give; once a delay was measured the average is between the least and the greatest
measured delay; the timeout is between its bounds, and a timeout doubles it up to the upper one.
Hyps: `hD` — the delays, in milliseconds, are below `2 ^ 28`; a negative one was not measured -/
theorem estimate_exact (L D : ℤ) (hL : 0 ≤ L) (hLD : L ≤ D) (hD : D < 2 ^ 28)
    (os : List (Option ℤ)) (hos : ∀ m, some m ∈ os → 0 ≤ m → L ≤ m ∧ m ≤ D) :
    os.foldl (step wrap) {} = os.foldl (step id) {} ∧
      (os.foldl (step wrap) {}).Within L D (Measured os) ∧
      ((os ++ [none]).foldl (step wrap) {}).rto =
        min MAX_RTO (2 * (os.foldl (step wrap) {}).rto) := by
  obtain ⟨heq, hwithin⟩ := within_run hL hLD (by omega) os hos
  obtain ⟨heq', -⟩ := hwithin.step hL (by omega) (o := none) nofun
  refine ⟨heq, heq ▸ hwithin, ?_⟩
  obtain ⟨hmin, hmax⟩ := hwithin.timeout
  rw [List.foldl_append, heq]
  show (RTTRec.step wrap _ none).rto = _
  rw [heq']
  unfold MIN_RTO MAX_RTO at *
  simp only [RTTRec.step, RTTRec.timeout, clamp, MIN_RTO, MAX_RTO, id]
  split_ifs <;> omega

theorem estimate_exact_three :
    ([some 120, none, some 80, some (-1), some 100].foldl (step wrap) {}).Within 80 120
        (Measured [some 120, none, some 80, some (-1), some 100]) ∧
      ([some 120, none, some 80, some (-1), some 100].foldl (step wrap) {}).sa / 8 = 113 :=
  ⟨(estimate_exact 80 120 (by decide) (by decide) (by decide) _ (by simp)).2.1, by decide⟩

end RTTRec

end P2.Net
