import Mathlib.Data.List.Basic
import Mathlib.Data.List.Count
import Mathlib.Order.Nat

/-!
# Ports and block flags

Elements that merge or split a flow have several ports on one side, which may come and go (`Ports`),
and a block flag for each (`Flags`), with a count of those that are set.
-/

namespace P2.Elements

open List

structure Ports where
  ports : List Bool
  nports : ℕ

namespace Ports

def setup (n : ℕ) : Ports := ⟨replicate n true, n⟩

/-- The new port; `none` where the assertion fails. -/
def add (s : Ports) : Option (ℕ × Ports) :=
  match s.ports.findIdx? (!·) with
  | some port => some (port, ⟨s.ports.set port true, s.nports + 1⟩)
  | none =>
    if s.nports + 1 = s.ports.length + 1 then some (s.nports, ⟨s.ports ++ [true], s.nports + 1⟩)
    else none

def delete (port : ℕ) (s : Ports) : Option Ports :=
  if port < s.ports.length then some ⟨s.ports.set port false, s.nports - 1⟩ else none

def Live (s : Ports) (i : ℕ) : Prop := s.ports[i]? = some true

instance (s : Ports) (i : ℕ) : Decidable (s.Live i) := inferInstanceAs (Decidable (_ = _))

def Compact (s : Ports) : Prop := ∀ i, s.Live i ↔ i < s.nports

variable {s : Ports} {i : ℕ}

lemma compact_setup (n : ℕ) : (setup n).Compact := by
  intro i
  simp [Live, setup, getElem?_replicate]

lemma Compact.nports_le (h : s.Compact) : s.nports ≤ s.ports.length := by
  by_contra hlt
  obtain ⟨hbound, -⟩ := List.getElem?_eq_some_iff.mp ((h s.ports.length).mpr (not_le.mp hlt))
  exact lt_irrefl _ hbound

lemma Compact.add (h : s.Compact) :
    ∃ s', s.add = some (s.nports, s') ∧ s'.nports = s.nports + 1 ∧ s'.Compact := by
  unfold Ports.add
  cases hfind : s.ports.findIdx? (!·) with
  | some port =>
    obtain ⟨hport, hhole, hbefore⟩ := findIdx?_eq_some_iff_getElem.mp hfind
    -- the first hole is where the ports end
    have heq : port = s.nports := by
      refine le_antisymm (not_lt.mp fun hlt => ?_) (not_lt.mp fun hlt => ?_)
      · have hlen := hlt.trans hport
        have hlive : s.Live s.nports := by
          rw [Live, List.getElem?_eq_getElem hlen]
          simpa using hbefore s.nports hlt
        exact lt_irrefl _ ((h _).mp hlive)
      · have hlive := (h port).mpr hlt
        rw [Live] at hlive
        simp_all
    subst heq
    refine ⟨_, rfl, rfl, fun i => ?_⟩
    have hi := h i
    unfold Live at hi ⊢
    by_cases hne : i = s.nports
    · subst hne
      rw [List.getElem?_set_self hport]
      exact ⟨fun _ => Nat.lt_succ_self _, fun _ => rfl⟩
    · rw [List.getElem?_set_ne (Ne.symm hne), hi]
      simp only
      omega
  | none =>
    have hall : s.ports.length = s.nports := by
      refine le_antisymm (not_lt.mp fun hlt => ?_) h.nports_le
      have hlive : s.Live s.nports := by
        rw [Live, List.getElem?_eq_getElem hlt]
        simpa using findIdx?_eq_none_iff.mp hfind _ (getElem_mem hlt)
      exact lt_irrefl _ ((h _).mp hlive)
    refine ⟨_, if_pos (by rw [hall]), rfl, fun i => ?_⟩
    have hi := h i
    unfold Live at hi ⊢
    rw [getElem?_append, hall]
    split_ifs with hlt
    · rw [hi]
      simp only
      omega
    · rw [getElem?_singleton]
      split_ifs with h0
      · exact ⟨fun _ => by simp only; omega, fun _ => rfl⟩
      · exact ⟨fun h => absurd h (by simp), fun h => by simp only at h; omega⟩

lemma Compact.delete (h : s.Compact) (hlast : i + 1 = s.nports) :
    ∃ s', s.delete i = some s' ∧ s'.nports = i ∧ s'.Compact := by
  have hi : i < s.ports.length := by
    have := h.nports_le
    omega
  refine ⟨_, if_pos hi, by simp only; omega, fun j => ?_⟩
  have hj := h j
  unfold Live at hj ⊢
  by_cases hne : j = i
  · subst hne
    rw [List.getElem?_set_self hi]
    exact ⟨fun h => absurd h (by simp), fun h => by simp only at h; omega⟩
  · rw [List.getElem?_set_ne (Ne.symm hne), hj]
    simp only
    omega

end Ports

structure Flags where
  flags : List Bool
  count : ℕ := 0

namespace Flags

def raise (i : ℕ) (f : Flags) : Flags := ⟨f.flags.set i true, f.count + 1⟩

/-- A port is blocked no longer; `none` where the index is out of range, or the count is 0. -/
def lower (i : ℕ) (f : Flags) : Option Flags := do
  if ← f.flags[i]? then
    if f.count = 0 then none else return ⟨f.flags.set i false, f.count - 1⟩
  else return f

def Wf (f : Flags) : Prop := f.count = f.flags.count true

variable {f : Flags} {i : ℕ}

lemma Wf.raise (h : f.Wf) (hi : f.flags[i]? = some false) : (f.raise i).Wf := by
  obtain ⟨hlt, heq⟩ := List.getElem?_eq_some_iff.mp hi
  unfold Wf Flags.raise at *
  rw [count_set hlt, heq, h]
  rfl

lemma Wf.lower (h : f.Wf) (hi : i < f.flags.length) :
    ∃ f', f.lower i = some f' ∧ f'.flags = f.flags.set i false ∧ f'.Wf := by
  unfold Flags.lower
  rw [List.getElem?_eq_getElem hi, Option.bind_eq_bind, Option.bind_some]
  cases hflag : f.flags[i] with
  | true =>
    have hpos : 0 < f.flags.count true := count_pos_iff.mpr (hflag ▸ getElem_mem hi)
    unfold Wf at h
    refine ⟨_, (if_pos rfl).trans (if_neg (by omega)), rfl, ?_⟩
    unfold Wf
    rw [count_set hi, hflag, h]
    rfl
  | false =>
    refine ⟨_, if_neg Bool.false_ne_true, ?_, h⟩
    rw [← hflag, set_getElem_self]

lemma Wf.count_lt (h : f.Wf) (hi : f.flags[i]? = some false) : f.count < f.flags.length := by
  rw [h]
  refine lt_of_le_of_ne count_le_length fun heq => ?_
  have := count_eq_length.mp heq false (mem_of_getElem? hi)
  exact Bool.noConfusion this

lemma Wf.exists_false (h : f.Wf) (hlt : f.count ≠ f.flags.length) :
    ∃ i : ℕ, f.flags[i]? = some false := by
  by_contra hall
  refine hlt (h.trans (count_eq_length.mpr fun b hb => ?_))
  obtain ⟨i, hi⟩ := mem_iff_getElem?.mp hb
  cases b with
  | true => rfl
  | false => exact absurd ⟨i, hi⟩ hall

end Flags

def blockedPorts (ports : Ports) (f : Flags) : ℕ := (ports.ports.zip f.flags).countP fun x => x.1 && x.2

lemma blockedPorts_eq {ports : Ports} {f : Flags} (h : ports.Compact) (hf : f.Wf)
    (hlen : f.flags.length = ports.nports) : f.count = blockedPorts ports f := by
  have hzip : ∀ (ports flags : List Bool), (∀ i < flags.length, ports[i]? = some true) →
      (ports.zip flags).countP (fun x => x.1 && x.2) = flags.count true := by
    intro ports flags hlive
    induction flags generalizing ports with
    | nil => simp
    | cons b flags ih =>
      cases ports with
      | nil => exact absurd (hlive 0 (Nat.zero_lt_succ _)) nofun
      | cons a ports =>
        have ha : a = true := by simpa using hlive 0 (Nat.zero_lt_succ _)
        have htail := ih ports fun i hi => by simpa using hlive (i + 1) (Nat.succ_lt_succ hi)
        rw [zip_cons_cons, countP_cons, htail, ha, count_cons]
        cases b <;> rfl
  exact hf.trans (hzip _ _ fun i hi => (h i).mpr (hlen ▸ hi)).symm

end P2.Elements
