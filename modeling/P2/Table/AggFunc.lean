import P2.Table.Common

/-!
# What the aggregate functions compute

The functions run over the values of a group in the order of its index. What they return does not
depend on that order: `IsResult`.
-/

namespace P2.Table

open P2.Value P2.Lib List SearchTree

namespace AggFunc

/-! ## The specification -/

def IsExtremum (better : Ordering) (vs : List Value) (v : Value) : Prop :=
  v ∈ vs ∧ ∀ w ∈ vs, compareTo v w ≠ better.swap

structure Distinct (vs reps : List Value) : Prop where
  subset : ∀ r ∈ reps, r ∈ vs
  apart : reps.Pairwise fun a b => compareTo a b ≠ .eq
  covers : ∀ v ∈ vs, ∃ r ∈ reps, compareTo r v = .eq

def IsResult : AggFunc → List Value → Value → Prop
  | MIN, vs, v => (vs = [] ∧ v = .null) ∨ IsExtremum .lt vs v
  | MAX, vs, v => (vs = [] ∧ v = .null) ∨ IsExtremum .gt vs v
  | COUNT, vs, v => v = .int64 (Int64.ofNat vs.length)
  | COUNTDISTINCT, vs, v => ∃ reps, Distinct vs reps ∧ v = .int64 (Int64.ofNat reps.length)

variable {vs vs' : List Value} {v : Value} {C : Set Value}

lemma IsExtremum.perm {better : Ordering} (h : IsExtremum better vs v) (hperm : vs.Perm vs') :
    IsExtremum better vs' v :=
  ⟨hperm.mem_iff.mp h.1, fun w hw => h.2 w (hperm.mem_iff.mpr hw)⟩

lemma IsResult.perm {function : AggFunc} (h : function.IsResult vs v) (hperm : vs.Perm vs') :
    function.IsResult vs' v := by
  have hnil : vs = [] → vs' = [] := by
    rintro rfl
    exact nil_perm.mp hperm
  cases function with
  | MIN => exact h.imp (And.imp_left hnil) fun h => h.perm hperm
  | MAX => exact h.imp (And.imp_left hnil) fun h => h.perm hperm
  | COUNT => exact h.trans (by rw [hperm.length_eq])
  | COUNTDISTINCT =>
    obtain ⟨reps, hreps, hv⟩ := h
    exact ⟨reps, ⟨fun r hr => hperm.mem_iff.mp (hreps.subset r hr), hreps.apart,
      fun w hw => hreps.covers w (hperm.mem_iff.mpr hw)⟩, hv⟩

lemma IsResult.compareTo_self {function : AggFunc} (h : function.IsResult vs v) (hC : LawfulOn C)
    (hvs : ∀ v ∈ vs, v ∈ C) : compareTo v v = .eq := by
  have hint : ∀ i, compareTo (.int64 i) (.int64 i) = .eq := by
    simp [compareTo, ofTests]
  have hextremum : ∀ {better}, (vs = [] ∧ v = .null) ∨ IsExtremum better vs v →
      compareTo v v = .eq := by
    rintro better (⟨-, rfl⟩ | hv)
    · rfl
    · exact hC.refl v (hvs v hv.1)
  cases function with
  | MIN => exact hextremum h
  | MAX => exact hextremum h
  | COUNT =>
    rw [show v = .int64 _ from h]
    exact hint _
  | COUNTDISTINCT =>
    obtain ⟨reps, -, hv⟩ := h
    rw [hv]
    exact hint _

/-! ## The loops -/

lemma isExtremum_foldl (hC : LawfulOn C) {better : Ordering} (hbetter : better ≠ .eq)
    {current : Value} (hcurrent : current ∈ C) (hvs : ∀ v ∈ vs, v ∈ C) :
    IsExtremum better (current :: vs) (vs.foldl
      (fun current v => if compareTo v current = better then v else current) current) := by
  have hworse : better.swap ≠ .eq := by
    rwa [ne_eq, Ordering.swap_eq_eq]
  have hself : ∀ {a : Value}, a ∈ C → compareTo a a ≠ better.swap := by
    intro a ha
    rw [hC.refl a ha]
    exact hworse.symm
  induction vs generalizing current with
  | nil =>
    refine ⟨mem_cons_self, fun w hw => ?_⟩
    rw [mem_singleton.mp hw]
    exact hself hcurrent
  | cons v vs ih =>
    have hv := hvs v mem_cons_self
    have htail : ∀ w ∈ vs, w ∈ C := fun w hw => hvs w (mem_cons_of_mem v hw)
    rw [foldl_cons]
    -- the value kept in this round is beaten neither by the old one nor by the new one
    obtain ⟨next, hnext⟩ : ∃ next, next = if compareTo v current = better then v else current :=
      ⟨_, rfl⟩
    have hkept : (next = v ∨ next = current) ∧ compareTo next current ≠ better.swap ∧
        compareTo next v ≠ better.swap := by
      rw [hnext]
      split_ifs with hbeats
      · refine ⟨Or.inl rfl, ?_, hself hv⟩
        rw [hbeats]
        rcases better with _ | _ | _
        · decide
        · exact absurd rfl hbetter
        · decide
      · refine ⟨Or.inr rfl, hself hcurrent, ?_⟩
        rw [hC.swap current hcurrent v hv]
        exact fun heq => hbeats (Ordering.swap_inj.mp heq)
    rw [← hnext]
    obtain ⟨hmem, hcur, hval⟩ := hkept
    have hnextC : next ∈ C := by
      rcases hmem with rfl | rfl
      · exact hv
      · exact hcurrent
    obtain ⟨hresult, hbest⟩ := ih hnextC htail
    have hresultC : vs.foldl (fun current v => if compareTo v current = better then v else current)
        next ∈ C := by
      rcases mem_cons.mp hresult with heq | hr
      · rw [heq]
        exact hnextC
      · exact htail _ hr
    have hbeatsNext := hbest next mem_cons_self
    refine ⟨?_, fun w hw => ?_⟩
    · rcases mem_cons.mp hresult with heq | hr
      · rw [heq]
        rcases hmem with rfl | rfl
        · exact mem_cons_of_mem _ mem_cons_self
        · exact mem_cons_self
      · exact mem_cons_of_mem _ (mem_cons_of_mem _ hr)
    · rcases mem_cons.mp hw with rfl | hw
      · exact hC.ne_trans hresultC hnextC hcurrent hworse hbeatsNext hcur
      · rcases mem_cons.mp hw with rfl | hw
        · exact hC.ne_trans hresultC hnextC hv hworse hbeatsNext hval
        · exact hbest w (mem_cons_of_mem _ hw)

lemma isExtremum_extremum (hC : LawfulOn C) {better : Ordering} (hbetter : better ≠ .eq)
    (hvs : ∀ v ∈ vs, v ∈ C) :
    (vs = [] ∧ extremum better vs = .null) ∨ IsExtremum better vs (extremum better vs) := by
  rcases vs with _ | ⟨v, vs⟩
  · exact Or.inl ⟨rfl, rfl⟩
  · exact Or.inr (isExtremum_foldl hC hbetter (hvs v mem_cons_self)
      fun w hw => hvs w (mem_cons_of_mem v hw))

lemma isResult_compute (hC : LawfulOn C) (function : AggFunc) (hvs : ∀ v ∈ vs, v ∈ C) :
    function.IsResult vs (function.compute vs) := by
  rcases function with _ | _ | _ | _
  · exact isExtremum_extremum hC (by decide) hvs
  · exact isExtremum_extremum hC (by decide) hvs
  · rfl
  · have hnil : Representatives comparator nil ([] : List Value) :=
      ⟨List.Pairwise.nil, fun _ ha => ha, List.Pairwise.nil, forall_mem_nil _⟩
    have hreps := representatives_foldl hC.strictWeak hnil
      (forall_mem_nil _) hvs
    refine ⟨_, ⟨hreps.subset, ?_, fun v hv => ?_⟩, by rw [length_toList]; rfl⟩
    · refine hreps.apart.imp_of_mem fun {a b} ha hb hab heq => ?_
      have hneither := (hC.eq_iff_not_comparator (hvs a (hreps.subset a ha))
        (hvs b (hreps.subset b hb))).mpr heq
      rw [Bool.and_eq_true, Bool.not_eq_true', Bool.not_eq_true', Bool.eq_false_iff,
        Bool.eq_false_iff] at hneither
      exact hab.elim hneither.1 hneither.2
    · obtain ⟨r, hr, hrv⟩ := hreps.covers v hv
      refine ⟨r, hr, (hC.eq_iff_not_comparator (hvs r (hreps.subset r hr)) (hvs v hv)).mp ?_⟩
      rw [Bool.and_eq_true, Bool.not_eq_true', Bool.not_eq_true', Bool.eq_false_iff,
        Bool.eq_false_iff]
      exact hrv

end AggFunc

end P2.Table
