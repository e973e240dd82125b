import P2.Table.Expiry

/-!
# The lifetime as a text

A table is built with a `time_duration` or with its text: `lifetime_text_iff`.
-/

namespace P2.Table

open P2.Value P2.Lib List

def posInfinText : List UInt8 := [43, 105, 110, 102, 105, 110, 105, 116, 121]

def negInfinText : List UInt8 := [45, 105, 110, 102, 105, 110, 105, 116, 121]

/-- How durations are written and read: reading undoes writing for finite ones, whose texts are not
those of the infinite ones. -/
structure DurationText where
  toSimpleString : TimeRep → List UInt8
  durationFromString : List UInt8 → TimeRep
  posInfin_text : toSimpleString .posInfin = posInfinText
  negInfin_text : toSimpleString .negInfin = negInfinText
  ticks_text : ∀ n, toSimpleString (.ticks n) ≠ posInfinText ∧ toSimpleString (.ticks n) ≠ negInfinText
  ticks_read : ∀ n, durationFromString (toSimpleString (.ticks n)) = .ticks n

namespace Table2

/-- The constructor that takes a text. `_flushing` is set from `DEFAULT_EXPIRATION`, which is
infinite, before the text is read. -/
def ofString (boost : DurationText) (key : Key) (maxSize : ℕ) (lifetime : List UInt8) : Table2 :=
  { mk' key maxSize .posInfin with
    maxLifetime :=
      if lifetime = posInfinText then .posInfin
      else if lifetime = negInfinText then .negInfin
      else boost.durationFromString lifetime }

def answers : Table2 → List Op → List (List Tuple)
  | _, [] => []
  | s, op :: ops => s.answer op :: answers (s.step op) ops

variable {boost : DurationText} {key : Key} {m : ℕ} {L : TimeRep}

lemma maxLifetime_ofString (hL : L ≠ .notADateTime) :
    (ofString boost key m (boost.toSimpleString L)).maxLifetime = L := by
  unfold ofString
  cases L with
  | notADateTime => exact absurd rfl hL
  | negInfin =>
    rw [boost.negInfin_text]
    rfl
  | ticks n =>
    obtain ⟨hpos, hneg⟩ := boost.ticks_text n
    simp only [if_neg hpos, if_neg hneg]
    exact boost.ticks_read n
  | posInfin =>
    rw [boost.posInfin_text]
    rfl

lemma ofString_eq (hL : L ≠ .notADateTime) (h : 0 < m ∨ L = .posInfin) :
    ofString boost key m (boost.toSimpleString L) = mk' key m L := by
  have hread : (ofString boost key m (boost.toSimpleString L)).maxLifetime = L := maxLifetime_ofString hL
  have hlife : ofString boost key m (boost.toSimpleString L) =
      { mk' key m .posInfin with maxLifetime := L } :=
    congrArg (fun lifetime => { mk' key m .posInfin with maxLifetime := lifetime }) hread
  have hflushing : (mk' key m .posInfin).flushing = (mk' key m L).flushing := by
    rcases h with hm | rfl
    · simp [mk', hm]
    · rfl
  rw [hlife]
  exact congrArg (fun flushing => { mk' key m L with flushing := flushing }) hflushing

def lateScan (now : ℤ) : List Op := [.insert ⟨0, 0, 0⟩ (row 11), .scan now]

lemma answers_mk' {now : ℤ} (hL : L ≠ .posInfin)
    (hexpired : TimeRep.lt (.ticks 0) (expiryTime now L)) :
    (mk' key 0 L).answers (lateScan now) = [[], []] := by
  have hflush : (mk' key 0 L).flushing := decide_eq_true hL
  have hadm : AdmissibleRun rows (mk' key 0 L) [.insert ⟨0, 0, 0⟩ (row 11)] :=
    ⟨⟨row_mem_rows 11, forall_mem_nil _⟩, trivial⟩
  have hstart := ok_mk' rows key 0 L
  have hok := hstart.run hadm
  have hinit : Stamped [] (mk' key 0 L) := forall_mem_nil _
  have hst := hinit.run hstart hflush hadm
  have hset := sameSettings_run (mk' key 0 L) [.insert ⟨0, 0, 0⟩ (row 11)]
  have hlength := length_queue_step_le (mk' key 0 L) (.insert ⟨0, 0, 0⟩ (row 11))
  obtain ⟨s, hs⟩ : ∃ s, s = (mk' key 0 L).run [.insert ⟨0, 0, 0⟩ (row 11)] := ⟨_, rfl⟩
  change ((mk' key 0 L).run [.insert ⟨0, 0, 0⟩ (row 11)]).queue.length ≤ 0 + 1 at hlength
  rw [← hs] at hok hst hset hlength
  have hlife : s.maxLifetime = L := hset.maxLifetime
  -- there is one cell at most, so the queue is punctual
  have hpunctual : Punctual (expiryTime now s.maxLifetime) s := by
    unfold Punctual
    rcases hq : s.queue with _ | ⟨a, _ | ⟨b, q⟩⟩
    · exact Pairwise.nil
    · exact pairwise_singleton _ _
    · rw [hq] at hlength
      simp at hlength
  have hfresh := hok.not_expired_flush (hset.flushing.trans hflush) (hlife ▸ hL) hpunctual
  have hempty : (s.flush now).common.primaryIndex.toList = [] := by
    rw [eq_nil_iff_forall_not_mem]
    intro r hr
    obtain ⟨e, he, -⟩ := (hok.flush now).linked r hr
    have htime := (hst.flush hok now) r hr e he
    apply hfresh r hr
    rw [isExpired_of_heap he, hlife]
    change (if _ then some (0 : ℤ) else none) = some e.time at htime
    split_ifs at htime
    rwa [← Option.some.inj htime]
  have hscan : s.answer (.scan now) = [] := by
    change (s.flush now).common.primaryIndex.toList.map _ = []
    rw [hempty]
    rfl
  have hanswers : (mk' key 0 L).answers (lateScan now) = [[], s.answer (.scan now)] := by
    rw [hs]
    rfl
  rw [hanswers, hscan]

lemma exists_expired (hL : L ≠ .notADateTime) (hL' : L ≠ .posInfin) :
    ∃ now, TimeRep.lt (.ticks 0) (expiryTime now L) := by
  cases L with
  | notADateTime => exact absurd rfl hL
  | negInfin => exact ⟨0, rfl⟩
  | ticks n => exact ⟨max 0 (n + 1), decide_eq_true (by omega)⟩
  | posInfin => exact absurd rfl hL'

/-- **The spelling of the lifetime.** For every key, maximum size and lifetime, a table built with
the text of the lifetime gives the answers of a table built with the lifetime, in every run, exactly
if the size is bounded or the lifetime is infinite.
Hyps: the lifetime is finite or infinite -/
theorem lifetime_text_iff (boost : DurationText) (key : Key) (m : ℕ) (L : TimeRep)
    (hL : L ≠ .notADateTime) :
    (∀ ops, (ofString boost key m (boost.toSimpleString L)).answers ops = (mk' key m L).answers ops) ↔
      0 < m ∨ L = .posInfin := by
  constructor
  · intro hsame
    by_contra hnot
    push Not at hnot
    obtain ⟨hm, hinf⟩ := hnot
    obtain rfl : m = 0 := Nat.le_zero.mp hm
    obtain ⟨now, hnow⟩ := exists_expired hL hinf
    have hrun := hsame (lateScan now)
    rw [answers_mk' hinf hnow] at hrun
    cases hrun
  · intro h ops
    rw [ofString_eq hL h]

def unary : DurationText where
  toSimpleString
    | .posInfin => posInfinText
    | .negInfin => negInfinText
    | .ticks n => if 0 ≤ n then 48 :: List.replicate n.toNat 49 else 49 :: List.replicate (-n).toNat 49
    | .notADateTime => []
  durationFromString
    | 48 :: digits => .ticks digits.length
    | _ :: digits => .ticks (-digits.length)
    | [] => .notADateTime
  posInfin_text := rfl
  negInfin_text := rfl
  ticks_text n := by
    by_cases hn : 0 ≤ n
    · simp [hn, posInfinText, negInfinText]
    · simp [hn, posInfinText, negInfinText]
  ticks_read n := by
    by_cases hn : 0 ≤ n
    · simp [hn]
    · have hnn : ((-n).toNat : ℤ) = -n := by omega
      simp [hn, hnn]

theorem lifetime_text_iff_two :
    (ofString unary [0] 2 (unary.toSimpleString (.ticks 10))).answers sampleOps =
      (mk' [0] 2 (.ticks 10)).answers sampleOps :=
  (lifetime_text_iff unary [0] 2 (.ticks 10) TimeRep.noConfusion).mpr (Or.inl (by decide)) sampleOps

/-- A lifetime of ten ticks, as a text and as a duration: a row inserted at zero is there and is not
at eleven. -/
theorem lifetime_text_ignored :
    (ofString unary [0] 0 (unary.toSimpleString (.ticks 10))).answers (lateScan 11) = [[], [row 11]] ∧
      (mk' [0] 0 (.ticks 10)).answers (lateScan 11) = [[], []] :=
  ⟨rfl, rfl⟩

end Table2

end P2.Table
