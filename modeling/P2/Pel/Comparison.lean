import P2.Pel.Identifiers
import P2.Pel.Plain

/-!
# Comparing values

The operators `==`, `!=`, `<`, `<=`, `>` and `>=` cast both operands to the type of the first one
and then compare the second with the first: `neq_iff`, `orderFree_iff`.
-/

namespace P2.Pel

open P2.Value P2.Lib.Exec Option

/-! ## Casts that return -/

def numeric : Ptr → Bool
  | some (.int64 _) | some (.double _) | some .null | some (.str _) => true
  | _ => false

/-- The class can cast the value; those of null and of tuples do not cast their second operand. -/
def castable (host : Host) (h : Heap) : OperClass → Obj → Bool
  | .null, _ | .tuple, _ => true
  | .str, o => sound host h (some o)
  | .int64, o | .double, o => numeric (some o)
  | .opaqueBuf, .opaqueBuf _ | .opaqueBuf, .str _ => true
  | .time, .time _ | .time, .null => true
  | .time, .int64 i => (host.timeOfInt64 i).isSome
  | .time, .double d => (host.timeOfDouble d).isSome
  | .time, .str s => (host.timeOfString s).isSome
  | .id, .id _ | .id, .double _ | .id, .str _ => true
  | .id, .int64 i => 0 ≤ i
  | .timeDuration, .timeDuration _ | .timeDuration, .int64 _ | .timeDuration, .double _
  | .timeDuration, .null => true
  | .timeDuration, .tuple (some a) =>
    match (h.tuple a).fields with
    | secs :: nsecs :: _ => numeric secs && numeric nsecs
    | _ => true
  | .set, .set _ | .set, .null => true
  | .list, .list _ | .list, .null => true
  | _, _ => false

section Casts

variable {host : Host} {h : Heap} {n : ℕ} {p : Ptr} {o : Obj} {s : State}

lemma exists_ok_iff {α : Type} {x : Except Trouble α} {b : Bool} {a : α} (hx : x = .ok a)
    (hb : b = true) : (∃ a, x = .ok a) ↔ b :=
  iff_of_true ⟨a, hx⟩ hb

lemma not_exists_ok_iff {α : Type} {x : Except Trouble α} {b : Bool} {e : Trouble} (hx : x = .error e)
    (hb : b = false) : (∃ a, x = .ok a) ↔ b := by
  subst hx hb
  exact iff_of_false (by rintro ⟨a, ⟨⟩⟩) Bool.false_ne_true

lemma exists_castInt64 : (∃ i, castInt64 p = .ok i) ↔ numeric p := by
  cases p with
  | none => exact not_exists_ok_iff rfl rfl
  | some o => cases o <;> first | exact exists_ok_iff rfl rfl | exact not_exists_ok_iff rfl rfl

lemma exists_castDouble : (∃ d, castDouble host p = .ok d) ↔ numeric p := by
  cases p with
  | none => exact not_exists_ok_iff rfl rfl
  | some o => cases o <;> first | exact exists_ok_iff rfl rfl | exact not_exists_ok_iff rfl rfl

lemma exists_orThrow {α : Type} {x : Option α} : (∃ a, orThrow x = .ok a) ↔ x.isSome := by
  cases x <;> simp [orThrow]

lemma showable_of_textOf {texts : List (List UInt8)} {text : List UInt8}
    (htext : textOf host h o texts = .ok text) : valid (some o) ∧ showable host o := by
  cases o with
  | tuple t =>
    cases t with
    | none => cases htext
    | some a => exact ⟨rfl, rfl⟩
  | time t | timeDuration t =>
    obtain ⟨text', hshow, -⟩ := exists_of_bind_ok htext
    exact ⟨rfl, exists_orThrow.mp ⟨text', hshow⟩⟩
  | _ => exact ⟨rfl, rfl⟩

lemma nested_of_toString {text : List UInt8} (htext : toString host h n p = .ok text) :
    nested (showable host) h n p := by
  induction n generalizing p text with
  | zero => cases htext
  | succ n ih =>
    cases p with
    | none => cases htext
    | some o =>
      unfold toString at htext
      obtain ⟨texts, hparts, htext⟩ := exists_of_bind_ok htext
      obtain ⟨hvalid, hshow⟩ := showable_of_textOf htext
      refine nested_succ.mpr ⟨hvalid, hshow, fun q hq => ?_⟩
      obtain ⟨text', htext'⟩ := exists_mapM_iff.mp ⟨_, hparts⟩ q hq
      exact ih htext'

lemma exists_castStr : (∃ text, castStr host h p = .ok text) ↔ sound host h p :=
  ⟨fun ⟨_, htext⟩ => nested_of_toString htext, toString_of_nested⟩

lemma exists_castDuration {a : Addr} : (∃ td, castDuration host h (some (.tuple (some a))) = .ok td) ↔
    castable host h .timeDuration (.tuple (some a)) := by
  unfold castDuration castable
  rcases hfields : (h.tuple a).fields with _ | ⟨secs, _ | ⟨nsecs, rest⟩⟩
  · simp [deref, hfields, bind, Except.bind]
  · simp [deref, hfields, bind, Except.bind]
  · simp only [deref, hfields, bind, Except.bind, Bool.and_eq_true]
    rw [← exists_castInt64, ← exists_castInt64]
    cases castInt64 secs <;> cases castInt64 nsecs <;> simp

lemma exists_read_map {α : Type} (x : Heap → Except Trouble α) (f : α → Obj) :
    (∃ r t, read (fun h => f <$> x h) s = .ok r t) ↔ ∃ a, x s.heap = .ok a := by
  constructor
  · rintro ⟨r, t, hr⟩
    cases hx : x s.heap with
    | ok a => exact ⟨a, rfl⟩
    | error e =>
      have herror : read (fun h => f <$> x h) s = .error e s := by
        apply ofExcept_eq_of_error
        simp only [hx]
        rfl
      rw [herror] at hr
      cases hr
  · rintro ⟨a, ha⟩
    refine ⟨f a, s, ?_⟩
    apply ofExcept_eq_of_ok
    simp only [ha]
    rfl

lemma exists_castSet : (∃ r t, (Obj.set <$> castSet (some o)) s = .ok r t) ↔
    castable host s.heap .set o := by
  cases o with
  | set a => exact iff_of_true ⟨_, _, rfl⟩ rfl
  | null => exact iff_of_true ⟨_, _, rfl⟩ rfl
  | _ => exact iff_of_false (by rintro ⟨r, t, ⟨⟩⟩) Bool.false_ne_true

lemma exists_castList : (∃ r t, (Obj.list <$> castList (some o)) s = .ok r t) ↔
    castable host s.heap .list o := by
  cases o with
  | list a => exact iff_of_true ⟨_, _, rfl⟩ rfl
  | null => exact iff_of_true ⟨_, _, rfl⟩ rfl
  | _ => exact iff_of_false (by rintro ⟨r, t, ⟨⟩⟩) Bool.false_ne_true

lemma exists_mkCast {c : OperClass} (hnull : c ≠ .null) (htuple : c ≠ .tuple)
    (hvalid : valid (some o)) :
    (∃ r t, mkCast host c (some o) s = .ok r t) ↔ castable host s.heap c o := by
  unfold mkCast
  cases c with
  | null => exact absurd rfl hnull
  | tuple => exact absurd rfl htuple
  | str => exact (exists_read_map _ _).trans exists_castStr
  | int64 => exact (exists_read_map _ _).trans exists_castInt64
  | double => exact (exists_read_map _ _).trans exists_castDouble
  | opaqueBuf =>
    refine (exists_read_map _ _).trans ?_
    cases o <;> first | exact exists_ok_iff rfl rfl | exact not_exists_ok_iff rfl rfl
  | time =>
    refine (exists_read_map _ _).trans ?_
    cases o with
    | int64 | double | str => exact exists_orThrow
    | _ => first | exact exists_ok_iff rfl rfl | exact not_exists_ok_iff rfl rfl
  | id =>
    refine (exists_read_map _ _).trans ?_
    cases o with
    | int64 i =>
      by_cases hi : i < 0
      · exact not_exists_ok_iff (if_pos hi) (decide_eq_false (Int64.not_le.mpr hi))
      · exact exists_ok_iff (if_neg hi) (decide_eq_true (Int64.not_lt.mp hi))
    | _ => first | exact exists_ok_iff rfl rfl | exact not_exists_ok_iff rfl rfl
  | timeDuration =>
    refine (exists_read_map _ _).trans ?_
    cases o with
    | tuple a =>
      cases a with
      | none => cases hvalid
      | some a => exact exists_castDuration
    | _ => first | exact exists_ok_iff rfl rfl | exact not_exists_ok_iff rfl rfl
  | set => exact exists_castSet
  | list => exact exists_castList

lemma mkCast_own {c : OperClass} (hrow : rowOf (some o) = some c) :
    mkCast host c (some o) s = .ok o s := by
  cases o <;> cases hrow <;> rfl

end Casts

/-! ## Inequality -/

section Inequality

variable {host : Host} {s t : State} {c : OperClass} {o₁ o₂ c₂ : Obj}

lemma comparePtr_eq_ok {p q : Ptr} {ord : Ordering}
    (hcompare : compareTo s.heap host.room p q = .ok ord) : comparePtr host p q s = .ok ord s := by
  unfold comparePtr
  exact ofExcept_eq_of_ok hcompare

lemma operCompare_eq_ok (test : Ordering → Bool) {ord : Ordering}
    (hrow : rowOf (some o₁) = some c) (hcast : mkCast host c (some o₂) s = .ok c₂ t)
    (hcompare : compareTo t.heap host.room (some c₂) (some o₁) = .ok ord) :
    operCompare host test c (some o₁) (some o₂) s = .ok (test ord) t := by
  unfold operCompare
  rw [bind_eq_of_ok (mkCast_own hrow), bind_eq_of_ok hcast,
    bind_eq_of_ok (comparePtr_eq_ok hcompare)]
  rfl

lemma operCompare_eq_error (test : Ordering → Bool) {e : Trouble}
    (hrow : rowOf (some o₁) = some c) (hcast : mkCast host c (some o₂) s = .error e t) :
    operCompare host test c (some o₁) (some o₂) s = .error e t := by
  unfold operCompare
  rw [bind_eq_of_ok (mkCast_own hrow)]
  exact bind_eq_of_error hcast

lemma ready_of_castable (hwhole : whole host s.heap (some o₂)) (hcast : castable host s.heap c o₂) :
    Ready host s.heap c (some o₂) := by
  refine ⟨hwhole, ?_, ?_⟩
  · rintro rfl
    exact hcast
  · rintro rfl
    cases o₂ <;> first | rfl | exact hcast

lemma exists_compare (hnull : c ≠ .null) (htuple : c ≠ .tuple)
    (hwhole₁ : whole host s.heap (some o₁)) (hwhole₂ : whole host s.heap (some o₂))
    (hcast : castable host s.heap c o₂) : ∃ c₂ t ord, mkCast host c (some o₂) s = .ok c₂ t ∧
      compareTo t.heap host.room (some c₂) (some o₁) = .ok ord := by
  obtain ⟨c₂, t, hc₂⟩ := (exists_mkCast hnull htuple (valid_of_nested hwhole₂)).mpr hcast
  have hquiet := quiet_mkCast (s := s) rfl (ready_of_castable hwhole₂ hcast)
  obtain ⟨hwhole, h, hparts, rfl⟩ := (ends_of_eq hc₂).mp hquiet
  have hwhole' : whole host s.heap (some c₂) := hwhole.resolve_right fun hc => htuple hc.1
  rw [← whole_congr hparts] at hwhole₁ hwhole'
  obtain ⟨ord, hord⟩ := compareTo_of_nested hwhole' hwhole₁
  exact ⟨c₂, _, ord, hc₂, hord⟩

lemma eq_neq_operCompare (host : Host) (hnull : c ≠ .null) (htuple : c ≠ .tuple) (v1 v2 : Ptr) :
    _eq host c v1 v2 = operCompare host (· == .eq) c v1 v2 ∧
      _neq host c v1 v2 = operCompare host (· != .eq) c v1 v2 := by
  cases c <;> first | exact ⟨rfl, rfl⟩ | contradiction

lemma neq_of_class (hrow : rowOf (some o₁) = some c) {b : Bool}
    (heq : _eq host c (some o₁) (some o₂) s = .ok (!b) t)
    (hneq : _neq host c (some o₁) (some o₂) s = .ok b t) :
    ∃ b t t', Opr.neq host (some o₁) (some o₂) s = .ok b t ∧
      Opr.eq host (some o₁) (some o₂) s = .ok (!b) t' := by
  refine ⟨b, t, t, ?_, ?_⟩
  · unfold Opr.neq
    rw [dispatch_eq hrow (some_ne_none _)]
    exact hneq
  · apply tryCatch_eq_of_ok
    rw [dispatch_eq hrow (some_ne_none _)]
    exact heq

end Inequality

/-- **Inequality negates equality.** On values without null pointers inside, `!=` returns the
negation of what `==` returns exactly if the operator table has a row for the first operand and its
class can cast the second one.
Hyps: the values have no null pointers inside and are not nested deeper than the call stack allows -/
theorem neq_iff (host : Host) (s : State) (o₁ o₂ : Obj) (hwhole₁ : whole host s.heap (some o₁))
    (hwhole₂ : whole host s.heap (some o₂)) :
    (∃ b t t', Opr.neq host (some o₁) (some o₂) s = .ok b t ∧
      Opr.eq host (some o₁) (some o₂) s = .ok (!b) t') ↔
    ∃ c, oper_table o₁.typeCode o₂.typeCode = some c ∧ castable host s.heap c o₂ := by
  constructor
  · rintro ⟨b, t, t', hneq, -⟩
    cases hrow : oper_table o₁.typeCode o₂.typeCode with
    | none =>
      have herror : Opr.neq host (some o₁) (some o₂) s = .error (.faults .operTable) s := by
        -- only vectors and matrices have no row
        cases o₁ with
        | vector a => rfl
        | matrix a => rfl
        | _ => cases hrow
      rw [herror] at hneq
      cases hneq
    | some c =>
      have hrow' : rowOf (some o₁) = some c := hrow
      refine ⟨c, rfl, ?_⟩
      by_contra hcast
      have hnull : c ≠ .null := by
        rintro rfl
        exact hcast rfl
      have htuple : c ≠ .tuple := by
        rintro rfl
        exact hcast rfl
      rw [← exists_mkCast hnull htuple (valid_of_nested hwhole₂)] at hcast
      cases hmk : mkCast host c (some o₂) s with
      | ok r u => exact hcast ⟨r, u, hmk⟩
      | error e u =>
        unfold Opr.neq at hneq
        rw [dispatch_eq hrow' (some_ne_none _), (eq_neq_operCompare host hnull htuple _ _).2,
          operCompare_eq_error _ hrow' hmk] at hneq
        cases hneq
  · rintro ⟨c, hrow, hcast⟩
    by_cases hnull : c = .null
    · subst hnull
      exact neq_of_class (t := s) hrow (b := !(o₁.typeCode == .NULLV && o₂.typeCode == .NULLV))
        (by rw [Bool.not_not]; rfl) rfl
    by_cases htuple : c = .tuple
    · subst htuple
      obtain ⟨ord, hord⟩ := compareTo_of_nested hwhole₁ hwhole₂
      refine neq_of_class (t := s) (b := ord != .eq) hrow ?_ ?_
      · refine (bind_eq_of_ok (mkCast_own hrow)).trans ?_
        rw [bind_eq_of_ok (comparePtr_eq_ok hord)]
        cases ord <;> rfl
      · refine (bind_eq_of_ok (mkCast_own hrow)).trans ?_
        rw [bind_eq_of_ok (comparePtr_eq_ok hord)]
        rfl
    obtain ⟨c₂, t, ord, hmk, hord⟩ := exists_compare hnull htuple hwhole₁ hwhole₂ hcast
    obtain ⟨heq, hneq⟩ := eq_neq_operCompare host hnull htuple (some o₁) (some o₂)
    refine neq_of_class (t := t) (b := ord != .eq) hrow ?_ ?_
    · rw [heq, operCompare_eq_ok _ hrow hmk hord]
      cases ord <;> rfl
    · rw [hneq, operCompare_eq_ok _ hrow hmk hord]

theorem neq_iff_seven :
    ∃ b t t', Opr.neq sampleHost (some (.str [55])) (some (.int64 7)) emptyState = .ok b t ∧
      Opr.eq sampleHost (some (.str [55])) (some (.int64 7)) emptyState = .ok (!b) t' :=
  (neq_iff sampleHost emptyState (.str [55]) (.int64 7) (by decide) (by decide)).mpr
    ⟨.str, rfl, by decide⟩

def listState : State := ⟨⟨[], [[]], [], [], []⟩, [], .PE_SUCCESS, none, 0⟩

/-- The number 7 and a list: `==` takes the failed cast as a difference, `!=` throws. -/
theorem neq_throws :
    whole sampleHost listState.heap (some (.int64 7)) ∧
      whole sampleHost listState.heap (some (.list 0)) ∧
      Opr.eq sampleHost (some (.int64 7)) (some (.list 0)) listState = .ok false listState ∧
      Opr.neq sampleHost (some (.int64 7)) (some (.list 0)) listState =
        .error (.throws .typeError) listState :=
  ⟨by decide, by decide, rfl, rfl⟩

/-! ## The order of the operands -/

/-- The types null, string, integer and identifier. -/
def isScalar (o : Obj) : Bool := o.typeCode ∈ [.NULLV, .STR, .INT64, .ID]

def scalarText : Obj → List UInt8
  | .str s => s
  | .int64 i => decimal i
  | .id i => idText i
  | _ => nullText

/-- How the second operand, cast to the type of the first one, compares with it; `none` where the cast
fails. -/
def secondToFirst : Obj → Obj → Option Ordering
  | .str s, o => some (compare (scalarText o) s)
  | .int64 i, .null => some (ofTests (0 < i) (0 > i))
  | .int64 i, .str t => some (ofTests (strtoll t < i) (strtoll t > i))
  | .int64 i, .int64 j => some (ofTests (j < i) (j > i))
  | .id x, .str t => some (compare (idOfString t).words x.words)
  | .id x, .int64 j =>
    if j < 0 then none else some (compare (idOfWord j.toUInt64.toUInt32).words x.words)
  | .id x, .id y => some (compare y.words x.words)
  | _, _ => none

/-- Two values of these types compare alike as values of either type: where a comparison is made both
ways, it has the same outcome. -/
def Alike : Obj → Obj → Prop
  | .null, .str s | .str s, .null => s ≠ nullText
  | .null, .int64 i | .int64 i, .null => i ≠ 0
  | .int64 i, .id x | .id x, .int64 i => i < 0 ∨ x ≠ idOfWord i.toUInt64.toUInt32
  | .str s, .int64 i | .int64 i, .str s =>
    compare (decimal i) s = ofTests (i < strtoll s) (i > strtoll s)
  | .str s, .id x | .id x, .str s => compare (idText x) s = compare x.words (idOfString s).words
  | _, _ => True

/-- The outcome of a comparison does not depend on the order of the operands, where both ways return. -/
structure OrderFree (host : Host) (s : State) (a b : Ptr) : Prop where
  eq : ∀ r r' t t', Opr.eq host a b s = .ok r t → Opr.eq host b a s = .ok r' t' → r = r'
  lt : ∀ r r' t t', Opr.lt host a b s = .ok r t → Opr.gt host b a s = .ok r' t' → r = r'
  lte : ∀ r r' t t', Opr.lte host a b s = .ok r t → Opr.gte host b a s = .ok r' t' → r = r'

section OrderFree

variable (host : Host) (s : State) {a b : Obj}

lemma isScalar_cases (ha : isScalar a) :
    a = .null ∨ (∃ t, a = .str t) ∨ (∃ i, a = .int64 i) ∨ ∃ x, a = .id x := by
  cases a with
  | null => exact Or.inl rfl
  | str t => exact Or.inr (Or.inl ⟨t, rfl⟩)
  | int64 i => exact Or.inr (Or.inr (Or.inl ⟨i, rfl⟩))
  | id x => exact Or.inr (Or.inr (Or.inr ⟨x, rfl⟩))
  | _ => cases ha

lemma mkCast_str_scalar (hb : isScalar b) :
    mkCast host .str (some b) s = .ok (.str (scalarText b)) s := by
  rcases isScalar_cases hb with rfl | ⟨t, rfl⟩ | ⟨i, rfl⟩ | ⟨x, rfl⟩ <;> rfl

lemma operCompare_scalar (test : Ordering → Bool) {c : OperClass} {o : Ordering}
    (hrow : rowOf (some a) = some c) (hb : isScalar b) (ho : secondToFirst a b = some o) :
    operCompare host test c (some a) (some b) s = .ok (test o) s := by
  cases a with
  | str t =>
    cases hrow
    cases ho
    exact operCompare_eq_ok test rfl (mkCast_str_scalar host s hb) rfl
  | int64 i =>
    cases hrow
    rcases isScalar_cases hb with rfl | ⟨t, rfl⟩ | ⟨j, rfl⟩ | ⟨y, rfl⟩ <;> cases ho <;> rfl
  | id x =>
    cases hrow
    rcases isScalar_cases hb with rfl | ⟨t, rfl⟩ | ⟨j, rfl⟩ | ⟨y, rfl⟩
    · cases ho
    · cases ho
      rfl
    · simp only [secondToFirst] at ho
      split_ifs at ho with hj
      cases ho
      have hcast : mkCast host .id (some (.int64 j)) s = .ok (.id (idOfWord j.toUInt64.toUInt32)) s := by
        simp only [mkCast, read]
        rw [castID_int64 (Int64.not_lt.mp hj)]
        rfl
      exact operCompare_eq_ok test rfl hcast rfl
    · cases ho
      rfl
  | _ => cases ho

lemma operCompare_scalar_none (test : Ordering → Bool) {c : OperClass}
    (hrow : rowOf (some a) = some c) (hnull : c ≠ .null) (ha : isScalar a) (hb : isScalar b)
    (ho : secondToFirst a b = none) :
    operCompare host test c (some a) (some b) s = .error (.throws .typeError) s := by
  rcases isScalar_cases ha with rfl | ⟨t, rfl⟩ | ⟨i, rfl⟩ | ⟨x, rfl⟩
  · cases hrow
    exact absurd rfl hnull
  · cases ho
  · cases hrow
    rcases isScalar_cases hb with rfl | ⟨t, rfl⟩ | ⟨j, rfl⟩ | ⟨y, rfl⟩ <;> cases ho
    rfl
  · cases hrow
    rcases isScalar_cases hb with rfl | ⟨t, rfl⟩ | ⟨j, rfl⟩ | ⟨y, rfl⟩
    · rfl
    · cases ho
    · simp only [secondToFirst] at ho
      split_ifs at ho with hj
      apply operCompare_eq_error test rfl
      simp only [mkCast, read, castID, if_pos hj]
      exact ofExcept_eq_of_error rfl
    · cases ho

def equals : Obj → Obj → Bool
  | .null, b => b.typeCode == .NULLV
  | a, b => secondToFirst a b == some .eq

lemma exists_rowOf (ha : isScalar a) (hnull : a ≠ .null) :
    ∃ c, rowOf (some a) = some c ∧ c ≠ .null ∧ ∀ v1 v2,
      _eq host c v1 v2 = operCompare host (· == .eq) c v1 v2 ∧
      _lt host c v1 v2 = operCompare host (· == .lt) c v1 v2 ∧
      _lte host c v1 v2 = operCompare host (· != .gt) c v1 v2 ∧
      _gt host c v1 v2 = operCompare host (· == .gt) c v1 v2 ∧
      _gte host c v1 v2 = operCompare host (· != .lt) c v1 v2 := by
  rcases isScalar_cases ha with rfl | ⟨t, rfl⟩ | ⟨i, rfl⟩ | ⟨x, rfl⟩
  · exact absurd rfl hnull
  · exact ⟨.str, rfl, by decide, fun v1 v2 => ⟨rfl, rfl, rfl, rfl, rfl⟩⟩
  · exact ⟨.int64, rfl, by decide, fun v1 v2 => ⟨rfl, rfl, rfl, rfl, rfl⟩⟩
  · exact ⟨.id, rfl, by decide, fun v1 v2 => ⟨rfl, rfl, rfl, rfl, rfl⟩⟩

lemma equals_eq (hnull : a ≠ .null) : equals a b = (secondToFirst a b == some .eq) := by
  cases a <;> first | rfl | exact absurd rfl hnull

lemma eq_scalar (ha : isScalar a) (hb : isScalar b) :
    Opr.eq host (some a) (some b) s = .ok (equals a b) s := by
  by_cases hnull : a = .null
  · subst hnull
    rcases isScalar_cases hb with rfl | ⟨t, rfl⟩ | ⟨i, rfl⟩ | ⟨x, rfl⟩ <;> rfl
  obtain ⟨c, hrow, hc, hclass⟩ := exists_rowOf host ha hnull
  unfold Opr.eq
  rw [equals_eq hnull, dispatch_eq hrow (some_ne_none _), (hclass _ _).1]
  cases ho : secondToFirst a b with
  | some o =>
    rw [tryCatch_eq_of_ok (operCompare_scalar host s _ hrow hb ho)]
    cases o <;> rfl
  | none =>
    rw [tryCatch_eq_of_error (operCompare_scalar_none host s _ hrow hc ha hb ho)]
    rfl

lemma less_scalar {o : Ordering} (ha : isScalar a) (hb : isScalar b)
    (ho : secondToFirst a b = some o) :
    Opr.lt host (some a) (some b) s = .ok (o == .lt) s ∧
      Opr.lte host (some a) (some b) s = .ok (o != .gt) s ∧
      Opr.gt host (some a) (some b) s = .ok (o == .gt) s ∧
      Opr.gte host (some a) (some b) s = .ok (o != .lt) s := by
  have hnull : a ≠ .null := by
    rintro rfl
    cases ho
  obtain ⟨c, hrow, -, hclass⟩ := exists_rowOf host ha hnull
  obtain ⟨-, hlt, hlte, hgt, hgte⟩ := hclass (some a) (some b)
  have hcompare (test : Ordering → Bool) := operCompare_scalar host s test hrow hb ho
  unfold Opr.lt Opr.lte Opr.gt Opr.gte
  simp [dispatch_eq hrow (some_ne_none b), hlt, hlte, hgt, hgte, hcompare]

lemma less_scalar_none (ha : isScalar a) (hb : isScalar b) (ho : secondToFirst a b = none) :
    ∃ e, Opr.lt host (some a) (some b) s = .error e s ∧
      Opr.lte host (some a) (some b) s = .error e s ∧
      Opr.gt host (some a) (some b) s = .error e s ∧
      Opr.gte host (some a) (some b) s = .error e s := by
  by_cases hnull : a = .null
  · subst hnull
    exact ⟨.throws .operException, rfl, rfl, rfl, rfl⟩
  obtain ⟨c, hrow, hc, hclass⟩ := exists_rowOf host ha hnull
  obtain ⟨-, hlt, hlte, hgt, hgte⟩ := hclass (some a) (some b)
  have hcompare (test : Ordering → Bool) := operCompare_scalar_none host s test hrow hc ha hb ho
  refine ⟨.throws .typeError, ?_⟩
  unfold Opr.lt Opr.lte Opr.gt Opr.gte
  simp [dispatch_eq hrow (some_ne_none b), hlt, hlte, hgt, hgte, hcompare]

lemma equals_of_some {o : Ordering} (ho : secondToFirst a b = some o) : equals a b = (o == .eq) := by
  rw [equals_eq (by rintro rfl; cases ho), ho]
  rfl

lemma eq_swap_of_tests (o o' : Ordering) :
    (o == .eq) = (o' == .eq) → (o == .lt) = (o' == .gt) → o = o'.swap := by
  cases o <;> cases o' <;> decide

lemma eq_of_ok {x y : VM Bool} {r₀ r₀' : Bool} (hx : x s = .ok r₀ s) (hy : y s = .ok r₀' s)
    (heq : r₀ = r₀') : ∀ r r' t t', x s = .ok r t → y s = .ok r' t' → r = r' := by
  intro r r' t t' h h'
  cases hx.symm.trans h
  cases hy.symm.trans h'
  exact heq

lemma orderFree_iff_of_some {o o' : Ordering} (ha : isScalar a) (hb : isScalar b)
    (ho : secondToFirst a b = some o) (ho' : secondToFirst b a = some o') :
    OrderFree host s (some a) (some b) ↔ o = o'.swap := by
  have heq := eq_scalar host s ha hb
  have heq' := eq_scalar host s hb ha
  rw [equals_of_some ho] at heq
  rw [equals_of_some ho'] at heq'
  obtain ⟨hlt, hlte, -⟩ := less_scalar host s ha hb ho
  obtain ⟨-, -, hgt, hgte⟩ := less_scalar host s hb ha ho'
  constructor
  · intro hfree
    have hfirst := hfree.eq _ _ _ _ heq heq'
    have hsecond := hfree.lt _ _ _ _ hlt hgt
    exact eq_swap_of_tests o o' hfirst hsecond
  · rintro rfl
    refine ⟨eq_of_ok s heq heq' ?_, eq_of_ok s hlt hgt ?_, eq_of_ok s hlte hgte ?_⟩
    all_goals cases o' <;> rfl

lemma orderFree_iff_of_none (ha : isScalar a) (hb : isScalar b)
    (ho : secondToFirst a b = none ∨ secondToFirst b a = none) :
    OrderFree host s (some a) (some b) ↔ equals a b = equals b a := by
  have heq := eq_scalar host s ha hb
  have heq' := eq_scalar host s hb ha
  refine ⟨fun hfree => hfree.eq _ _ _ _ heq heq', fun hequals => ?_⟩
  -- one of the two ways throws
  rcases ho with ho | ho
  · obtain ⟨e, hlt, hlte, -⟩ := less_scalar_none host s ha hb ho
    exact ⟨eq_of_ok s heq heq' hequals, by simp [hlt], by simp [hlte]⟩
  · obtain ⟨e, -, -, hgt, hgte⟩ := less_scalar_none host s hb ha ho
    exact ⟨eq_of_ok s heq heq' hequals, by simp [hgt], by simp [hgte]⟩

lemma equals_str_null (t : List UInt8) : false = equals (.str t) .null ↔ t ≠ nullText := by
  have hequals : equals (.str t) .null = (compare nullText t == .eq) := equals_of_some rfl
  rw [hequals, eq_comm, beq_eq_false_iff_ne, ne_eq, Std.LawfulEqCmp.compare_eq_iff_eq, eq_comm]

lemma equals_int64_null (i : Int64) : false = equals (.int64 i) .null ↔ i ≠ 0 := by
  have hequals : equals (.int64 i) .null = (ofTests (0 < i) (0 > i) == .eq) := equals_of_some rfl
  rw [hequals, eq_comm]
  unfold ofTests
  by_cases hpos : 0 < i
  · have hi : i ≠ 0 := by grind
    simp [hpos, hi]
  · by_cases hneg : i < 0
    · have hi : i ≠ 0 := by grind
      simp [hpos, hneg, hi]
    · have hi : i = 0 := by grind
      simp [hi]

lemma words_inj {x y : Value.ID} : x.words = y.words ↔ x = y := by
  constructor
  · intro hw
    cases x
    cases hw
    rfl
  · rintro rfl
    rfl

lemma equals_id_int64 (x : Value.ID) (i : Int64) :
    false = equals (.id x) (.int64 i) ↔ i < 0 ∨ x ≠ idOfWord i.toUInt64.toUInt32 := by
  by_cases hi : i < 0
  · have hequals : equals (.id x) (.int64 i) = false := by
      simp [equals, secondToFirst, hi]
    exact iff_of_true hequals.symm (Or.inl hi)
  · have hequals : equals (.id x) (.int64 i) =
        (compare (idOfWord i.toUInt64.toUInt32).words x.words == .eq) := by
      apply equals_of_some
      simp [secondToFirst, hi]
    rw [hequals, eq_comm, beq_eq_false_iff_ne, ne_eq, Std.LawfulEqCmp.compare_eq_iff_eq, words_inj,
      eq_comm]
    exact ⟨Or.inr, fun h => h.resolve_left hi⟩

lemma eq_swap_comm {o o' : Ordering} : o = o'.swap ↔ o' = o.swap := by
  cases o <;> cases o' <;> decide

end OrderFree

/-- **The order of the operands.** For values of the types null, string, integer and identifier the
outcome of a comparison does not depend on the order of the operands exactly if the two compare
alike as values of either type; in particular if they are of one type.
Hyps: the values are of these types -/
theorem orderFree_iff (host : Host) (s : State) (a b : Obj) (ha : isScalar a) (hb : isScalar b) :
    OrderFree host s (some a) (some b) ↔ Alike a b := by
  rcases isScalar_cases ha with rfl | ⟨t, rfl⟩ | ⟨i, rfl⟩ | ⟨x, rfl⟩
  · -- nothing can be compared with null but for equality
    rw [orderFree_iff_of_none host s ha hb (Or.inl rfl)]
    rcases isScalar_cases hb with rfl | ⟨t', rfl⟩ | ⟨j, rfl⟩ | ⟨y, rfl⟩
    · exact iff_of_true rfl trivial
    · exact equals_str_null t'
    · exact equals_int64_null j
    · exact iff_of_true rfl trivial
  · rcases isScalar_cases hb with rfl | ⟨t', rfl⟩ | ⟨j, rfl⟩ | ⟨y, rfl⟩
    · rw [orderFree_iff_of_none host s ha hb (Or.inr rfl), eq_comm]
      exact equals_str_null t
    · rw [orderFree_iff_of_some host s ha hb rfl rfl]
      exact iff_of_true Std.OrientedCmp.eq_swap trivial
    · rw [orderFree_iff_of_some host s ha hb rfl rfl, ← ofTests_swap]
      rfl
    · rw [orderFree_iff_of_some host s ha hb rfl rfl, ← Std.OrientedCmp.eq_swap]
      rfl
  · rcases isScalar_cases hb with rfl | ⟨t', rfl⟩ | ⟨j, rfl⟩ | ⟨y, rfl⟩
    · rw [orderFree_iff_of_none host s ha hb (Or.inr rfl), eq_comm]
      exact equals_int64_null i
    · rw [orderFree_iff_of_some host s ha hb rfl rfl, eq_swap_comm, ← ofTests_swap]
      rfl
    · rw [orderFree_iff_of_some host s ha hb rfl rfl]
      exact iff_of_true (ofTests_swap i j) trivial
    · -- an identifier is not cast to an integer
      rw [orderFree_iff_of_none host s ha hb (Or.inl rfl)]
      exact equals_id_int64 y i
  · rcases isScalar_cases hb with rfl | ⟨t', rfl⟩ | ⟨j, rfl⟩ | ⟨y, rfl⟩
    · rw [orderFree_iff_of_none host s ha hb (Or.inr rfl)]
      exact iff_of_true rfl trivial
    · rw [orderFree_iff_of_some host s ha hb rfl rfl, eq_swap_comm, ← Std.OrientedCmp.eq_swap]
      rfl
    · rw [orderFree_iff_of_none host s ha hb (Or.inr rfl), eq_comm]
      exact equals_id_int64 x j
    · rw [orderFree_iff_of_some host s ha hb rfl rfl]
      exact iff_of_true Std.OrientedCmp.eq_swap trivial

theorem orderFree_iff_seven : OrderFree sampleHost emptyState (some (.str [55])) (some (.int64 7)) :=
  (orderFree_iff sampleHost emptyState (.str [55]) (.int64 7) rfl rfl).mpr (by
    have hdecimal : decimal 7 = [55] := by decide
    have hnumber : strtoll [55] = 7 := by decide
    simp only [Alike, hdecimal, hnumber]
    rfl)

/-- The number 10 equals the text `0xa`, which does not equal the number 10: as an integer the text
is 10, as a text the number is `10`. -/
theorem order_matters :
    isScalar (.int64 10) ∧ isScalar (.str [48, 120, 97]) ∧
      Opr.eq sampleHost (some (.int64 10)) (some (.str [48, 120, 97])) emptyState =
        .ok true emptyState ∧
      Opr.eq sampleHost (some (.str [48, 120, 97])) (some (.int64 10)) emptyState =
        .ok false emptyState := by
  refine ⟨rfl, rfl, eq_scalar _ _ rfl rfl, eq_scalar _ _ rfl rfl⟩

end P2.Pel
