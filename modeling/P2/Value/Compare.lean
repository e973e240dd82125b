import P2.Value.Basic
import P2.Lib.Rose

/-!
# `Value::compareTo`

The thirteen virtual methods `compareTo` as one recursive function, and what they amount to:
`order_laws_iff`.
-/

namespace P2

open P2.Value P2.Lib List

namespace Value

/-! ## The comparison -/

/-- The test on type codes with which every class but `Val_Null` and the containers begins: the
smaller type code is less. -/
def testBelow (mine other : TypeCode) : Ordering :=
  if mine.code < other.code then .lt
  else if mine.code > other.code then .gt
  else .eq

/-- The test on type codes of `Val_Set`, `Val_List`, `Val_Vector` and `Val_Matrix`: it has the
arguments the other way round, so the smaller type code is greater. -/
def testAbove (mine other : TypeCode) : Ordering :=
  if other.code < mine.code then .lt
  else if other.code > mine.code then .gt
  else .eq

/-- The result of `if (a < b) return -1; else if (a > b) return 1; else return 0;`. -/
def ofTests (less greater : Bool) : Ordering :=
  if less then .lt else if greater then .gt else .eq

mutual

def compareTo : Value → Value → Ordering
  | .null, other => if other.typeCode = .NULLV then .eq else .lt
  | .str s, other =>
    match other with
    | .str s' => compare s s'
    | other => testBelow .STR other.typeCode
  | .int64 i, other =>
    match other with
    | .int64 i' => ofTests (i < i') (i > i')
    | other => testBelow .INT64 other.typeCode
  | .double d, other =>
    match other with
    | .double d' => ofTests (d.lt d') (d'.lt d)
    | other => testBelow .DOUBLE other.typeCode
  | .opaqueBuf b, other =>
    match other with
    | .opaqueBuf b' => (compare b.length b'.length).then (compare b b')
    | other => testBelow .OPAQUE other.typeCode
  | .tuple _ fields, other =>
    match other with
    | .tuple _ fields' =>
      (compare fields.length fields'.length).then (compareElements fields fields')
    | other => testBelow .TUPLE other.typeCode
  | .time t, other =>
    match other with
    | .time t' => ofTests (t.lt t') (t'.lt t)
    | other => testBelow .TIME other.typeCode
  | .id i, other =>
    match other with
    | .id i' => compare i.words i'.words
    | other => testBelow .ID other.typeCode
  | .timeDuration td, other =>
    match other with
    | .timeDuration td' => ofTests (td.lt td') (td'.lt td)
    | other => testBelow .TIME_DURATION other.typeCode
  | .set L, other =>
    match other with
    | .set L' => compareElements L L'
    | other => testAbove .SET other.typeCode
  | .list L, other =>
    match other with
    | .list L' => compareElements L L'
    | other => testAbove .LIST other.typeCode
  | .vector V, other =>
    match other with
    | .vector V' => (compare V.length V'.length).then (compareElements V V')
    | other => testAbove .VECTOR other.typeCode
  | .matrix size1 size2 M, other =>
    match other with
    | .matrix size1' size2' M' =>
      ((compare size1 size1').then (compare size2 size2')).then (compareElements M M')
    | other => testAbove .MATRIX other.typeCode

/-- The loop of `List::compareTo` and `Set::compareTo`: the first difference decides, and a proper
initial segment is less. Tuples, vectors and matrices run the same loop after they compared their
sizes. -/
def compareElements : List Value → List Value → Ordering
  | [], [] => .eq
  | [], _ :: _ => .lt
  | _ :: _, [] => .gt
  | a :: as, b :: bs => (compareTo a b).then (compareElements as bs)

end

end Value

/-- Compare tuples, one field at a time. Tuples of different field counts compare by their field
counts; identifiers are not compared. -/
def Tuple.compareTo (t other : Tuple) : Ordering :=
  (compare t.fields.length other.fields.length).then
    (Value.compareElements t.fields other.fields)

/-! ## Values as trees -/

namespace Value.TypeCode

/-- The container types, whose classes have the reversed type test. -/
def isContainer : TypeCode → Bool
  | .SET | .LIST | .VECTOR | .MATRIX => true
  | _ => false

/-- The place of a type in the order that both type tests agree with where they can: the scalar
types by type code, then the containers by falling type code. -/
def rank (c : TypeCode) : ℤ := if c.isContainer then 21 - c.code else c.code

lemma rank_inj {c d : TypeCode} (h : c.rank = d.rank) : c = d := by
  revert h
  cases c <;> cases d <;> decide

end Value.TypeCode

namespace Value

mutual

/-- A value as a labelled tree: the label has the rank of the type and what is compared before
the elements. -/
def tree : Value → Rose (List ℤ)
  | .null => .node [TypeCode.rank .NULLV] []
  | .str s => .node (TypeCode.rank .STR :: s.map fun c => (c.toNat : ℤ)) []
  | .int64 i => .node [TypeCode.rank .INT64, i.toInt] []
  | .double d => .node [TypeCode.rank .DOUBLE, d.place] []
  | .opaqueBuf b =>
    .node (TypeCode.rank .OPAQUE :: (b.length : ℤ) :: b.map fun c => (c.toNat : ℤ)) []
  | .tuple _ fields => .node [TypeCode.rank .TUPLE, fields.length] (trees fields)
  | .time t => .node (TypeCode.rank .TIME :: t.place) []
  | .id i => .node (TypeCode.rank .ID :: i.words.map fun w => (w.toNat : ℤ)) []
  | .timeDuration td => .node (TypeCode.rank .TIME_DURATION :: td.place) []
  | .set L => .node [TypeCode.rank .SET] (trees L)
  | .list L => .node [TypeCode.rank .LIST] (trees L)
  | .vector V => .node [TypeCode.rank .VECTOR, V.length] (trees V)
  | .matrix size1 size2 M => .node [TypeCode.rank .MATRIX, size1, size2] (trees M)

def trees : List Value → List (Rose (List ℤ))
  | [] => []
  | a :: as => tree a :: trees as

end

def isPlace : Value → Bool
  | .double d => !d.isNaN
  | .time t => t != .notADateTime
  | .timeDuration td => td != .notADateTime
  | _ => true

/-- No double inside is a NaN and no time inside is `not_a_date_time`. -/
def noNaN (a : Value) : Bool := a.everywhere isPlace

mutual

/-- Two values clash when one is a container and the other is not, or when they are of the same
compound type, of the same size, and clash at the first position where they differ. -/
def clash : Value → Value → Bool
  | .tuple _ L, other =>
    match other with
    | .tuple _ L' => L.length == L'.length && clashElements L L'
    | other => other.typeCode.isContainer
  | .set L, other =>
    match other with
    | .set L' => clashElements L L'
    | other => !other.typeCode.isContainer
  | .list L, other =>
    match other with
    | .list L' => clashElements L L'
    | other => !other.typeCode.isContainer
  | .vector L, other =>
    match other with
    | .vector L' => L.length == L'.length && clashElements L L'
    | other => !other.typeCode.isContainer
  | .matrix size1 size2 L, other =>
    match other with
    | .matrix size1' size2' L' => size1 == size1' && size2 == size2' && clashElements L L'
    | other => !other.typeCode.isContainer
  | .null, other | .str _, other | .int64 _, other | .double _, other | .opaqueBuf _, other
  | .time _, other | .id _, other | .timeDuration _, other => other.typeCode.isContainer

/-- Two sequences clash when their elements do at the first position where they differ. -/
def clashElements : List Value → List Value → Bool
  | a :: as, b :: bs =>
    clash a b || (Rose.cmp compare (tree a) (tree b) == .eq && clashElements as bs)
  | _, _ => false

end

/-! ## Leaves -/

lemma compare_map {α β : Type} [Ord α] [Ord β] {f : α → β}
    (hf : ∀ x y, compare (f x) (f y) = compare x y) (l l' : List α) :
    compare (l.map f) (l'.map f) = compare l l' := by
  induction l generalizing l' with
  | nil => cases l' <;> rfl
  | cons x xs ih =>
    cases l' with
    | nil => rfl
    | cons y ys =>
      rw [map_cons, map_cons, List.compare_cons_cons, List.compare_cons_cons, hf, ih]

lemma compare_byte (x y : UInt8) : compare (x.toNat : ℤ) (y.toNat : ℤ) = compare x y := by
  change compareOfLessAndEq _ _ = compareOfLessAndEq _ _
  simp [compareOfLessAndEq, UInt8.lt_iff_toNat_lt, UInt8.toNat_inj]

lemma compare_word (x y : UInt32) : compare (x.toNat : ℤ) (y.toNat : ℤ) = compare x y := by
  change compareOfLessAndEq _ _ = compareOfLessAndEq _ _
  simp [compareOfLessAndEq, UInt32.lt_iff_toNat_lt, UInt32.toNat_inj]

lemma compare_size (m n : ℕ) : compare (m : ℤ) (n : ℤ) = compare m n := by
  change compareOfLessAndEq _ _ = compareOfLessAndEq _ _
  simp [compareOfLessAndEq]

lemma ofTests_eq_compare (x y : ℤ) : ofTests (decide (x < y)) (decide (y < x)) = compare x y := by
  change _ = compareOfLessAndEq _ _
  unfold ofTests compareOfLessAndEq
  rcases lt_trichotomy x y with h | h | h
  · simp [h]
  · simp [h]
  · simp [h, h.ne']

lemma ofTests_double {d d' : Double} (hd : d.isNaN = false) (hd' : d'.isNaN = false) :
    ofTests (d.lt d') (d'.lt d) = compare d.place d'.place := by
  rw [← ofTests_eq_compare]
  simp [Double.lt, hd, hd']

lemma ofTests_time {t t' : TimeRep} (ht : t ≠ .notADateTime) (ht' : t' ≠ .notADateTime) :
    ofTests (t.lt t') (t'.lt t) = compare t.place t'.place := by
  cases t <;> cases t' <;> simp_all [TimeRep.lt, TimeRep.place, ofTests_eq_compare] <;> rfl

/-! ## Values of different types -/

/-- What `compareTo` answers for values of different types, by the class of the left one. -/
def typeTest (mine other : TypeCode) : Ordering :=
  if mine = .NULLV then .lt
  else if mine.isContainer then testAbove mine other
  else testBelow mine other

lemma compareTo_of_typeCode_ne {a b : Value} (h : a.typeCode ≠ b.typeCode) :
    compareTo a b = typeTest a.typeCode b.typeCode := by
  cases a <;> cases b <;> first | exact absurd rfl h | rfl

lemma typeTest_eq_compare_rank {c d : TypeCode} (hne : c ≠ d)
    (h : c.isContainer = d.isContainer) : typeTest c d = compare c.rank d.rank := by
  cases c <;> cases d <;> first | exact absurd rfl hne | rfl | cases h

lemma typeTest_of_isContainer_ne {c d : TypeCode} (h : c.isContainer ≠ d.isContainer) :
    typeTest c d = .lt := by
  cases c <;> cases d <;> first | rfl | exact absurd rfl h

lemma clash_of_typeCode_ne {a b : Value} (h : a.typeCode ≠ b.typeCode) :
    clash a b = (a.typeCode.isContainer != b.typeCode.isContainer) := by
  cases a <;> cases b <;> first | exact absurd rfl h | rfl

lemma tree_label (a : Value) : ∃ l ts, tree a = .node (a.typeCode.rank :: l) ts := by
  cases a <;> exact ⟨_, _, rfl⟩

lemma cmp_tree_of_typeCode_ne {a b : Value} (h : a.typeCode ≠ b.typeCode) :
    Rose.cmp compare (tree a) (tree b) = compare a.typeCode.rank b.typeCode.rank := by
  obtain ⟨l, ts, ha⟩ := tree_label a
  obtain ⟨l', ts', hb⟩ := tree_label b
  have hne : compare a.typeCode.rank b.typeCode.rank ≠ .eq := fun he =>
    h (TypeCode.rank_inj (Std.LawfulEqCmp.eq_of_compare he))
  rw [ha, hb, Rose.cmp]
  cases hc : compare a.typeCode.rank b.typeCode.rank <;> simp_all

lemma typeCode_eq_of_tree_eq {a b : Value} (h : tree a = tree b) : a.typeCode = b.typeCode := by
  by_contra hne
  have hc := cmp_tree_of_typeCode_ne hne
  have hself : Rose.cmp compare (tree b) (tree b) = .eq := Std.ReflCmp.compare_self
  rw [h, hself] at hc
  exact hne (TypeCode.rank_inj (Std.LawfulEqCmp.eq_of_compare hc.symm))

/-! ## Values of one type -/

def header : Value → List ℤ
  | .null => []
  | .str s => s.map fun c => (c.toNat : ℤ)
  | .int64 i => [i.toInt]
  | .double d => [d.place]
  | .opaqueBuf b => (b.length : ℤ) :: b.map fun c => (c.toNat : ℤ)
  | .tuple _ fields => [(fields.length : ℤ)]
  | .time t => t.place
  | .id i => i.words.map fun w => (w.toNat : ℤ)
  | .timeDuration td => td.place
  | .set _ => []
  | .list _ => []
  | .vector V => [(V.length : ℤ)]
  | .matrix size1 size2 _ => [(size1 : ℤ), (size2 : ℤ)]

lemma tree_eq (a : Value) : tree a = .node (a.typeCode.rank :: a.header) (trees a.parts) := by
  cases a <;> rfl

lemma cmp_node (r : ℤ) (l l' : List ℤ) (ts us : List (Rose (List ℤ))) :
    Rose.cmp compare (.node (r :: l) ts) (.node (r :: l') us) =
      (compare l l').then (Rose.cmpChildren compare ts us) := by
  rw [Rose.cmp, List.compare_cons_cons, Std.ReflOrd.compare_self, Ordering.eq_then]

lemma compare_singleton (x y : ℤ) : compare [x] [y] = compare x y := by
  rw [List.compare_cons_cons, Std.ReflOrd.compare_self, Ordering.then_eq]

lemma then_congr {o x y : Ordering} (h : o = .eq → x = y) : o.then x = o.then y := by
  cases o <;> simp_all

lemma compareTo_of_typeCode_eq {a b : Value} (hty : a.typeCode = b.typeCode) (ha : a.noNaN)
    (hb : b.noNaN) :
    compareTo a b = (compare a.header b.header).then (compareElements a.parts b.parts) := by
  cases a <;> cases b <;> first | exact TypeCode.noConfusion hty | skip
  all_goals simp only [compareTo, header, parts, compareElements, Ordering.then_eq]
  case null.null => rfl
  case str.str s s' => rw [compare_map compare_byte]
  case int64.int64 i i' =>
      rw [compare_singleton, ← ofTests_eq_compare]
      simp [Int64.lt_iff_toInt_lt]
  case double.double d d' =>
      rw [compare_singleton, ofTests_double (by simpa [noNaN, everywhere, isPlace] using ha)
        (by simpa [noNaN, everywhere, isPlace] using hb)]
  case opaqueBuf.opaqueBuf b b' =>
      rw [List.compare_cons_cons, compare_map compare_byte, compare_size]
  case tuple.tuple => rw [compare_singleton, compare_size]
  case time.time t t' =>
      rw [ofTests_time (by simpa [noNaN, everywhere, isPlace] using ha)
        (by simpa [noNaN, everywhere, isPlace] using hb)]
  case id.id => rw [compare_map compare_word]
  case timeDuration.timeDuration =>
      rw [ofTests_time (by simpa [noNaN, everywhere, isPlace] using ha)
        (by simpa [noNaN, everywhere, isPlace] using hb)]
  case set.set => rw [Std.ReflOrd.compare_self, Ordering.eq_then]
  case list.list => rw [Std.ReflOrd.compare_self, Ordering.eq_then]
  case vector.vector => rw [compare_singleton, compare_size]
  case matrix.matrix =>
      rw [List.compare_cons_cons, compare_singleton, compare_size, compare_size]

lemma clash_of_typeCode_eq {a b : Value} (hty : a.typeCode = b.typeCode) :
    clash a b = (decide (a.header = b.header) && clashElements a.parts b.parts) := by
  cases a <;> cases b <;> first | exact TypeCode.noConfusion hty | skip
  case matrix.matrix =>
      simp only [clash, header, parts, cons.injEq, and_true, Nat.cast_inj, Bool.decide_and]
      rfl
  case set.set | list.list => simp only [clash, header, parts, decide_true, Bool.true_and]
  case tuple.tuple | vector.vector =>
      simp only [clash, header, parts, cons.injEq, and_true, Nat.cast_inj]
      rfl
  all_goals
    simp only [clash, parts, clashElements, Bool.and_false]
    rfl

lemma noNaN_parts {a : Value} (h : a.noNaN) : ∀ b ∈ a.parts, b.noNaN := (everywhere_iff.mp h).2

/-! ## Clashing pairs -/

lemma clash_symm : (∀ a b : Value, clash a b = clash b a) ∧
    ∀ as bs : List Value, clashElements as bs = clashElements bs as := by
  refine parts_induction (fun a ih b => ?_) (fun bs => ?_) (fun a as iha ihas bs => ?_)
  · by_cases hty : a.typeCode = b.typeCode
    · rw [clash_of_typeCode_eq hty, clash_of_typeCode_eq hty.symm, ih, decide_eq_decide.mpr eq_comm]
    · rw [clash_of_typeCode_ne hty, clash_of_typeCode_ne (Ne.symm hty), bne_comm]
  · cases bs <;> rfl
  · cases bs with
    | nil => rfl
    | cons b bs =>
      have hsame : (Rose.cmp compare (tree a) (tree b) == .eq) =
          (Rose.cmp compare (tree b) (tree a) == .eq) := by
        rw [Rose.cmp_swap (tree a) (tree b)]
        cases Rose.cmp compare (tree b) (tree a) <;> rfl
      rw [clashElements, clashElements, iha b, hsame, ihas bs]

lemma clash_comm (a b : Value) : clash a b = clash b a := clash_symm.1 a b

lemma clashElements_cons (a b : Value) (as bs : List Value) :
    clashElements (a :: as) (b :: bs) ↔ clash a b ∨ (tree a = tree b ∧ clashElements as bs) := by
  rw [clashElements, Bool.or_eq_true, Bool.and_eq_true, beq_iff_eq, Rose.cmp_eq_iff]

lemma tree_ne_of_clash : (∀ a b : Value, clash a b → tree a ≠ tree b) ∧
    ∀ as bs : List Value, clashElements as bs → trees as ≠ trees bs := by
  refine parts_induction (fun a ih b h heq => ?_) (fun bs h => ?_) (fun a as iha ihas bs h heq => ?_)
  · have hty := typeCode_eq_of_tree_eq heq
    rw [clash_of_typeCode_eq hty, Bool.and_eq_true] at h
    rw [tree_eq, tree_eq] at heq
    exact ih _ h.2 (Rose.node.inj heq).2
  · cases bs <;> cases h
  · cases bs with
    | nil => cases h
    | cons b bs =>
      obtain ⟨hhead, htail⟩ := cons.inj heq
      rcases (clashElements_cons a b as bs).mp h with h | ⟨-, h⟩
      · exact iha b h hhead
      · exact ihas bs h htail

lemma not_clash_of_tree_eq {a b : Value} (h : tree a = tree b) : clash a b = false :=
  Bool.eq_false_iff.mpr fun hc => tree_ne_of_clash.1 a b hc h

lemma clash_of_tree_eq :
    (∀ a a' b b' : Value, tree a = tree a' → tree b = tree b' → clash a b → clash a' b') ∧
    ∀ as as' bs bs' : List Value, trees as = trees as' → trees bs = trees bs' →
      clashElements as bs → clashElements as' bs' := by
  refine parts_induction (fun a ih a' b b' ha hb h => ?_) (fun _ bs _ _ _ h => ?_)
    (fun a as iha ihas as' bs bs' has hbs h => ?_)
  · have hta := typeCode_eq_of_tree_eq ha
    have htb := typeCode_eq_of_tree_eq hb
    by_cases hty : a.typeCode = b.typeCode
    · have hty' : a'.typeCode = b'.typeCode := by rw [← hta, ← htb, hty]
      rw [tree_eq a, tree_eq a', Rose.node.injEq, cons.injEq] at ha
      rw [tree_eq b, tree_eq b', htb, Rose.node.injEq, cons.injEq] at hb
      rw [clash_of_typeCode_eq hty, Bool.and_eq_true, decide_eq_true_eq] at h
      rw [clash_of_typeCode_eq hty', Bool.and_eq_true, decide_eq_true_eq]
      exact ⟨by rw [← ha.1.2, ← hb.1.2, h.1], ih _ _ _ ha.2 hb.2 h.2⟩
    · have hty' : a'.typeCode ≠ b'.typeCode := by rwa [← hta, ← htb]
      rw [clash_of_typeCode_ne hty] at h
      rwa [clash_of_typeCode_ne hty', ← hta, ← htb]
  · cases bs <;> cases h
  · cases bs with
    | nil => cases h
    | cons b bs =>
      cases as' with
      | nil => cases has
      | cons a' as' =>
        cases bs' with
        | nil => cases hbs
        | cons b' bs' =>
          obtain ⟨ha, has⟩ := cons.inj has
          obtain ⟨hb, hbs⟩ := cons.inj hbs
          rw [clashElements_cons] at h ⊢
          rcases h with h | ⟨hsame, htail⟩
          · exact .inl (iha a' b b' ha hb h)
          · exact .inr ⟨by rw [← ha, ← hb, hsame], ihas as' bs bs' has hbs htail⟩

/-! ## Off the clashing pairs -/

lemma compare_eq_cmp :
    (∀ a b : Value, a.noNaN → b.noNaN → ¬ clash a b →
      compareTo a b = Rose.cmp compare (tree a) (tree b)) ∧
    ∀ as bs : List Value, (∀ a ∈ as, a.noNaN) → (∀ b ∈ bs, b.noNaN) → ¬ clashElements as bs →
      compareElements as bs = Rose.cmpChildren compare (trees as) (trees bs) := by
  refine parts_induction (fun a ih b ha hb h => ?_) (fun bs _ _ _ => ?_)
    (fun a as iha ihas bs ha hb h => ?_)
  · by_cases hty : a.typeCode = b.typeCode
    · rw [compareTo_of_typeCode_eq hty ha hb, tree_eq, tree_eq, hty, cmp_node]
      refine then_congr fun hc => ih _ (noNaN_parts ha) (noNaN_parts hb) fun hparts => h ?_
      rw [clash_of_typeCode_eq hty, decide_eq_true (Std.LawfulEqCmp.eq_of_compare hc)]
      exact hparts
    · rw [clash_of_typeCode_ne hty] at h
      rw [compareTo_of_typeCode_ne hty, cmp_tree_of_typeCode_ne hty]
      exact typeTest_eq_compare_rank hty (by simpa using h)
  · cases bs <;> rfl
  · cases bs with
    | nil => rfl
    | cons b bs =>
      rw [forall_mem_cons] at ha hb
      rw [clashElements_cons, not_or] at h
      rw [compareElements, trees, trees, iha b ha.1 hb.1 h.1]
      refine then_congr fun hc => ihas bs ha.2 hb.2 fun htail => h.2 ⟨?_, htail⟩
      exact (Rose.cmp_eq_iff _ _).mp hc

lemma compareTo_eq_cmp {a b : Value} (ha : a.noNaN) (hb : b.noNaN) (h : ¬ clash a b) :
    compareTo a b = Rose.cmp compare (tree a) (tree b) :=
  compare_eq_cmp.1 a b ha hb h

lemma compareTo_of_tree_eq {a b : Value} (ha : a.noNaN) (hb : b.noNaN) (h : tree a = tree b) :
    compareTo a b = .eq := by
  rw [compareTo_eq_cmp ha hb (by simp [not_clash_of_tree_eq h]), h, (Rose.cmp_eq_iff _ _).mpr rfl]

/-! ## On the clashing pairs -/

lemma compare_of_clash :
    (∀ a b : Value, a.noNaN → b.noNaN → clash a b → compareTo a b = .lt) ∧
    ∀ as bs : List Value, (∀ a ∈ as, a.noNaN) → (∀ b ∈ bs, b.noNaN) → clashElements as bs →
      compareElements as bs = .lt := by
  refine parts_induction (fun a ih b ha hb h => ?_) (fun bs _ _ h => ?_)
    (fun a as iha ihas bs ha hb h => ?_)
  · by_cases hty : a.typeCode = b.typeCode
    · rw [clash_of_typeCode_eq hty, Bool.and_eq_true, decide_eq_true_eq] at h
      rw [compareTo_of_typeCode_eq hty ha hb, h.1, Std.ReflOrd.compare_self]
      exact ih _ (noNaN_parts ha) (noNaN_parts hb) h.2
    · rw [clash_of_typeCode_ne hty] at h
      rw [compareTo_of_typeCode_ne hty]
      exact typeTest_of_isContainer_ne (by simpa using h)
  · cases bs <;> cases h
  · cases bs with
    | nil => cases h
    | cons b bs =>
      rw [forall_mem_cons] at ha hb
      rw [compareElements]
      rcases (clashElements_cons a b as bs).mp h with h | ⟨hsame, htail⟩
      · rw [iha b ha.1 hb.1 h, Ordering.lt_then]
      · rw [compareTo_of_tree_eq ha.1 hb.1 hsame, Ordering.eq_then, ihas bs ha.2 hb.2 htail]

lemma compareTo_of_clash {a b : Value} (ha : a.noNaN) (hb : b.noNaN) (h : clash a b) :
    compareTo a b = .lt :=
  compare_of_clash.1 a b ha hb h

lemma isContainer_eq_of_not_clash {a b : Value} (h : ¬ clash a b) :
    a.typeCode.isContainer = b.typeCode.isContainer := by
  by_cases hty : a.typeCode = b.typeCode
  · rw [hty]
  · simpa [clash_of_typeCode_ne hty] using h

/-- A value that clashes with neither of two clashing values is compared with both before the
position of their clash, so with the same result. -/
lemma cmp_eq_of_clash :
    (∀ a b c : Value, clash b c → ¬ clash a b → ¬ clash a c →
      Rose.cmp compare (tree a) (tree b) = Rose.cmp compare (tree a) (tree c)) ∧
    ∀ as bs cs : List Value, clashElements bs cs → ¬ clashElements as bs → ¬ clashElements as cs →
      Rose.cmpChildren compare (trees as) (trees bs) =
        Rose.cmpChildren compare (trees as) (trees cs) := by
  refine parts_induction (fun a ih b c hbc hab hac => ?_) (fun bs cs h _ _ => ?_)
    (fun a as iha ihas bs cs hbc hab hac => ?_)
  · by_cases hty : b.typeCode = c.typeCode
    · rw [clash_of_typeCode_eq hty, Bool.and_eq_true, decide_eq_true_eq] at hbc
      by_cases hty' : a.typeCode = b.typeCode
      · rw [tree_eq, tree_eq b, tree_eq c, ← hty, ← hty', hbc.1, cmp_node, cmp_node]
        rw [clash_of_typeCode_eq hty'] at hab
        rw [clash_of_typeCode_eq (hty'.trans hty)] at hac
        refine then_congr fun hc => ?_
        have hhead := Std.LawfulEqCmp.eq_of_compare hc
        exact ih _ _ hbc.2 (by simpa [hhead, hbc.1] using hab) (by simpa [hhead] using hac)
      · rw [cmp_tree_of_typeCode_ne hty', cmp_tree_of_typeCode_ne (hty ▸ hty'), hty]
    · -- the two are a container and a scalar, and the value would be both
      rw [clash_of_typeCode_ne hty, ← isContainer_eq_of_not_clash hab,
        ← isContainer_eq_of_not_clash hac] at hbc
      simp at hbc
  · cases bs <;> cases cs <;> first | rfl | cases h
  · cases bs with
    | nil => cases hbc
    | cons b bs =>
      cases cs with
      | nil => cases hbc
      | cons c cs =>
        rw [clashElements_cons, not_or] at hab hac
        rw [trees, trees, trees, Rose.cmpChildren]
        rcases (clashElements_cons b c bs cs).mp hbc with hbc | ⟨hsame, htail⟩
        · have hcmp := iha b c hbc hab.1 hac.1
          rw [hcmp]
          refine then_congr fun hc => ?_
          -- equal to both of the two, which are not equal to each other
          have hac' := (Rose.cmp_eq_iff _ _).mp hc
          have hab' := (Rose.cmp_eq_iff _ _).mp (hcmp.trans hc)
          exact absurd (hab'.symm.trans hac') (tree_ne_of_clash.1 b c hbc)
        · rw [hsame]
          refine then_congr fun hc => ihas bs cs htail (fun h => hab.2 ⟨?_, h⟩)
            (fun h => hac.2 ⟨?_, h⟩)
          · rw [hsame, (Rose.cmp_eq_iff _ _).mp hc]
          · rw [(Rose.cmp_eq_iff _ _).mp hc]

/-! ## The laws of an order -/

/-- The laws of a total order at three values: exchanging the arguments negates the sign, a value
equals itself, and `≤` is transitive. -/
def OrderLaws (a b c : Value) : Prop :=
  compareTo a b = (compareTo b a).swap ∧ compareTo a a = .eq ∧
    ((compareTo a b).isLE → (compareTo b c).isLE → (compareTo a c).isLE)

/-- `compareTo` is a total preorder on a set of values: what the containers of the standard
library ask of their comparator. -/
structure LawfulOn (S : Set Value) : Prop where
  refl : ∀ a ∈ S, compareTo a a = .eq
  swap : ∀ a ∈ S, ∀ b ∈ S, compareTo a b = (compareTo b a).swap
  trans : ∀ a ∈ S, ∀ b ∈ S, ∀ c ∈ S,
    (compareTo a b).isLE → (compareTo b c).isLE → (compareTo a c).isLE

lemma compareTo_swap {a b : Value} (ha : a.noNaN) (hb : b.noNaN) (h : ¬ clash a b) :
    compareTo a b = (compareTo b a).swap := by
  rw [compareTo_eq_cmp ha hb h, compareTo_eq_cmp hb ha (by rwa [clash_comm]), Rose.cmp_swap]

lemma compareTo_isLE_trans {a b c : Value} (ha : a.noNaN) (hb : b.noNaN) (hc : c.noNaN)
    (h : ¬ clash a b) (hab : (compareTo a b).isLE) (hbc : (compareTo b c).isLE) :
    (compareTo a c).isLE := by
  by_cases hac : clash a c
  · rw [compareTo_of_clash ha hc hac]
    rfl
  · rw [compareTo_eq_cmp ha hb h] at hab
    rw [compareTo_eq_cmp ha hc hac]
    by_cases hcl : clash b c
    · rwa [← cmp_eq_of_clash.1 a b c hcl h hac]
    · rw [compareTo_eq_cmp hb hc hcl] at hbc
      exact Std.TransCmp.isLE_trans hab hbc

lemma lawfulOn_of_not_clash {S : Set Value} (hN : ∀ a ∈ S, a.noNaN)
    (h : ∀ a ∈ S, ∀ b ∈ S, ¬ clash a b) : LawfulOn S where
  refl a ha := compareTo_of_tree_eq (hN a ha) (hN a ha) rfl
  swap a ha b hb := compareTo_swap (hN a ha) (hN b hb) (h a ha b hb)
  trans a ha b hb c hc := compareTo_isLE_trans (hN a ha) (hN b hb) (hN c hc) (h a ha b hb)

/-- **When `compareTo` is a total order.** At three values that hold no NaN and no
`not_a_date_time`, the laws of a total order hold exactly when the first two do not clash, that is,
when no container stands against a scalar at the first position where they differ. -/
theorem order_laws_iff (a b c : Value) (ha : a.noNaN) (hb : b.noNaN) (hc : c.noNaN) :
    OrderLaws a b c ↔ ¬ clash a b := by
  refine ⟨fun hlaws hcl => ?_, fun h => ?_⟩
  · -- both sides say "less", and "less" is not its own reverse
    have hswap := hlaws.1
    rw [compareTo_of_clash ha hb hcl, compareTo_of_clash hb ha (by rwa [clash_comm])] at hswap
    cases hswap
  · exact ⟨compareTo_swap ha hb h, compareTo_of_tree_eq ha ha rfl,
      compareTo_isLE_trans ha hb hc h⟩

theorem order_laws_lists :
    OrderLaws (.list [.str [97], .int64 1]) (.list [.str [97], .int64 2]) (.list [.null]) ∧
      ¬ clash (.list [.str [97], .int64 1]) (.list [.str [97], .int64 2]) :=
  have h : ¬ clash (.list [.str [97], .int64 1]) (.list [.str [97], .int64 2]) := by decide
  ⟨(order_laws_iff _ _ _ (by decide) (by decide) (by decide)).mpr h, h⟩

/-- A set, a string and a list: each of the first two is less than the other, and the first is not
at most the third although it is at most the second and the second is at most the third. -/
theorem set_str_list_not_ordered :
    compareTo (.set []) (.str []) = .lt ∧ compareTo (.str []) (.set []) = .lt ∧
      compareTo (.str []) (.list []) = .lt ∧ compareTo (.set []) (.list []) = .gt ∧
      ¬ OrderLaws (.set []) (.str []) (.list []) := by
  refine ⟨rfl, rfl, rfl, rfl, fun h => ?_⟩
  exact absurd h.1 (by decide)

end Value

end P2
