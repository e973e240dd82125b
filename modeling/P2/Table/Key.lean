import P2.Lib.Runs
import P2.Value.Order

/-!
# Keys and their comparators

A key is a list of field numbers; the empty key stands for the identifier of the tuple.
`KeyedEntryComparator` and `KeyedTupleComparator` compare tuples along a key.
-/

namespace P2.Table

open P2.Value P2.Lib Option List

abbrev Key := List ℕ

/-- The loop over the field numbers. Absence of a field is smaller than existence. -/
def fieldsLt : Key → Tuple → Tuple → Bool
  | [], _, _ => false
  | fieldNo :: fieldNos, first, second =>
    match first.fields[fieldNo]?, second.fields[fieldNo]? with
    | some a, some b =>
      match compareTo a b with
      | .lt => true
      | .gt => false
      | .eq => fieldsLt fieldNos first second
    | some _, none => false
    | none, some _ => true
    | none, none => false

/-- `KeyedEntryComparator` and `KeyedTupleComparator`, which have the same body: identifiers for the
empty key, else the fields of the key. -/
def keyedLt (key : Key) (first second : Tuple) : Bool :=
  if key = [] then decide (first.ID < second.ID) else fieldsLt key first second

def sameKey (key : Key) (first second : Tuple) : Bool :=
  !keyedLt key first second && !keyedLt key second first

/-! ## Typed tuples -/

def Typed (cols : ℕ → Set Value) (t : Tuple) : Prop :=
  ∀ i v, t.fields[i]? = some v → v ∈ cols i

def TypedOn (cols : ℕ → Set Value) (key : Key) (t : Tuple) : Prop :=
  ∀ i ∈ key, ∀ v, t.fields[i]? = some v → v ∈ cols i

lemma Typed.on {cols : ℕ → Set Value} {t : Tuple} (ht : Typed cols t) (key : Key) :
    TypedOn cols key t :=
  fun i _ => ht i

lemma TypedOn.head {cols : ℕ → Set Value} {i : ℕ} {key : Key} {t : Tuple} {v : Value}
    (ht : TypedOn cols (i :: key) t) (hv : t.fields[i]? = some v) : v ∈ cols i :=
  ht i mem_cons_self v hv

lemma TypedOn.tail {cols : ℕ → Set Value} {i : ℕ} {key : Key} {t : Tuple}
    (ht : TypedOn cols (i :: key) t) : TypedOn cols key t :=
  fun j hj => ht j (mem_cons_of_mem i hj)

def Lawful (cols : ℕ → Set Value) : Prop := ∀ i, LawfulOn (cols i)

def HasFields (key : Key) (t : Tuple) : Prop := ∀ i ∈ key, i < t.fields.length

section Order

variable {cols : ℕ → Set Value} (hcols : Lawful cols) {key : Key}

lemma fieldsLt_cons_none {i : ℕ} {t u : Tuple} (ht : t.fields[i]? = none) :
    fieldsLt (i :: key) t u = (u.fields[i]?).isSome := by
  rw [fieldsLt, ht]
  rcases u.fields[i]? with _ | b <;> rfl

lemma fieldsLt_cons_some_none {i : ℕ} {t u : Tuple} {a : Value}
    (ht : t.fields[i]? = some a) (hu : u.fields[i]? = none) : fieldsLt (i :: key) t u = false := by
  rw [fieldsLt, ht, hu]

include hcols

lemma fieldsLt_cons_some {i : ℕ} {t u : Tuple} {a b : Value} (ht : t.fields[i]? = some a)
    (hu : u.fields[i]? = some b) (ha : a ∈ cols i) (hb : b ∈ cols i) :
    fieldsLt (i :: key) t u = (comparator a b || !comparator b a && fieldsLt key t u) := by
  simp only [fieldsLt, ht, hu, comparator]
  rw [(hcols i).swap b hb a ha]
  rcases compareTo a b with _ | _ | _ <;> rfl

lemma fieldsLt_asymm {t u : Tuple} (ht : TypedOn cols key t) (hu : TypedOn cols key u)
    (htu : fieldsLt key t u) : ¬ fieldsLt key u t := by
  induction key with
  | nil => cases htu
  | cons i key ih =>
    rcases hti : t.fields[i]? with _ | a
    · rw [fieldsLt_cons_none hti] at htu
      obtain ⟨b, hb⟩ := isSome_iff_exists.mp htu
      rw [fieldsLt_cons_some_none hb hti]
      exact Bool.false_ne_true
    · rcases hui : u.fields[i]? with _ | b
      · rw [fieldsLt_cons_some_none hti hui] at htu
        cases htu
      · have hasymm := (hcols i).strictWeak.asymm a (ht.head hti) b (hu.head hui)
        rw [fieldsLt_cons_some hcols hti hui (ht.head hti) (hu.head hui)] at htu
        rw [fieldsLt_cons_some hcols hui hti (hu.head hui) (ht.head hti)]
        grind [ih ht.tail hu.tail]

lemma not_fieldsLt_trans {t u v : Tuple} (ht : TypedOn cols key t) (hu : TypedOn cols key u)
    (hv : TypedOn cols key v) (htu : ¬ fieldsLt key t u) (huv : ¬ fieldsLt key u v) :
    ¬ fieldsLt key t v := by
  induction key with
  | nil => exact Bool.false_ne_true
  | cons i key ih =>
    rcases hti : t.fields[i]? with _ | a
    · -- the field is missing in all three tuples
      rw [fieldsLt_cons_none hti, Bool.not_eq_true, Option.isSome_eq_false_iff,
        isNone_iff_eq_none] at htu
      rw [fieldsLt_cons_none htu, Bool.not_eq_true] at huv
      rw [fieldsLt_cons_none hti, huv]
      exact Bool.false_ne_true
    · rcases hvi : v.fields[i]? with _ | c
      · rw [fieldsLt_cons_some_none hti hvi]
        exact Bool.false_ne_true
      · rcases hui : u.fields[i]? with _ | b
        · rw [fieldsLt_cons_none hui, hvi] at huv
          exact absurd rfl huv
        · have hSa := ht.head hti
          have hSb := hu.head hui
          have hSc := hv.head hvi
          have htrans := (hcols i).strictWeak.not_lt_trans
          rw [fieldsLt_cons_some hcols hti hui hSa hSb] at htu
          rw [fieldsLt_cons_some hcols hui hvi hSb hSc] at huv
          rw [fieldsLt_cons_some hcols hti hvi hSa hSc]
          -- from `a ≥ b ≥ c` follows `a ≥ c`, and if also `c ≥ a`, all three are equal
          grind [ih ht.tail hu.tail hv.tail]

lemma strictWeak_keyedLt (key : Key) : StrictWeak (keyedLt key) {t | TypedOn cols key t} where
  asymm t ht u hu htu := by
    unfold keyedLt at htu ⊢
    split_ifs at htu ⊢ with hkey
    · simp only [decide_eq_true_eq] at htu ⊢
      omega
    · exact fieldsLt_asymm hcols ht hu htu
  not_lt_trans t ht u hu v hv htu huv := by
    unfold keyedLt at htu huv ⊢
    split_ifs at htu huv ⊢ with hkey
    · simp only [decide_eq_true_eq] at htu huv ⊢
      omega
    · exact not_fieldsLt_trans hcols ht hu hv htu huv

end Order

lemma compareElements_self {L : List Value} (h : ∀ v ∈ L, compareTo v v = .eq) :
    compareElements L L = .eq := by
  induction L with
  | nil => rfl
  | cons v L ih =>
    rw [compareElements, h v mem_cons_self]
    exact ih fun w hw => h w (mem_cons_of_mem v hw)

lemma Typed.compareTo_self {cols : ℕ → Set Value} (hcols : Lawful cols) {t : Tuple}
    (ht : Typed cols t) : t.compareTo t = .eq := by
  unfold Tuple.compareTo
  rw [Nat.compare_eq_eq.mpr rfl]
  apply compareElements_self
  intro v hv
  obtain ⟨i, hi⟩ := List.getElem?_of_mem hv
  exact (hcols i).refl v (ht i v hi)

/-! ## Equal keys -/

section SameKey

variable {cols : ℕ → Set Value} {key : Key} {t u v : Tuple}

lemma sameKey_comm (key : Key) (t u : Tuple) : sameKey key t u = sameKey key u t :=
  Bool.and_comm ..

lemma sameKey_symm (h : sameKey key t u) : sameKey key u t := by
  rwa [sameKey_comm]

lemma sameKey_refl (hcols : Lawful cols) (ht : Typed cols t) (key : Key) : sameKey key t t := by
  have hirrefl := (strictWeak_keyedLt hcols key).irrefl (ht.on key)
  unfold sameKey
  rw [Bool.not_eq_true] at hirrefl
  rw [hirrefl]
  rfl

lemma sameKey_trans (hcols : Lawful cols) (ht : Typed cols t) (hu : Typed cols u)
    (hv : Typed cols v) (htu : sameKey key t u) (huv : sameKey key u v) : sameKey key t v := by
  unfold sameKey at htu huv ⊢
  simp only [Bool.and_eq_true, Bool.not_eq_true', ← Bool.not_eq_true] at htu huv ⊢
  have hS := strictWeak_keyedLt hcols key
  have ht := ht.on key
  have hu := hu.on key
  have hv := hv.on key
  exact ⟨hS.not_lt_trans t ht u hu v hv htu.1 huv.1, hS.not_lt_trans v hv u hu t ht huv.2 htu.2⟩

lemma sameKey_congr (hcols : Lawful cols) (ht : Typed cols t) (hu : Typed cols u)
    (hv : Typed cols v) (htu : sameKey key t u) : sameKey key v t = sameKey key v u := by
  rw [Bool.eq_iff_iff]
  exact ⟨fun hvt => sameKey_trans hcols hv ht hu hvt htu,
    fun hvu => sameKey_trans hcols hv hu ht hvu (sameKey_symm htu)⟩

lemma sameKey_nil : sameKey [] t u ↔ t.ID = u.ID := by
  unfold sameKey keyedLt
  simp only [if_true, Bool.and_eq_true, Bool.not_eq_true', decide_eq_false_iff_not]
  omega

lemma not_fieldsLt_iff (hcols : Lawful cols) (ht : TypedOn cols key t) (hu : TypedOn cols key u)
    (htk : HasFields key t) (huk : HasFields key u) :
    (fieldsLt key t u = false ∧ fieldsLt key u t = false) ↔
      ∀ i ∈ key, ∀ a b, t.fields[i]? = some a → u.fields[i]? = some b → compareTo a b = .eq := by
  induction key with
  | nil => simp [fieldsLt]
  | cons i key ih =>
    obtain ⟨a, hta⟩ : ∃ a, t.fields[i]? = some a :=
      ⟨_, List.getElem?_eq_getElem (htk i mem_cons_self)⟩
    obtain ⟨b, hub⟩ : ∃ b, u.fields[i]? = some b :=
      ⟨_, List.getElem?_eq_getElem (huk i mem_cons_self)⟩
    have ih := ih ht.tail hu.tail (fun j hj => htk j (mem_cons_of_mem i hj))
      (fun j hj => huk j (mem_cons_of_mem i hj))
    have hhead : (∀ a' b', t.fields[i]? = some a' → u.fields[i]? = some b' →
        compareTo a' b' = .eq) ↔ compareTo a b = .eq := by
      constructor
      · intro h
        exact h a b hta hub
      · intro h a' b' ha' hb'
        rw [hta, some.injEq] at ha'
        rw [hub, some.injEq] at hb'
        rwa [← ha', ← hb']
    rw [forall_mem_cons, hhead, ← ih, ← (hcols i).eq_iff_not_comparator (ht.head hta)
      (hu.head hub), fieldsLt_cons_some hcols hta hub (ht.head hta) (hu.head hub),
      fieldsLt_cons_some hcols hub hta (hu.head hub) (ht.head hta)]
    cases comparator a b <;> cases comparator b a <;> simp

lemma sameKey_iff (hcols : Lawful cols) (hkey : key ≠ []) (ht : TypedOn cols key t)
    (hu : TypedOn cols key u) (htk : HasFields key t) (huk : HasFields key u) :
    sameKey key t u ↔
      ∀ i ∈ key, ∀ a b, t.fields[i]? = some a → u.fields[i]? = some b → compareTo a b = .eq := by
  rw [← not_fieldsLt_iff hcols ht hu htk huk]
  unfold sameKey keyedLt
  rw [if_neg hkey, if_neg hkey, Bool.and_eq_true, Bool.not_eq_true', Bool.not_eq_true']

lemma compareTo_of_compareElements {as bs : List Value} (h : compareElements as bs = .eq) :
    ∀ (i : ℕ) a b, as[i]? = some a → bs[i]? = some b → compareTo a b = .eq := by
  induction as generalizing bs with
  | nil =>
    intro i a b ha
    cases ha
  | cons a as ih =>
    cases bs with
    | nil => cases h
    | cons b bs =>
      rw [compareElements, Ordering.then_eq_eq] at h
      intro i a' b' ha hb
      cases i with
      | zero =>
        cases ha
        cases hb
        exact h.1
      | succ i => exact ih h.2 i a' b' ha hb

lemma fieldsLt_eq_false (hlength : t.fields.length = u.fields.length)
    (h : ∀ (i : ℕ) a b, t.fields[i]? = some a → u.fields[i]? = some b → compareTo a b = .eq)
    (key : Key) : fieldsLt key t u = false := by
  induction key with
  | nil => rfl
  | cons i key ih =>
    unfold fieldsLt
    rcases ht : t.fields[i]? with _ | a
    · have hu : u.fields[i]? = none := by
        rw [List.getElem?_eq_none_iff] at ht ⊢
        omega
      simp [hu]
    · rcases hu : u.fields[i]? with _ | b
      · rfl
      · simp only [h i a b ht hu]
        exact ih

lemma sameKey_of_compareTo_eq (hcols : Lawful cols) (hkey : key ≠ []) (ht : Typed cols t)
    (hu : Typed cols u) (h : t.compareTo u = .eq) : sameKey key t u := by
  unfold Tuple.compareTo at h
  rw [Ordering.then_eq_eq, Nat.compare_eq_eq] at h
  have hfields := compareTo_of_compareElements h.2
  have hswap : ∀ (i : ℕ) a b, u.fields[i]? = some a → t.fields[i]? = some b →
      compareTo a b = .eq := by
    intro i a b ha hb
    rw [(hcols i).swap a (hu i a ha) b (ht i b hb), hfields i b a hb ha]
    rfl
  unfold sameKey keyedLt
  rw [if_neg hkey, if_neg hkey, fieldsLt_eq_false h.1 hfields, fieldsLt_eq_false h.1.symm hswap]
  rfl

end SameKey

end P2.Table
