import Mathlib.Data.Nat.Digits.Defs
import Mathlib.Data.Nat.Bitwise
import Mathlib.Tactic.Linarith
import Mathlib.Tactic.Ring

/-!
# Numbers as words: ripple passes

A fixed number of machine words, most significant first, read as a number in base `B`, and the two
kinds of loop that compute on them.

* `beNat B ds` — the number a big-endian list of digits denotes (`Nat.ofDigits` of its reverse).
* `ripple f c as` — the loop that runs from the least significant position to the most
  significant one and hands a carry upwards; `ripple_value` says what the digits it writes and the
  carry it ends with denote, from what one position does.
* `longDiv f c as` — the loop that runs the other way, handing a remainder downwards;
  `longDiv_value` is schoolbook division by a number `d`.

Everything is over an arbitrary base and arbitrary types of positions, digits and carries.
-/

namespace P2.Lib.Ripple

open List Nat

/-! ## The number of a big-endian list of digits -/

/-- The number a big-endian list of digits denotes in base `B`. -/
def beNat (B : ℕ) (ds : List ℕ) : ℕ := Nat.ofDigits B ds.reverse

@[simp] lemma beNat_nil (B : ℕ) : beNat B [] = 0 := rfl

lemma beNat_cons (B d : ℕ) (ds : List ℕ) : beNat B (d :: ds) = d * B ^ ds.length + beNat B ds := by
  unfold beNat
  rw [reverse_cons, ofDigits_append, ofDigits_singleton, length_reverse]
  ring

lemma beNat_append (B : ℕ) (ds es : List ℕ) :
    beNat B (ds ++ es) = beNat B ds * B ^ es.length + beNat B es := by
  unfold beNat
  rw [reverse_append, ofDigits_append, length_reverse]
  ring

@[simp] lemma beNat_replicate_zero (B n : ℕ) : beNat B (replicate n 0) = 0 := by
  induction n with
  | zero => rfl
  | succ n ih => rw [replicate_succ, beNat_cons, ih]; simp

lemma beNat_lt {B : ℕ} (ds : List ℕ) (h : ∀ d ∈ ds, d < B) : beNat B ds < B ^ ds.length := by
  induction ds with
  | nil => simp
  | cons d ds ih =>
    have hd : d < B := h d mem_cons_self
    have hds := ih fun e he => h e (mem_cons_of_mem _ he)
    rw [beNat_cons, length_cons]
    calc d * B ^ ds.length + beNat B ds < d * B ^ ds.length + B ^ ds.length := by omega
      _ = (d + 1) * B ^ ds.length := by ring
      _ ≤ B * B ^ ds.length := Nat.mul_le_mul_right _ hd
      _ = B ^ ds.length * B := by ring

lemma beNat_inj {B : ℕ} : ∀ {ds es : List ℕ}, (∀ d ∈ ds, d < B) → (∀ e ∈ es, e < B) →
    ds.length = es.length → beNat B ds = beNat B es → ds = es
  | [], [], _, _, _, _ => rfl
  | d :: ds, e :: es, hd, he, hlen, h => by
    have hl : ds.length = es.length := by simpa using hlen
    have hds := beNat_lt ds fun x hx => hd x (mem_cons_of_mem _ hx)
    have hes := beNat_lt es fun x hx => he x (mem_cons_of_mem _ hx)
    rw [beNat_cons, beNat_cons, hl] at h
    rw [hl] at hds
    -- the leading digit is the quotient by the weight, the rest is the remainder
    have hpos : 0 < B ^ es.length := by omega
    have hdiv : d = e := by
      have h1 : (d * B ^ es.length + beNat B ds) / B ^ es.length = d := by
        rw [mul_comm, mul_add_div hpos, div_eq_of_lt hds, add_zero]
      have h2 : (e * B ^ es.length + beNat B es) / B ^ es.length = e := by
        rw [mul_comm, mul_add_div hpos, div_eq_of_lt hes, add_zero]
      rw [← h1, h, h2]
    subst hdiv
    have hrest : beNat B ds = beNat B es := by omega
    rw [beNat_inj (fun x hx => hd x (mem_cons_of_mem _ hx))
      (fun x hx => he x (mem_cons_of_mem _ hx)) hl hrest]

lemma compare_mul_add {w x y : ℕ} (d e : ℕ) (hx : x < w) (hy : y < w) :
    compare (d * w + x) (e * w + y) = (compare d e).then (compare x y) := by
  rcases lt_trichotomy d e with hde | rfl | hde
  · have h : (d + 1) * w ≤ e * w := Nat.mul_le_mul_right w hde
    rw [add_mul] at h
    rw [Nat.compare_eq_lt.mpr hde, Nat.compare_eq_lt.mpr (by omega)]
    rfl
  · rw [Nat.compare_eq_eq.mpr rfl, Ordering.eq_then, compare_eq_ite_lt, compare_eq_ite_lt]
    simp
  · have h : (e + 1) * w ≤ d * w := Nat.mul_le_mul_right w hde
    rw [add_mul, one_mul] at h
    rw [Nat.compare_eq_gt.mpr hde, Nat.compare_eq_gt.mpr (by omega)]
    rfl

/-! ## Weighted sums over the integers -/

section weigh

variable {α : Type}

/-- The integers `g a`, each at the weight of its position in base `B`. -/
def weigh (B : ℤ) (g : α → ℤ) : List α → ℤ
  | [] => 0
  | a :: as => g a * B ^ as.length + weigh B g as

@[simp] lemma weigh_nil (B : ℤ) (g : α → ℤ) : weigh B g [] = 0 := rfl

@[simp] lemma weigh_cons (B : ℤ) (g : α → ℤ) (a : α) (as : List α) :
    weigh B g (a :: as) = g a * B ^ as.length + weigh B g as := rfl

lemma weigh_natCast (B : ℕ) (g : α → ℕ) (as : List α) :
    weigh (B : ℤ) (fun a => (g a : ℤ)) as = (beNat B (as.map g) : ℕ) := by
  induction as with
  | nil => simp
  | cons a as ih => rw [weigh_cons, ih, map_cons, beNat_cons]; push_cast; simp

lemma weigh_add (B : ℤ) (g h : α → ℤ) (as : List α) :
    weigh B (fun a => g a + h a) as = weigh B g as + weigh B h as := by
  induction as with
  | nil => simp
  | cons a as ih => simp only [weigh_cons, ih]; ring

lemma weigh_mul_right (B : ℤ) (g : α → ℤ) (k : ℤ) (as : List α) :
    weigh B (fun a => g a * k) as = weigh B g as * k := by
  induction as with
  | nil => simp
  | cons a as ih => simp only [weigh_cons, ih]; ring

lemma weigh_zip_fst {β : Type} (B : ℤ) (g : α → ℤ) : ∀ {as : List α} {bs : List β},
    as.length = bs.length → weigh B (fun p : α × β => g p.1) (as.zip bs) = weigh B g as
  | [], [], _ => rfl
  | a :: as, b :: bs, h => by
    have hl : as.length = bs.length := by simpa using h
    simp [weigh_zip_fst B g hl, hl]

lemma weigh_zip_snd {β : Type} (B : ℤ) (g : β → ℤ) : ∀ {as : List α} {bs : List β},
    as.length = bs.length → weigh B (fun p : α × β => g p.2) (as.zip bs) = weigh B g bs
  | [], [], _ => rfl
  | a :: as, b :: bs, h => by
    have hl : as.length = bs.length := by simpa using h
    simp [weigh_zip_snd B g hl, hl]

end weigh

/-! ## The pass from the least significant position up -/

section ripple

variable {α β κ : Type}

/-- The right-to-left pass: each position sees the carry of the position below it, writes a digit
and hands a carry to the position above. -/
def ripple (f : α → κ → κ × β) (c : κ) : List α → κ × List β
  | [] => (c, [])
  | a :: as =>
    let low := ripple f c as
    let top := f a low.1
    (top.1, top.2 :: low.2)

@[simp] lemma ripple_nil (f : α → κ → κ × β) (c : κ) : ripple f c [] = (c, []) := rfl

@[simp] lemma ripple_cons (f : α → κ → κ × β) (c : κ) (a : α) (as : List α) :
    ripple f c (a :: as) =
      ((f a (ripple f c as).1).1, (f a (ripple f c as).1).2 :: (ripple f c as).2) := rfl

@[simp] lemma ripple_length (f : α → κ → κ × β) (c : κ) (as : List α) :
    (ripple f c as).2.length = as.length := by
  induction as with
  | nil => rfl
  | cons a as ih => simp [ih]

lemma ripple_carry (f : α → κ → κ × β) (P : κ → Prop) (hP : ∀ a c, P c → P (f a c).1) {c : κ}
    (hc : P c) (as : List α) : P (ripple f c as).1 := by
  induction as with
  | nil => exact hc
  | cons a as ih => exact hP a _ ih

/-- **What a ripple pass computes.** If at every position the written digit plus `B` times the
carry out is the position's input plus the carry in, then the written digits plus the last carry
at weight `B ^ n` denote the inputs at their weights plus the first carry. Stated over `ℤ`, so
that a borrow is a negative carry. `P` is an invariant of the carries. -/
theorem ripple_value (f : α → κ → κ × β) (B : ℤ) (dig : β → ℤ) (car : κ → ℤ) (inp : α → ℤ)
    (P : κ → Prop) (hP : ∀ a c, P c → P (f a c).1)
    (hf : ∀ a c, P c → dig (f a c).2 + B * car (f a c).1 = inp a + car c)
    {c : κ} (hc : P c) (as : List α) :
    weigh B dig (ripple f c as).2 + B ^ as.length * car (ripple f c as).1 =
      weigh B inp as + car c := by
  induction as with
  | nil => simp
  | cons a as ih =>
    have hstep := hf a _ (ripple_carry f P hP hc as)
    simp only [ripple_cons, weigh_cons, ripple_length, length_cons]
    set out := f a (ripple f c as).1
    calc dig out.2 * B ^ as.length + weigh B dig (ripple f c as).2 +
          B ^ (as.length + 1) * car out.1
        = B ^ as.length * (dig out.2 + B * car out.1) + weigh B dig (ripple f c as).2 := by ring
      _ = B ^ as.length * (inp a + car (ripple f c as).1) + weigh B dig (ripple f c as).2 := by
          rw [hstep]
      _ = inp a * B ^ as.length +
            (weigh B dig (ripple f c as).2 + B ^ as.length * car (ripple f c as).1) := by ring
      _ = inp a * B ^ as.length + weigh B inp as + car c := by rw [ih]; ring

end ripple

/-! ## The pass from the most significant position down -/

section longDiv

variable {α β κ : Type}

/-- The left-to-right pass: each position sees what the position above it left over, writes a
digit and leaves something over for the position below. -/
def longDiv (f : α → κ → κ × β) (c : κ) : List α → κ × List β
  | [] => (c, [])
  | a :: as =>
    let top := f a c
    let low := longDiv f top.1 as
    (low.1, top.2 :: low.2)

@[simp] lemma longDiv_nil (f : α → κ → κ × β) (c : κ) : longDiv f c [] = (c, []) := rfl

@[simp] lemma longDiv_cons (f : α → κ → κ × β) (c : κ) (a : α) (as : List α) :
    longDiv f c (a :: as) =
      ((longDiv f (f a c).1 as).1, (f a c).2 :: (longDiv f (f a c).1 as).2) := rfl

@[simp] lemma longDiv_length (f : α → κ → κ × β) (c : κ) (as : List α) :
    (longDiv f c as).2.length = as.length := by
  induction as generalizing c with
  | nil => rfl
  | cons a as ih => simp [ih]

/-- **Schoolbook division.** If at every position the remainder in, put above the position's
input, is `d` times the written digit plus a remainder out below `d`, then the written digits
denote the quotient by `d` of the inputs with the first remainder put above them. `P` is an
invariant of what is left over. -/
theorem longDiv_value (f : α → κ → κ × β) (B d : ℕ) (dig : β → ℕ) (rem : κ → ℕ) (inp : α → ℕ)
    (P : κ → Prop) (hP : ∀ a c, P c → P (f a c).1) (hlt : ∀ c, P c → rem c < d)
    (hf : ∀ a c, P c → rem c * B + inp a = d * dig (f a c).2 + rem (f a c).1)
    {c : κ} (hc : P c) (as : List α) :
    beNat B ((longDiv f c as).2.map dig) = (rem c * B ^ as.length + beNat B (as.map inp)) / d := by
  -- the quotient and the remainder together; the remainder bound then gives the quotient alone
  have key : ∀ (as : List α) (c : κ), P c →
      P (longDiv f c as).1 ∧
        rem c * B ^ as.length + beNat B (as.map inp) =
          d * beNat B ((longDiv f c as).2.map dig) + rem (longDiv f c as).1 := by
    intro as
    induction as with
    | nil => intro c hc; exact ⟨hc, by simp⟩
    | cons a as ih =>
      intro c hc
      obtain ⟨hP', hval⟩ := ih (f a c).1 (hP a c hc)
      refine ⟨hP', ?_⟩
      simp only [longDiv_cons, map_cons, beNat_cons, length_map, longDiv_length, length_cons]
      calc rem c * B ^ (as.length + 1) + (inp a * B ^ as.length + beNat B (as.map inp))
          = (rem c * B + inp a) * B ^ as.length + beNat B (as.map inp) := by ring
        _ = d * dig (f a c).2 * B ^ as.length +
              (rem (f a c).1 * B ^ as.length + beNat B (as.map inp)) := by
            rw [hf a c hc]; ring
        _ = d * (dig (f a c).2 * B ^ as.length + beNat B ((longDiv f (f a c).1 as).2.map dig)) +
              rem (longDiv f (f a c).1 as).1 := by rw [hval]; ring
  obtain ⟨hP', hval⟩ := key as c hc
  have hr := hlt _ hP'
  rw [hval, mul_add_div (by omega), div_eq_of_lt hr, add_zero]

end longDiv

end P2.Lib.Ripple
