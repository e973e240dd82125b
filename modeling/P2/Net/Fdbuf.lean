import P2.Lib.Memory
import P2.Lib.Runs
import Mathlib.Data.Nat.Bitwise

/-!
# `Fdbuf`

The buffer between sockets and tuples: bytes are pushed at its tail and popped from its head
(`byte_queue`).

Operations are `none` where the source writes outside the block or fails an assertion.
-/

namespace P2.Net

open P2.Lib P2.Lib.Memory List Option Nat UInt32
open UInt32 (toNat_add toNat_sub_of_le)

/-- A buffer. -/
structure Fdbuf where
  capacity : UInt32
  len : UInt32 := 0
  start : UInt32 := 0
  data : List UInt8
  safe : Bool

namespace Fdbuf

/-! ## The code -/

def align (x : UInt32) : UInt32 := (x + 3) &&& ~~~3

def BUF_INCREMENT : UInt32 := 0x80

/-- The constructor. -/
def mk' (init_capacity : Int32) (is_safe : Bool) : Fdbuf where
  capacity := align init_capacity.toUInt32
  data := replicate (align init_capacity.toUInt32).toNat 0
  safe := is_safe

def content (s : Fdbuf) : List UInt8 := slice s.data s.start.toNat s.len.toNat

def new_size (new_capacity : UInt32) : UInt32 :=
  (new_capacity + BUF_INCREMENT - 1) / BUF_INCREMENT * BUF_INCREMENT

/-- The first part of `ensure`: a larger block, with the bytes held at its start. -/
def grow (new_capacity : UInt32) (s : Fdbuf) : Option Fdbuf := do
  let new_buf ← store (replicate (new_size new_capacity).toNat 0) 0 s.content
  let new_buf ← if s.safe then
      store new_buf s.len.toNat (replicate (new_size new_capacity - s.len).toNat 0)
    else some new_buf
  return { s with data := new_buf, capacity := new_size new_capacity, start := 0 }

/-- The second part of `ensure`: the bytes held are copied to the start of the block. -/
def compact (s : Fdbuf) : Option Fdbuf := do
  return { s with data := ← store s.data 0 s.content }

def ensure (new_capacity : UInt32) (s : Fdbuf) : Option Fdbuf := do
  let new_capacity := align new_capacity
  let s ← if s.capacity < new_capacity then s.grow new_capacity else some s
  let s ← if s.capacity - s.start < new_capacity then s.compact else some s
  if s.capacity ≥ s.start + s.len then some s else none

def ensure_additional (extra : UInt32) (s : Fdbuf) : Option Fdbuf :=
  s.ensure (extra + s.len + s.start)

/-- What all writers do: room is made, the bytes are copied behind those held. -/
def append (buf : List UInt8) (s : Fdbuf) : Option Fdbuf := do
  let s ← s.ensure_additional (UInt32.ofNat buf.length)
  let data ← store s.data (s.start.toNat + s.len.toNat) buf
  return { s with data := data, len := s.len + UInt32.ofNat buf.length }

def wordBytes (size n : ℕ) : List UInt8 :=
  (List.range size).map fun i => UInt8.ofNat (n / 256 ^ i)

def wordOf (bytes : List UInt8) : ℕ := bytes.foldr (fun b n => b.toNat + 256 * n) 0

def push_bytes (buf : List UInt8) (s : Fdbuf) : Option Fdbuf := s.append buf

def push_uint32 (l : UInt32) (s : Fdbuf) : Option Fdbuf := s.append (wordBytes 4 l.toNat)

def push_uint64 (l : UInt64) (s : Fdbuf) : Option Fdbuf := s.append (wordBytes 8 l.toNat)

def pushString (str : List UInt8) (s : Fdbuf) : Option Fdbuf := s.append str

def pushFdbuf (fb : Fdbuf) (max_size : UInt32) (s : Fdbuf) : Option Fdbuf :=
  s.push_bytes (slice fb.data fb.start.toNat (min fb.len max_size).toNat)

def take (sz : UInt32) (s : Fdbuf) : Fdbuf := { s with len := s.len - sz, start := s.start + sz }

def pop_bytes (sz : UInt32) (s : Fdbuf) : Option (List UInt8) × Fdbuf :=
  if s.len ≥ sz then (some (slice s.data s.start.toNat sz.toNat), s.take sz) else (none, s)

/-- The word popped, zero if there was none. -/
def pop_word (size : UInt32) (s : Fdbuf) : ℕ × Fdbuf :=
  if s.len ≥ size then (wordOf (slice s.data s.start.toNat size.toNat), s.take size) else (0, s)

def pop_uint32 (s : Fdbuf) : ℕ × Fdbuf := s.pop_word 4

def pop_uint64 (s : Fdbuf) : ℕ × Fdbuf := s.pop_word 8

def pop_to_fdbuf (fb : Fdbuf) (to_write : UInt32) (s : Fdbuf) : Option (Fdbuf × Fdbuf) := do
  let to_write := min to_write s.len
  let fb ← pushFdbuf s to_write fb
  return (fb, s.take to_write)

/-- The C string: the bytes from `start` on and the null character written behind them. -/
def cstr (s : Fdbuf) : Option (List UInt8 × Fdbuf) := do
  let s ← s.ensure_additional 1
  let data ← store s.data (s.len + s.start).toNat [0]
  return (slice data s.start.toNat (s.len.toNat + 1), { s with data := data })

def clear (s : Fdbuf) : Fdbuf := { s with len := 0, start := 0 }

inductive Op where
  | push_bytes (buf : List UInt8)
  | push_uint32 (l : UInt32)
  | push_uint64 (l : UInt64)
  | pushString (str : List UInt8)
  | pushFdbuf (fb : Fdbuf) (max_size : UInt32)
  | pop_bytes (sz : UInt32)
  | pop_uint32
  | pop_uint64
  | pop_to_fdbuf (fb : Fdbuf) (to_write : UInt32)
  | cstr
  | ensure (new_capacity : UInt32)
  | clear

/-- What a call gives back: nothing, the bytes popped, a word, the content of the other buffer, or a
C string. -/
inductive Answer where
  | done
  | popped (bytes : Option (List UInt8))
  | word (n : ℕ)
  | moved (content : List UInt8)
  | chars (str : List UInt8)
  deriving DecidableEq

def step (s : Fdbuf) : Op → Option (Answer × Fdbuf)
  | .push_bytes buf => (s.push_bytes buf).map (.done, ·)
  | .push_uint32 l => (s.push_uint32 l).map (.done, ·)
  | .push_uint64 l => (s.push_uint64 l).map (.done, ·)
  | .pushString str => (s.pushString str).map (.done, ·)
  | .pushFdbuf fb max_size => (pushFdbuf fb max_size s).map (.done, ·)
  | .pop_bytes sz => some ((s.pop_bytes sz).map .popped id)
  | .pop_uint32 => some (s.pop_uint32.map .word id)
  | .pop_uint64 => some (s.pop_uint64.map .word id)
  | .pop_to_fdbuf fb to_write => (pop_to_fdbuf fb to_write s).map (.map (.moved ∘ content) id)
  | .cstr => s.cstr.map (.map .chars id)
  | .ensure new_capacity => (s.ensure new_capacity).map (.done, ·)
  | .clear => some (.done, s.clear)

def run (s : Fdbuf) : List Op → Option (List Answer × Fdbuf)
  | [] => some ([], s)
  | op :: ops => do
    let (answer, s) ← s.step op
    let (answers, s) ← s.run ops
    return (answer :: answers, s)

/-! ## The queue -/

def Op.pushed : Op → List UInt8
  | .push_bytes buf => buf
  | .push_uint32 l => wordBytes 4 l.toNat
  | .push_uint64 l => wordBytes 8 l.toNat
  | .pushString str => str
  | .pushFdbuf fb max_size => fb.content.take max_size.toNat
  | _ => []

/-- How many of the oldest bytes a call pops. A pop that asks for more than there are pops none. -/
def Op.taken (q : List UInt8) : Op → ℕ
  | .pop_bytes sz => if sz.toNat ≤ q.length then sz.toNat else 0
  | .pop_uint32 => if 4 ≤ q.length then 4 else 0
  | .pop_uint64 => if 8 ≤ q.length then 8 else 0
  | .pop_to_fdbuf _ to_write => min to_write.toNat q.length
  | .clear => q.length
  | _ => 0

def Op.spec (q : List UInt8) (op : Op) : List UInt8 := q.drop (op.taken q) ++ op.pushed

/-- What a call is to give back, from the oldest bytes of the queue. -/
def Op.answer (q : List UInt8) : Op → Answer
  | .pop_bytes sz => .popped (if sz.toNat ≤ q.length then some (q.take sz.toNat) else none)
  | .pop_uint32 => .word (if 4 ≤ q.length then wordOf (q.take 4) else 0)
  | .pop_uint64 => .word (if 8 ≤ q.length then wordOf (q.take 8) else 0)
  | .pop_to_fdbuf fb to_write => .moved (fb.content ++ q.take (min to_write.toNat q.length))
  | .cstr => .chars (q ++ [0])
  | _ => .done

def answers : List UInt8 → List Op → List Answer
  | _, [] => []
  | q, op :: ops => op.answer q :: answers (op.spec q) ops

def queue (q : List UInt8) (ops : List Op) : List UInt8 := ops.foldl Op.spec q

/-! ## Room -/

structure Wf (s : Fdbuf) : Prop where
  size : s.data.length = s.capacity.toNat
  held : s.start.toNat + s.len.toNat ≤ s.capacity.toNat

def aligned (n : ℕ) : ℕ := (n + 3) / 4 * 4

/-- A request for this much room copies the bytes held onto some of themselves: there is no need to
grow, the room behind `start` is too small, and `start` is below the number of bytes held. -/
def Overlaps (s : Fdbuf) (n : ℕ) : Prop :=
  aligned n ≤ s.capacity.toNat ∧ s.capacity.toNat < s.start.toNat + aligned n ∧
    s.start.toNat < s.len.toNat

instance (s : Fdbuf) (n : ℕ) : Decidable (s.Overlaps n) :=
  inferInstanceAs (Decidable (_ ∧ _ ∧ _))

variable {s : Fdbuf}

lemma toNat_align (x : UInt32) (h : x.toNat < 2 ^ 31) : (align x).toNat = aligned x.toNat := by
  have h3 : (3 : UInt32).toNat = 3 := rfl
  have hmask : (~~~3 : UInt32).toNat = (2 ^ 30 - 1) <<< 2 := rfl
  have hshift : aligned x.toNat = ((x.toNat + 3) >>> 2) <<< 2 := by
    rw [shiftLeft_eq, shiftRight_eq_div_pow]
    rfl
  unfold align
  rw [hshift, UInt32.toNat_and, toNat_add, hmask, mod_eq_of_lt (by omega)]
  apply eq_of_testBit_eq
  intro i
  rw [testBit_and, testBit_shiftLeft, testBit_two_pow_sub_one, testBit_shiftLeft,
    testBit_shiftRight]
  by_cases hi : 2 ≤ i
  · rw [Nat.add_sub_cancel' hi]
    by_cases hlt : i < 32
    · simp [hi, show i - 2 < 30 by omega]
    · have hbit : (x.toNat + 3).testBit i = false :=
        testBit_lt_two_pow (Nat.lt_of_lt_of_le (show x.toNat + 3 < 2 ^ 32 by omega)
          (Nat.pow_le_pow_right Nat.two_pos (Nat.not_lt.mp hlt)))
      simp [hbit]
  · simp [hi]

lemma Wf.length_content (h : s.Wf) : s.content.length = s.len.toNat :=
  length_slice (h.size ▸ h.held)

lemma le_toNat_new_size {n : UInt32} (hn : n.toNat ≤ 2 ^ 31) :
    n.toNat ≤ (new_size n).toNat := by
  have hinc : BUF_INCREMENT.toNat = 128 := rfl
  have hone : (1 : UInt32).toNat = 1 := rfl
  have hadd : (n + BUF_INCREMENT).toNat = n.toNat + 128 := by
    rw [toNat_add, hinc, mod_eq_of_lt (by omega)]
  have hsub : (n + BUF_INCREMENT - 1).toNat = n.toNat + 127 := by
    rw [toNat_sub_of_le _ _ (by rw [le_iff_toNat_le, hadd, hone]; omega), hadd, hone]
    rfl
  unfold new_size
  rw [UInt32.toNat_mul, UInt32.toNat_div, hsub, hinc]
  omega

lemma Wf.grow (h : s.Wf) {n : UInt32} (hroom : s.len.toNat ≤ (new_size n).toNat) :
    ∃ s', s.grow n = some s' ∧ s'.Wf ∧ s'.content = s.content ∧ s'.len = s.len ∧ s'.start = 0 ∧
      s'.capacity = new_size n := by
  have hlen := h.length_content
  unfold Fdbuf.grow
  generalize new_size n = size at hroom ⊢
  obtain ⟨mem, hmem, hmemlen, hslice, -⟩ := store_spec
    (replicate size.toNat (0 : UInt8)) 0 s.content
    (by rw [hlen, length_replicate]; omega)
  rw [length_replicate] at hmemlen
  rw [hlen] at hslice
  have hwf : ∀ mem', mem'.length = size.toNat → slice mem' 0 s.len.toNat = s.content →
      let s' : Fdbuf := { s with data := mem', capacity := size, start := 0 }
      s'.Wf ∧ s'.content = s.content ∧ s'.len = s.len ∧ s'.start = 0 ∧ s'.capacity = size := by
    intro mem' hlen' hslice'
    exact ⟨⟨hlen', by show 0 + s.len.toNat ≤ size.toNat; omega⟩, hslice', rfl, rfl, rfl⟩
  by_cases hsafe : s.safe
  · have hsub : (size - s.len).toNat = size.toNat - s.len.toNat :=
      toNat_sub_of_le _ _ (le_iff_toNat_le.mpr (by omega))
    obtain ⟨mem', hmem', hmemlen', -, hframe⟩ := store_spec mem s.len.toNat
      (replicate (size - s.len).toNat (0 : UInt8))
      (by rw [length_replicate, hsub, hmemlen]; omega)
    refine ⟨_, ?_, hwf mem' (hmemlen'.trans hmemlen) ?_⟩
    · simp [hmem, hsafe, hmem']
    · rw [hframe 0 s.len.toNat (Or.inl (Nat.zero_add _).le), hslice]
  · refine ⟨_, ?_, hwf mem hmemlen hslice⟩
    simp only [hmem, hsafe, Option.bind_eq_bind, Option.bind_some, Option.pure_def]
    rfl

/-- A copy to the start of the block leaves the bytes held as they are exactly if they repeat
themselves after `start` bytes. -/
lemma Wf.compact (h : s.Wf) :
    ∃ s', s.compact = some s' ∧ s'.Wf ∧ (s'.content = s.content ↔ Repeats s.start.toNat s.content) ∧
      s'.len = s.len ∧ s'.start = s.start ∧ s'.capacity = s.capacity := by
  have hlen := h.length_content
  have hheld := h.held
  obtain ⟨mem, hmem, hmemlen, -, -⟩ := store_spec s.data 0 s.content
    (by rw [hlen, h.size]; omega)
  refine ⟨{ s with data := mem }, ?_, ⟨hmemlen.trans h.size, h.held⟩, ?_, rfl, rfl, rfl⟩
  · unfold Fdbuf.compact
    rw [hmem]
    rfl
  · exact slice_store_slice (h.size ▸ h.held) hmem

/-- The bytes held do not fit the new block. -/
lemma Wf.grow_eq_none (h : s.Wf) {n : UInt32} (hroom : (new_size n).toNat < s.len.toNat) :
    s.grow n = none := by
  have hfull : store (replicate (new_size n).toNat (0 : UInt8)) 0 s.content = none := by
    apply if_neg
    rw [h.length_content, length_replicate]
    omega
  unfold Fdbuf.grow
  rw [hfull]
  rfl

lemma Wf.asserted (h : s.Wf) : (if s.capacity ≥ s.start + s.len then some s else none) = some s := by
  have hheld := h.held
  have hcap := s.capacity.toNat_lt
  rw [if_pos]
  rw [ge_iff_le, le_iff_toNat_le, toNat_add, mod_eq_of_lt (by omega)]
  exact hheld

lemma Wf.ensure_grows (h : s.Wf) {n : UInt32} (hgrow : s.capacity < align n)
    (hroom : s.len.toNat ≤ (new_size (align n)).toNat) :
    ∃ s', s.ensure n = some s' ∧ s'.Wf ∧ s'.content = s.content ∧ s'.len = s.len ∧ s'.start = 0 ∧
      s'.capacity = new_size (align n) := by
  obtain ⟨s₁, hs₁, hwf, hcontent, hlen, hstart, hcap⟩ := h.grow hroom
  unfold Fdbuf.ensure
  by_cases hshort : s₁.capacity - s₁.start < align n
  · -- a copy onto itself, where the size of the new block has wrapped around
    obtain ⟨s₂, hs₂, hwf₂, hcontent₂, hlen₂, hstart₂, hcap₂⟩ := hwf.compact
    refine ⟨s₂, by simp [hgrow, hs₁, hshort, hs₂, hwf₂.asserted], hwf₂, ?_, hlen₂.trans hlen,
      hstart₂.trans hstart, hcap₂.trans hcap⟩
    rw [hcontent₂.mpr, hcontent]
    rw [hstart]
    exact repeats_iff.mpr fun i _ => congrArg _ (Nat.zero_add i)
  · exact ⟨s₁, by simp [hgrow, hs₁, hshort, hwf.asserted], hwf, hcontent, hlen, hstart, hcap⟩

lemma Wf.ensure_stays (h : s.Wf) {n : UInt32} (hfits : align n ≤ s.capacity) :
    ∃ s', s.ensure n = some s' ∧ s'.Wf ∧ (s'.content = s.content ↔
        (s.capacity.toNat < s.start.toNat + (align n).toNat → Repeats s.start.toNat s.content)) ∧
      s'.len = s.len ∧ s'.start = s.start ∧ s'.capacity = s.capacity := by
  have hheld := h.held
  have hgrow : ¬ s.capacity < align n := UInt32.not_lt.mpr hfits
  have hsub : (s.capacity - s.start).toNat = s.capacity.toNat - s.start.toNat :=
    toNat_sub_of_le _ _ (le_iff_toNat_le.mpr (by omega))
  unfold Fdbuf.ensure
  by_cases hshort : s.capacity - s.start < align n
  · have hlt := lt_iff_toNat_lt.mp hshort
    obtain ⟨s₁, hs₁, hwf, hcontent, hlen, hstart, hsame⟩ := h.compact
    refine ⟨s₁, by simp [hgrow, hshort, hs₁, hwf.asserted], hwf, ?_, hlen, hstart, hsame⟩
    exact hcontent.trans ⟨fun hrep _ => hrep, fun hrep => hrep (by omega)⟩
  · refine ⟨s, by simp [hgrow, hshort, h.asserted], h, iff_of_true rfl fun hlt => ?_, rfl, rfl, rfl⟩
    rw [lt_iff_toNat_lt] at hshort
    omega

/-- **Room without harm.** A request that does not make the bytes held overwrite themselves leaves
the content as it is, and there is room. -/
lemma Wf.ensure (h : s.Wf) {n : UInt32} (hn : n.toNat < 2 ^ 31) (hclear : ¬ s.Overlaps n.toNat) :
    ∃ s', s.ensure n = some s' ∧ s'.Wf ∧ s'.content = s.content ∧ s'.len = s.len ∧
      s'.start.toNat ≤ s.start.toNat ∧ n.toNat ≤ s'.capacity.toNat := by
  have halign := toNat_align n hn
  have hle : n.toNat ≤ (align n).toNat ∧ (align n).toNat ≤ 2 ^ 31 := by
    rw [halign]
    unfold aligned
    omega
  by_cases hgrow : s.capacity < align n
  · have hlt := lt_iff_toNat_lt.mp hgrow
    have hsize := le_toNat_new_size hle.2
    have hheld := h.held
    obtain ⟨s', hs', hwf, hcontent, hlen, hstart, hcap⟩ := h.ensure_grows hgrow (by omega)
    exact ⟨s', hs', hwf, hcontent, hlen, by rw [hstart]; exact Nat.zero_le _, by rw [hcap]; omega⟩
  · have hfits := UInt32.not_lt.mp hgrow
    have hfits' := le_iff_toNat_le.mp hfits
    obtain ⟨s', hs', hwf, hcontent, hlen, hstart, hcap⟩ := h.ensure_stays hfits
    refine ⟨s', hs', hwf, hcontent.mpr fun hlow => ?_, hlen, by rw [hstart], by rw [hcap]; omega⟩
    -- bytes that lie apart from their copy repeat themselves for want of a second round
    by_cases hapart : s.len.toNat ≤ s.start.toNat
    · exact repeats_of_length_le (h.length_content.symm ▸ hapart)
    · exact absurd ⟨by omega, by omega, by omega⟩ hclear

lemma toNat_ofNat_small {n : ℕ} (h : n < 2 ^ 31) : (ofNat n).toNat = n := by
  rw [toNat_ofNat', mod_eq_of_lt (by omega)]

def additional (s : Fdbuf) (extra : ℕ) : ℕ := extra + s.len.toNat + s.start.toNat

lemma toNat_additional (extra : UInt32) (hsmall : s.additional extra.toNat < 2 ^ 31) :
    (extra + s.len + s.start).toNat = s.additional extra.toNat := by
  unfold additional at hsmall ⊢
  rw [toNat_add, toNat_add, mod_eq_of_lt (show extra.toNat + s.len.toNat < 2 ^ 32 by omega),
    mod_eq_of_lt (by omega)]

lemma Wf.ensure_additional (h : s.Wf) {extra : ℕ} (hsmall : s.additional extra < 2 ^ 31)
    (hclear : ¬ s.Overlaps (s.additional extra)) :
    ∃ s', s.ensure_additional (ofNat extra) = some s' ∧ s'.Wf ∧ s'.content = s.content ∧
      s'.len = s.len ∧ s'.start.toNat + s'.len.toNat + extra ≤ s'.capacity.toNat := by
  have hextra : (ofNat extra).toNat = extra := by
    unfold additional at hsmall
    exact toNat_ofNat_small (by omega)
  have hn := toNat_additional (ofNat extra) (hextra.symm ▸ hsmall)
  rw [hextra] at hn
  obtain ⟨s', hs', hwf, hcontent, hlen, hstart, hroom⟩ := h.ensure (hn ▸ hsmall) (hn ▸ hclear)
  refine ⟨s', hs', hwf, hcontent, hlen, ?_⟩
  rw [hlen]
  unfold additional at hn
  omega

lemma Wf.append (h : s.Wf) {buf : List UInt8} (hsmall : s.additional buf.length < 2 ^ 31)
    (hclear : ¬ s.Overlaps (s.additional buf.length)) :
    ∃ s', s.append buf = some s' ∧ s'.Wf ∧ s'.content = s.content ++ buf := by
  obtain ⟨s₁, hs₁, hwf, hcontent, hlen, hroom⟩ := h.ensure_additional hsmall hclear
  have hlen₁ : s₁.len.toNat = s.len.toNat := congrArg UInt32.toNat hlen
  obtain ⟨mem, hmem, hmemlen, hslice, hframe⟩ := store_spec s₁.data
    (s₁.start.toNat + s₁.len.toNat) buf (by rw [hwf.size]; omega)
  have hsum : (s₁.len + ofNat buf.length).toNat = s₁.len.toNat + buf.length := by
    unfold additional at hsmall
    rw [toNat_add, toNat_ofNat_small (by omega), mod_eq_of_lt (by omega)]
  refine ⟨{ s₁ with data := mem, len := s₁.len + ofNat buf.length }, ?_, ⟨?_, ?_⟩, ?_⟩
  · unfold Fdbuf.append
    simp [hs₁, hmem]
  · exact hmemlen.trans hwf.size
  · show s₁.start.toNat + (s₁.len + ofNat buf.length).toNat ≤ s₁.capacity.toNat
    omega
  · show slice mem s₁.start.toNat (s₁.len + ofNat buf.length).toNat = s.content ++ buf
    rw [hsum, slice_add, hslice, hframe _ _ (Or.inl le_rfl), ← hcontent]
    rfl

lemma Wf.take (h : s.Wf) {sz : UInt32} (hsz : sz.toNat ≤ s.len.toNat) :
    (s.take sz).Wf ∧ (s.take sz).content = s.content.drop sz.toNat ∧
      slice s.data s.start.toNat sz.toNat = s.content.take sz.toNat := by
  have hheld := h.held
  have hcap := s.capacity.toNat_lt
  have hsub : (s.len - sz).toNat = s.len.toNat - sz.toNat :=
    toNat_sub_of_le _ _ (le_iff_toNat_le.mpr hsz)
  have hadd : (s.start + sz).toNat = s.start.toNat + sz.toNat := by
    rw [toNat_add, mod_eq_of_lt (by omega)]
  refine ⟨⟨h.size, ?_⟩, ?_, (take_slice _ _ hsz).symm⟩
  · show (s.start + sz).toNat + (s.len - sz).toNat ≤ s.capacity.toNat
    omega
  · show slice s.data (s.start + sz).toNat (s.len - sz).toNat = _
    unfold content
    rw [drop_slice, hadd, hsub]

/-! ## Calls -/

/-- A request for room that is within the size of buffers and does not copy the bytes held onto
themselves. -/
def Fits (s : Fdbuf) (n : ℕ) : Prop := n < 2 ^ 31 ∧ ¬ s.Overlaps n

instance (s : Fdbuf) (n : ℕ) : Decidable (s.Fits n) := inferInstanceAs (Decidable (_ ∧ _))

/-- The requests for room a call makes fit, those on another buffer included. Calls that make none
are never restricted. -/
def Op.Fits (s : Fdbuf) : Op → Prop
  | .pop_to_fdbuf fb to_write =>
    fb.Wf ∧ fb.Fits (fb.additional (min to_write.toNat s.len.toNat))
  | .cstr => s.Fits (s.additional 1)
  | .ensure new_capacity => s.Fits new_capacity.toNat
  | .push_bytes buf => s.Fits (s.additional buf.length)
  | .push_uint32 _ => s.Fits (s.additional 4)
  | .push_uint64 _ => s.Fits (s.additional 8)
  | .pushString str => s.Fits (s.additional str.length)
  | .pushFdbuf fb max_size => s.Fits (s.additional (fb.content.take max_size.toNat).length)
  | _ => True

/-- All calls of a run fit. -/
def FitsRun (s : Fdbuf) (ops : List Op) : Prop :=
  Permitted (fun s op => (s.step op).map Prod.snd) (fun s op => op.Fits s) s ops

instance (s : Fdbuf) : Decidable s.Wf :=
  decidable_of_iff (s.data.length = s.capacity.toNat ∧ s.start.toNat + s.len.toNat ≤ s.capacity.toNat)
    ⟨fun h => ⟨h.1, h.2⟩, fun h => ⟨h.size, h.held⟩⟩

instance (s : Fdbuf) : (op : Op) → Decidable (op.Fits s)
  | .pop_to_fdbuf _ _ => inferInstanceAs (Decidable (_ ∧ _))
  | .cstr => inferInstanceAs (Decidable (s.Fits _))
  | .ensure _ => inferInstanceAs (Decidable (s.Fits _))
  | .push_bytes _ => inferInstanceAs (Decidable (s.Fits _))
  | .push_uint32 _ => inferInstanceAs (Decidable (s.Fits _))
  | .push_uint64 _ => inferInstanceAs (Decidable (s.Fits _))
  | .pushString _ => inferInstanceAs (Decidable (s.Fits _))
  | .pushFdbuf _ _ => inferInstanceAs (Decidable (s.Fits _))
  | .pop_bytes _ | .pop_uint32 | .pop_uint64 | .clear => inferInstanceAs (Decidable True)

instance (s : Fdbuf) (ops : List Op) : Decidable (s.FitsRun ops) :=
  inferInstanceAs (Decidable (Permitted _ _ s ops))

lemma length_wordBytes (size n : ℕ) : (wordBytes size n).length = size := by
  unfold wordBytes
  rw [length_map, length_range]

lemma pushFdbuf_eq (fb : Fdbuf) (max_size : UInt32) (s : Fdbuf) :
    pushFdbuf fb max_size s = s.append (fb.content.take max_size.toNat) := by
  unfold pushFdbuf push_bytes content
  rw [toNat_min, slice, slice, take_take, min_comm]

lemma Wf.pop (h : s.Wf) (sz : UInt32) :
    (s.pop_bytes sz).2.Wf ∧ (s.pop_bytes sz).2.content = (Op.pop_bytes sz).spec s.content ∧
      (s.pop_bytes sz).1 =
        if sz.toNat ≤ s.content.length then some (s.content.take sz.toNat) else none := by
  unfold pop_bytes Op.spec Op.taken Op.pushed
  rw [h.length_content, append_nil]
  simp only [ge_iff_le, le_iff_toNat_le]
  by_cases hsz : sz.toNat ≤ s.len.toNat
  · obtain ⟨hwf, hcontent, hslice⟩ := h.take hsz
    simp only [hsz, if_true]
    exact ⟨hwf, hcontent, congrArg some hslice⟩
  · simp only [hsz, if_false]
    exact ⟨h, rfl, trivial⟩

lemma pop_word_eq (sz : UInt32) (s : Fdbuf) :
    s.pop_word sz = (((s.pop_bytes sz).1.map wordOf).getD 0, (s.pop_bytes sz).2) := by
  unfold pop_word pop_bytes
  by_cases hsz : s.len ≥ sz
  · simp [hsz]
  · simp [hsz]

lemma Wf.pop_word (h : s.Wf) (sz : UInt32) :
    (s.pop_word sz).2.Wf ∧ (s.pop_word sz).2.content = (Op.pop_bytes sz).spec s.content ∧
      (s.pop_word sz).1 =
        if sz.toNat ≤ s.content.length then wordOf (s.content.take sz.toNat) else 0 := by
  obtain ⟨hwf, hcontent, hpopped⟩ := h.pop sz
  rw [pop_word_eq]
  refine ⟨hwf, hcontent, ?_⟩
  rw [hpopped]
  split_ifs <;> rfl

/-- What a call does to a buffer: the queue moves on and answers. -/
def Answers (s : Fdbuf) (op : Op) : Prop :=
  ∃ s', s.step op = some (op.answer s.content, s') ∧ s'.Wf ∧ s'.content = op.spec s.content

lemma Wf.answers_push (h : s.Wf) {op : Op} {buf : List UInt8}
    (hstep : s.step op = (s.append buf).map (.done, ·)) (hanswer : op.answer s.content = .done)
    (hspec : op.spec s.content = s.content ++ buf) (hfits : s.Fits (s.additional buf.length)) :
    s.Answers op := by
  obtain ⟨s', hs', hwf, hcontent⟩ := h.append hfits.1 hfits.2
  refine ⟨s', ?_, hwf, hcontent.trans hspec.symm⟩
  rw [hstep, hs', hanswer]
  rfl

lemma Wf.answers_cstr (h : s.Wf) (hfits : s.Fits (s.additional 1)) : s.Answers .cstr := by
  obtain ⟨s', hs', hwf, hcontent, hlen, hroom⟩ := h.ensure_additional hfits.1 hfits.2
  have hcap := s'.capacity.toNat_lt
  have hend : (s'.len + s'.start).toNat = s'.start.toNat + s'.len.toNat := by
    rw [toNat_add, mod_eq_of_lt (by omega), Nat.add_comm]
  obtain ⟨mem, hmem, hmemlen, hslice, hframe⟩ := store_spec s'.data
    (s'.start.toNat + s'.len.toNat) [(0 : UInt8)] (by rw [hwf.size]; exact hroom)
  have hkept : slice mem s'.start.toNat s'.len.toNat = s.content :=
    (hframe _ _ (Or.inl le_rfl)).trans hcontent
  refine ⟨{ s' with data := mem }, ?_, ⟨hmemlen.trans hwf.size, hwf.held⟩, ?_⟩
  · have hs'' : s.ensure_additional 1 = some s' := hs'
    show s.cstr.map _ = _
    unfold Fdbuf.cstr
    simp only [hs'', Option.bind_eq_bind, Option.bind_some, hend, hmem, Option.pure_def]
    rw [slice_add, hkept]
    show some (Answer.chars (s.content ++ slice mem _ [(0 : UInt8)].length), _) = _
    rw [hslice]
    rfl
  · show slice mem s'.start.toNat s'.len.toNat = s.content.drop 0 ++ []
    rw [hkept, drop_zero, append_nil]

lemma Wf.answers_pop_to_fdbuf (h : s.Wf) {fb : Fdbuf} {to_write : UInt32} (hfb : fb.Wf)
    (hfits : fb.Fits (fb.additional (min to_write.toNat s.len.toNat))) :
    s.Answers (.pop_to_fdbuf fb to_write) := by
  have hmin : (min to_write s.len).toNat = min to_write.toNat s.len.toNat := toNat_min _ _
  obtain ⟨hwf, hcontent, -⟩ := h.take (show (min to_write s.len).toNat ≤ s.len.toNat by omega)
  have hlen : (s.content.take (min to_write.toNat s.len.toNat)).length =
      min to_write.toNat s.len.toNat := by
    rw [length_take, h.length_content]
    omega
  obtain ⟨fb', hfb', -, hmoved⟩ := hfb.append (hlen.symm ▸ hfits.1) (hlen.symm ▸ hfits.2)
  refine ⟨s.take (min to_write s.len), ?_, hwf, ?_⟩
  · show (pop_to_fdbuf fb to_write s).map _ = _
    unfold pop_to_fdbuf
    simp only [pushFdbuf_eq, hmin, hfb', Option.bind_eq_bind, Option.bind_some, Option.pure_def,
      Option.map_some, Prod.map_apply, Function.comp_apply, id_eq, hmoved]
    rw [← h.length_content]
    rfl
  · show _ = s.content.drop (min to_write.toNat s.content.length) ++ []
    rw [hcontent, hmin, h.length_content, append_nil]

lemma Wf.answers_step (h : s.Wf) {op : Op} (hfits : op.Fits s) : s.Answers op := by
  have hsame : s.content = s.content.drop 0 ++ [] := by rw [drop_zero, append_nil]
  cases op with
  | push_bytes buf => exact h.answers_push rfl rfl rfl hfits
  | push_uint32 l =>
    exact h.answers_push rfl rfl rfl (by rw [length_wordBytes]; exact hfits)
  | push_uint64 l =>
    exact h.answers_push rfl rfl rfl (by rw [length_wordBytes]; exact hfits)
  | pushString str => exact h.answers_push rfl rfl rfl hfits
  | pushFdbuf fb max_size =>
    exact h.answers_push (congrArg (Option.map (Answer.done, ·)) (pushFdbuf_eq fb max_size s)) rfl rfl hfits
  | pop_bytes sz =>
    obtain ⟨hwf, hcontent, hpopped⟩ := h.pop sz
    exact ⟨_, congrArg (fun b => some (Answer.popped b, (s.pop_bytes sz).2)) hpopped, hwf, hcontent⟩
  | pop_uint32 =>
    obtain ⟨hwf, hcontent, hword⟩ := h.pop_word 4
    exact ⟨_, congrArg (fun n => some (Answer.word n, s.pop_uint32.2)) hword, hwf, hcontent⟩
  | pop_uint64 =>
    obtain ⟨hwf, hcontent, hword⟩ := h.pop_word 8
    exact ⟨_, congrArg (fun n => some (Answer.word n, s.pop_uint64.2)) hword, hwf, hcontent⟩
  | pop_to_fdbuf fb to_write => exact h.answers_pop_to_fdbuf hfits.1 hfits.2
  | cstr => exact h.answers_cstr hfits
  | ensure n =>
    obtain ⟨s', hs', hwf, hcontent, -⟩ := h.ensure hfits.1 hfits.2
    refine ⟨s', ?_, hwf, hcontent.trans hsame⟩
    show (s.ensure n).map _ = _
    rw [hs']
    rfl
  | clear =>
    refine ⟨s.clear, rfl, ⟨h.size, Nat.zero_le _⟩, ?_⟩
    show slice s.data 0 0 = s.content.drop s.content.length ++ []
    rw [drop_length]
    rfl

/-! ## Runs -/

def removed : List UInt8 → List Op → List UInt8
  | _, [] => []
  | q, op :: ops => q.take (op.taken q) ++ removed (op.spec q) ops

lemma removed_append_queue (q : List UInt8) (ops : List Op) :
    removed q ops ++ queue q ops = q ++ ops.flatMap Op.pushed := by
  induction ops generalizing q with
  | nil => exact (append_nil q).symm
  | cons op ops ih =>
    show (q.take (op.taken q) ++ removed (op.spec q) ops) ++ queue (op.spec q) ops = _
    rw [append_assoc, ih, flatMap_cons]
    unfold Op.spec
    rw [append_assoc, ← append_assoc, take_append_drop]

lemma Wf.content_run (h : s.Wf) {ops : List Op} (hfits : s.FitsRun ops) :
    ∃ s', s.run ops = some (answers s.content ops, s') ∧ s'.Wf ∧
      s'.content = queue s.content ops := by
  induction ops generalizing s with
  | nil => exact ⟨s, rfl, h, rfl⟩
  | cons op ops ih =>
    obtain ⟨s₁, hstep, hwf, hcontent⟩ := h.answers_step hfits.1
    obtain ⟨s₂, hrun, hwf₂, hcontent₂⟩ := ih hwf (hfits.2 s₁ (congrArg (Option.map Prod.snd) hstep))
    rw [hcontent] at hrun hcontent₂
    refine ⟨s₂, ?_, hwf₂, hcontent₂⟩
    unfold run
    simp only [hstep, hrun, Option.bind_eq_bind, Option.bind_some, Option.pure_def]
    rfl

lemma wf_mk' (init_capacity : Int32) (is_safe : Bool) :
    (mk' init_capacity is_safe).Wf ∧ (mk' init_capacity is_safe).content = [] :=
  ⟨⟨length_replicate, Nat.zero_le _⟩, rfl⟩

/-- **A buffer is a byte queue.** In a run from a new buffer in which no request for room makes the
bytes held overwrite themselves, after any number of calls: the calls returned, each with the answer
of the queue; the content is the queue; what was popped followed by the content is what was pushed.
Hyps: the requests for room stay below `2 ^ 31` bytes; no request needs room behind `start` that the
block has only at its front while fewer bytes lie before `start` than are held -/
theorem byte_queue (init_capacity : Int32) (is_safe : Bool) (ops more : List Op)
    (h : (mk' init_capacity is_safe).FitsRun (ops ++ more)) :
    ∃ s, (mk' init_capacity is_safe).run ops = some (answers [] ops, s) ∧
      s.content = queue [] ops ∧ removed [] ops ++ s.content = ops.flatMap Op.pushed := by
  obtain ⟨hwf, hempty⟩ := wf_mk' init_capacity is_safe
  obtain ⟨s, hrun, -, hcontent⟩ := hwf.content_run (Permitted.of_append h)
  refine ⟨s, hrun, hcontent, ?_⟩
  rw [hcontent]
  exact removed_append_queue [] ops

/-- The calls of a run with growth, a compaction and both kinds of pops. -/
def sampleOps : List Op :=
  [.push_bytes [1, 2, 3, 4, 5, 6, 7, 8, 9, 10], .pop_bytes 8, .cstr, .push_uint32 0x01020304,
    .pop_to_fdbuf (mk' 0 true) 3, .pop_uint32, .ensure 200, .pop_bytes 1, .clear,
    .pushString [7, 8]]

theorem byte_queue_sampleOps :
    (mk' 12 false).FitsRun (sampleOps ++ []) ∧
      ∃ s, (mk' 12 false).run sampleOps = some (answers [] sampleOps, s) ∧
        s.content = queue [] sampleOps ∧
          removed [] sampleOps ++ s.content = sampleOps.flatMap Op.pushed := by
  have hfits : (mk' 12 false).FitsRun (sampleOps ++ []) := by decide +kernel
  exact ⟨hfits, byte_queue 12 false sampleOps [] hfits⟩

/-- Twelve bytes are pushed, four popped, and `cstr` asks for room: four of the eight bytes held are
gone, and so they are for the pop that follows. All requests are below `2 ^ 31`. -/
theorem cstr_loses_bytes :
    ∃ answers s, (mk' 16 false).run [.push_bytes [1, 2, 3, 4, 5, 6, 7, 8, 9, 10, 11, 12],
        .pop_bytes 4, .cstr] = some (answers, s) ∧
      s.content = [9, 10, 11, 12, 9, 10, 11, 12] ∧
      queue [] [.push_bytes [1, 2, 3, 4, 5, 6, 7, 8, 9, 10, 11, 12], .pop_bytes 4, .cstr] =
        [5, 6, 7, 8, 9, 10, 11, 12] ∧
      (s.pop_bytes 2).1 = some [9, 10] := by
  refine ⟨_, _, rfl, ?_, ?_, ?_⟩ <;> decide +kernel

end Fdbuf

end P2.Net
