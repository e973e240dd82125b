import Mathlib.Algebra.Ring.Nat
import Mathlib.Tactic.Common

/-!
# External data representation

The primitive encodings of the C library's `xdr_*` routines over a stream of bytes: 32- and 64-bit
words, byte arrays padded to a multiple of four, counted strings. A decoder is a reader of a
prefix of the stream; `none` is a read past the end of the buffer.

* `reads_word`, `reads_hyper`, `reads_bytes` — decoding undoes encoding for the primitives.
-/

namespace P2.Lib.Xdr

open UInt32 List

/-! ## Readers -/

/-- A decoder: takes bytes off the front of the stream. -/
abbrev Reader (α : Type) := StateT (List UInt8) Option α

/-- The reader consumes exactly `bs` and yields `a`, whatever follows in the stream. -/
def Reads {α : Type} (r : Reader α) (bs : List UInt8) (a : α) : Prop :=
  ∀ rest, r.run (bs ++ rest) = some (a, rest)

section readers

variable {α β : Type}

lemma Reads.pure (a : α) : Reads (Pure.pure a : Reader α) [] a := fun _ => rfl

lemma Reads.bind {r : Reader α} {f : α → Reader β} {bs cs : List UInt8} {a : α} {b : β}
    (hr : Reads r bs a) (hf : Reads (f a) cs b) : Reads (r >>= f) (bs ++ cs) b := by
  intro rest
  rw [append_assoc, StateT.run_bind, hr]
  exact hf rest

lemma Reads.andPure {r : Reader α} {bs : List UInt8} {a : α} (hr : Reads r bs a) (f : α → β) :
    Reads (r >>= fun x => Pure.pure (f x)) bs (f a) := by
  intro rest
  rw [StateT.run_bind, hr]
  rfl

def repeated (r : Reader α) : ℕ → Reader (List α)
  | 0 => Pure.pure []
  | n + 1 => do
    let a ← r
    let as ← repeated r n
    Pure.pure (a :: as)

lemma Reads.repeated {r : Reader β} {enc : α → List UInt8} {f : α → β} {as : List α}
    (h : ∀ a ∈ as, Reads r (enc a) (f a)) :
    Reads (repeated r as.length) (as.flatMap enc) (as.map f) := by
  induction as with
  | nil => exact Reads.pure []
  | cons a as ih =>
    have ha := h a mem_cons_self
    have has := ih fun b hb => h b (mem_cons_of_mem a hb)
    rw [flatMap_cons]
    exact ha.bind (has.andPure _)

lemma Reads.unique {r : Reader α} {bs : List UInt8} {a b : α} (ha : Reads r bs a)
    (hb : Reads r bs b) : a = b := by
  have h := (ha []).symm.trans (hb [])
  cases h
  rfl

end readers

/-! ## Words -/

/-- `xdr_uint32_t`: four bytes, most significant first. -/
def putWord (w : UInt32) : List UInt8 :=
  [UInt8.ofNat (w.toNat / 2 ^ 24), UInt8.ofNat (w.toNat / 2 ^ 16), UInt8.ofNat (w.toNat / 2 ^ 8),
    UInt8.ofNat w.toNat]

def getWord : Reader UInt32
  | a :: b :: c :: d :: rest =>
    some (UInt32.ofNat (a.toNat * 2 ^ 24 + b.toNat * 2 ^ 16 + c.toNat * 2 ^ 8 + d.toNat), rest)
  | _ => none

lemma reads_word (w : UInt32) : Reads getWord (putWord w) w := by
  intro rest
  have hw := w.toNat_lt
  have hval : ofNat ((UInt8.ofNat (w.toNat / 2 ^ 24)).toNat * 2 ^ 24 +
      (UInt8.ofNat (w.toNat / 2 ^ 16)).toNat * 2 ^ 16 +
      (UInt8.ofNat (w.toNat / 2 ^ 8)).toNat * 2 ^ 8 + (UInt8.ofNat w.toNat).toNat) = w := by
    rw [← UInt32.toNat_inj]
    simp only [UInt8.toNat_ofNat', toNat_ofNat']
    omega
  change some (_, rest) = some (w, rest)
  rw [hval]

/-- `xdr_uint64_t`: the high word, then the low word. -/
def putHyper (w : UInt64) : List UInt8 :=
  putWord (UInt32.ofNat (w.toNat / 2 ^ 32)) ++ putWord (UInt32.ofNat w.toNat)

def getHyper : Reader UInt64 := do
  let hi ← getWord
  let lo ← getWord
  Pure.pure (UInt64.ofNat (hi.toNat * 2 ^ 32 + lo.toNat))

lemma reads_hyper (w : UInt64) : Reads getHyper (putHyper w) w := by
  have hw := w.toNat_lt
  have hval : UInt64.ofNat ((ofNat (w.toNat / 2 ^ 32)).toNat * 2 ^ 32 +
      (ofNat w.toNat).toNat) = w := by
    rw [← UInt64.toNat_inj]
    simp only [toNat_ofNat', UInt64.toNat_ofNat']
    omega
  have h : Reads getHyper (putHyper w) (UInt64.ofNat ((ofNat (w.toNat / 2 ^ 32)).toNat *
      2 ^ 32 + (ofNat w.toNat).toNat)) :=
    (reads_word _).bind ((reads_word _).andPure _)
  rwa [hval] at h

/-! ## Byte arrays and strings -/

/-- The number of zero bytes after a byte array. -/
def padding (n : ℕ) : ℕ := (4 - n % 4) % 4

/-- `xdr_opaque`: the bytes, padded with zeros to a multiple of four. -/
def putBytes (bs : List UInt8) : List UInt8 := bs ++ List.replicate (padding bs.length) 0

def getBytes (n : ℕ) : Reader (List UInt8) := fun s =>
  if n + padding n ≤ s.length then some (s.take n, s.drop (n + padding n)) else none

lemma reads_bytes (bs : List UInt8) : Reads (getBytes bs.length) (putBytes bs) bs := by
  intro rest
  have hlen : (putBytes bs).length = bs.length + padding bs.length := by simp [putBytes]
  change (if _ then _ else _) = _
  rw [if_pos (by rw [length_append, hlen]; omega), drop_left' hlen, putBytes,
    append_assoc, take_left' rfl]

end P2.Lib.Xdr
