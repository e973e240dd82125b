import P2.Value.Cast
import P2.Value.Marshal

/-!
# Fragmentation

`Frag::fragment` cuts the marshalled payload of a tuple into blocks, and sends each block behind
the header fields of the tuple.

Tuples are lists of fields here: identifiers and the frozen flag of the outer tuple are read by
neither element.
-/

namespace P2.Net

open P2.Value List Nat Int64

def SRC : ℕ := 1

def CUMSEQ : ℕ := 6

/-- Position of the sequence number, the last field of the header. -/
def SEQ : ℕ := 7

/-- `Val_Int64::cast((*t)[i])`; `none` where the subscript or the cast throws. -/
def int64At (i : ℕ) (t : List Value) : Option Int64 := t[i]?.bind castInt64

def seqNum (t : List Value) : UInt64 := ((int64At SEQ t).getD 0).toUInt64

def toUnsigned (i : Int64) : UInt32 := i.toUInt64.toUInt32

namespace Frag

/-- The loop `for (bn = 0; payload_fb->length(); bn++)` with `pop_to_fdbuf`: the blocks, in order.
Each round takes at least one byte out, so the length bounds the rounds. -/
def blocks (blockSize : ℕ) : ℕ → List UInt8 → List (List UInt8)
  | 0, _ => []
  | _ + 1, [] => []
  | fuel + 1, fb => fb.take blockSize :: blocks blockSize fuel (fb.drop blockSize)

/-- `ceil(length / block_size_)`. The quotient of two numbers below `2 ^ 32` is further from the
next integer than the rounding of a double. -/
def numChunks (blockSize length : ℕ) : ℕ := (length + blockSize - 1) / blockSize

/-- One fragment: everything up to and including the sequence number, the block number, the total
and the payload. -/
def fragmentOf (t : List Value) (chunks : ℕ) (fb : List UInt8) (bn : ℕ) : List Value :=
  t.take (SEQ + 1) ++ [.int64 (Int64.ofNat bn), .int64 (Int64.ofNat chunks), .opaqueBuf fb]

/-- `Frag::fragment`: what it appends to `fragments_`; `none` where a header field is missing or the
payload does not marshal. -/
def fragment (blockSize : ℕ) (t : List Value) : Option (List (List Value)) := do
  guard (SEQ < t.length)
  let fb ← Tuple.xdrMarshal ⟨0, t.drop (SEQ + 1), true⟩
  let chunks := numChunks blockSize fb.length
  pure ((blocks blockSize fb.length fb).zipIdx.map fun b => fragmentOf t chunks b.1 b.2)

/-! ## The pieces -/

def bytes (t : List Value) : List UInt8 :=
  (Tuple.xdrMarshal ⟨0, t.drop (SEQ + 1), true⟩).getD []

def chunkCount (blockSize : ℕ) (t : List Value) : ℕ := numChunks blockSize (bytes t).length

def block (blockSize : ℕ) (t : List Value) (bn : ℕ) : List UInt8 :=
  ((bytes t).drop (bn * blockSize)).take blockSize

def piece (blockSize : ℕ) (t : List Value) (bn : ℕ) : List Value :=
  fragmentOf t (chunkCount blockSize t) (block blockSize t bn) bn

def pieces (blockSize : ℕ) (t : List Value) : List (List Value) :=
  (List.range (chunkCount blockSize t)).map (piece blockSize t)

/-- A tuple that `Frag` can send: it has a sequence number, and its payload marshals into a buffer
of a 32-bit length that the decoder takes back to equal fields. -/
structure Sendable (t : List Value) : Prop where
  seq : (int64At SEQ t).isSome
  marshals : (Tuple.xdrMarshal ⟨0, t.drop (SEQ + 1), true⟩).isSome
  length_lt : (bytes t).length < 2 ^ 32
  decodes : ∃ u rest, (Tuple.xdrUnmarshal 0).run (bytes t) = some (u, rest) ∧
    List.Forall₂ (fun a b => compareTo a b = .eq) (t.drop (SEQ + 1)) u.fields

variable {blockSize : ℕ} {t : List Value}

lemma Sendable.lt_length (ht : Sendable t) : SEQ < t.length := by
  by_contra hge
  have hseq := ht.seq
  unfold int64At at hseq
  rw [List.getElem?_eq_none (Nat.not_lt.mp hge)] at hseq
  exact Bool.false_ne_true hseq

lemma numChunks_add_block (hbs : 0 < blockSize) {n : ℕ} (hn : 0 < n) :
    numChunks blockSize n = numChunks blockSize (n - blockSize) + 1 := by
  unfold numChunks
  rcases Nat.lt_or_ge n blockSize with hlt | hge
  · have hone : (n + blockSize - 1) / blockSize = 1 := Nat.div_eq_of_lt_le (by omega) (by omega)
    have hzero : (0 + blockSize - 1) / blockSize = 0 := div_eq_of_lt (by omega)
    rw [Nat.sub_eq_zero_of_le hlt.le, hone, hzero]
  · rw [show n + blockSize - 1 = (n - blockSize + blockSize - 1) + blockSize by omega,
      add_div_right _ hbs]

lemma blocks_eq_map (hbs : 0 < blockSize) (fuel : ℕ) (fb : List UInt8) (h : fb.length ≤ fuel) :
    blocks blockSize fuel fb = (range (numChunks blockSize fb.length)).map fun bn =>
      (fb.drop (bn * blockSize)).take blockSize := by
  induction fuel generalizing fb with
  | zero =>
    rw [length_eq_zero_iff.mp (Nat.le_zero.mp h)]
    simp [blocks, numChunks, div_eq_of_lt (sub_lt hbs one_pos)]
  | succ fuel ih =>
    rcases fb with _ | ⟨c, fb⟩
    · simp [blocks, numChunks, div_eq_of_lt (sub_lt hbs one_pos)]
    · have hlen : ((c :: fb).drop blockSize).length ≤ fuel := by
        simp only [length_drop, length_cons] at h ⊢
        omega
      rw [blocks, ih _ hlen, numChunks_add_block (n := (c :: fb).length) hbs (by simp),
        range_succ_eq_map, map_cons, map_map]
      · simp [succ_mul, Nat.add_comm]
      · exact cons_ne_nil _ _

lemma flatten_blocks (hbs : 0 < blockSize) (fuel : ℕ) (fb : List UInt8) (h : fb.length ≤ fuel) :
    (blocks blockSize fuel fb).flatten = fb := by
  induction fuel generalizing fb with
  | zero => rw [length_eq_zero_iff.mp (Nat.le_zero.mp h)]; rfl
  | succ fuel ih =>
    rcases fb with _ | ⟨c, fb⟩
    · rfl
    · rw [blocks, flatten_cons, ih, take_append_drop]
      · simp only [length_drop, length_cons] at h ⊢
        omega
      · exact cons_ne_nil _ _

lemma fragment_eq_pieces (hbs : 0 < blockSize) (ht : Sendable t) :
    fragment blockSize t = some (pieces blockSize t) := by
  have hlen := ht.lt_length
  obtain ⟨fb, hfb⟩ := Option.isSome_iff_exists.mp ht.marshals
  have hbytes : bytes t = fb := by rw [bytes, hfb, Option.getD_some]
  have hblocks : ∀ (n : ℕ) (g : ℕ → List UInt8),
      ((range n).map g).zipIdx = (range n).map fun bn => (g bn, bn) := by
    intro n g
    apply ext_getElem
    · simp
    · simp
  unfold fragment pieces
  simp only [hlen, guard_true, hfb, Option.bind_eq_bind, Option.bind_some,
    blocks_eq_map hbs _ _ le_rfl, hblocks, map_map]
  unfold piece chunkCount block
  rw [hbytes]
  rfl

lemma flatMap_block (hbs : 0 < blockSize) (t : List Value) :
    (range (chunkCount blockSize t)).flatMap (block blockSize t) = bytes t := by
  have h := flatten_blocks hbs _ (bytes t) le_rfl
  rw [blocks_eq_map hbs _ _ le_rfl] at h
  rwa [flatMap_def]

lemma chunkCount_pos (hbs : 0 < blockSize) (ht : Sendable t) : 0 < chunkCount blockSize t := by
  obtain ⟨fb, hfb⟩ := Option.isSome_iff_exists.mp ht.marshals
  have hbytes : bytes t = fb := by rw [bytes, hfb, Option.getD_some]
  have hpos : 0 < fb.length := by
    unfold Tuple.xdrMarshal at hfb
    split at hfb
    · rw [← Option.some.inj hfb]
      simp [putSize, Lib.Xdr.putWord]
    · cases hfb
  unfold chunkCount
  rw [hbytes, numChunks_add_block hbs hpos]
  exact succ_pos _

lemma chunkCount_lt (hbs : 0 < blockSize) (ht : Sendable t) :
    chunkCount blockSize t < 2 ^ 32 := by
  have hlt := ht.length_lt
  have hle : chunkCount blockSize t ≤ (bytes t).length := by
    unfold chunkCount numChunks
    rcases Nat.eq_zero_or_pos (bytes t).length with h | h
    · rw [h, div_eq_of_lt (by omega)]
    · rw [div_le_iff_le_mul_add_pred hbs]
      have := Nat.le_mul_of_pos_left (bytes t).length hbs
      omega
  omega

/-! ## Reading a fragment -/

def offsetOf (p : List Value) : UInt32 := toUnsigned ((int64At (SEQ + 1) p).getD 0)

def chunksOf (p : List Value) : UInt32 := toUnsigned ((int64At (SEQ + 2) p).getD 0)

lemma toNat_toUnsigned_ofNat {n : ℕ} (h : n < 2 ^ 32) :
    (toUnsigned (ofNat n)).toNat = n := by
  unfold toUnsigned
  rw [UInt64.toNat_toUInt32]
  have hn : (ofNat n).toUInt64.toNat = n := by
    show (UInt64.ofNat n).toNat = n
    rw [UInt64.toNat_ofNat', mod_eq_of_lt (by omega)]
  rw [hn, mod_eq_of_lt h]

section Fields

variable (ht : Sendable t) (bn : ℕ)

include ht

lemma length_take_header : (t.take (SEQ + 1)).length = SEQ + 1 := by
  rw [length_take, Nat.min_eq_left ht.lt_length]

lemma int64At_seq_piece : int64At SEQ (piece blockSize t bn) = int64At SEQ t := by
  unfold int64At piece fragmentOf
  rw [List.getElem?_append_left (by rw [length_take_header ht]; exact lt_succ_self _),
    List.getElem?_take_of_lt (lt_succ_self _)]

lemma getElem?_piece (i : ℕ) : (piece blockSize t bn)[SEQ + 1 + i]? =
    [Value.int64 (ofNat bn), .int64 (ofNat (chunkCount blockSize t)),
      .opaqueBuf (block blockSize t bn)][i]? := by
  unfold piece fragmentOf
  rw [List.getElem?_append_right (by rw [length_take_header ht]; exact Nat.le_add_right _ _),
    length_take_header ht, Nat.add_sub_cancel_left]

lemma int64At_offset_piece :
    int64At (SEQ + 1) (piece blockSize t bn) = some (ofNat bn) := by
  unfold int64At
  rw [show SEQ + 1 = SEQ + 1 + 0 from rfl, getElem?_piece ht]
  rfl

lemma int64At_chunks_piece : int64At (SEQ + 2) (piece blockSize t bn) =
    some (ofNat (chunkCount blockSize t)) := by
  unfold int64At
  rw [show SEQ + 2 = SEQ + 1 + 1 from rfl, getElem?_piece ht]
  rfl

lemma castOpaque_piece :
    (piece blockSize t bn)[SEQ + 3]?.bind castOpaque = some (block blockSize t bn) := by
  rw [show SEQ + 3 = SEQ + 1 + 2 from rfl, getElem?_piece ht]
  rfl

lemma seqNum_piece : seqNum (piece blockSize t bn) = seqNum t := by
  unfold seqNum
  rw [int64At_seq_piece ht]

end Fields

lemma offsetOf_piece (hbs : 0 < blockSize) (ht : Sendable t) {bn : ℕ}
    (hbn : bn < chunkCount blockSize t) : (offsetOf (piece blockSize t bn)).toNat = bn := by
  unfold offsetOf
  rw [int64At_offset_piece ht, Option.getD_some,
    toNat_toUnsigned_ofNat (hbn.trans (chunkCount_lt hbs ht))]

lemma chunksOf_piece (hbs : 0 < blockSize) (ht : Sendable t) (bn : ℕ) :
    (chunksOf (piece blockSize t bn)).toNat = chunkCount blockSize t := by
  unfold chunksOf
  rw [int64At_chunks_piece ht, Option.getD_some, toNat_toUnsigned_ofNat (chunkCount_lt hbs ht)]

end Frag

end P2.Net
