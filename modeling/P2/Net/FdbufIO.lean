import P2.Net.Fdbuf

/-!
# System calls on an `Fdbuf`

`read`, `recv` and `recvfrom` let a system call write behind the bytes held; `write`, `send` and
`sendto` hand it the bytes at the head. What the call returns, the number of bytes moved or -1, then
goes through `post_read` or `post_write`, whose parameter is unsigned.

A failed call counts as one that moved 2³² - 1 bytes.

* `io`: the six calls, with what the system call returned; `MovesExactly`: what they are to do.
* `Call.Sound`: the result is not -1, and the room made for an input leaves the bytes held alone.
* `io_moves_exactly_iff`: the calls do what they are to do exactly then, for requests of every size.
-/

namespace P2.Net

open P2.Lib.Memory Option Int64

namespace Fdbuf

/-! ## The code -/

/-- The conversion of a system call's result to the parameter of `post_read` and `post_write`. -/
def unsigned (r : Int64) : UInt32 := r.toUInt64.toUInt32

/-- The conversion of that parameter to the result of `post_read` and `post_write`. -/
def widened (w : UInt32) : Int64 := w.toUInt64.toInt64

def post_write (w : UInt32) (s : Fdbuf) : Int64 × Fdbuf :=
  (widened w, if w > 0 then { s with start := s.start + w, len := s.len - w } else s)

def post_read (r : UInt32) (s : Fdbuf) : Int64 × Fdbuf :=
  (widened r, if r > 0 then { s with len := s.len + r } else s)

/-- What all input functions do with a system call that wrote `bytes` and returned `r`. -/
def input (max_read : UInt32) (r : Int64) (bytes : List UInt8) (s : Fdbuf) :
    Option (Int64 × Fdbuf) := do
  let s ← s.ensure_additional max_read
  let data ← store s.data (s.start.toNat + s.len.toNat) bytes
  return post_read (unsigned r) { s with data := data }

/-- The number of bytes all output functions offer to the system call. -/
def offered (max_write : Int64) (s : Fdbuf) : UInt32 :=
  if max_write < 0 then s.len else min s.len (unsigned max_write)

def read (max_read : UInt32) (r : Int64) (bytes : List UInt8) (s : Fdbuf) :
    Option (Int64 × Fdbuf) := s.input max_read r bytes

def recv (max_read : UInt32) (r : Int64) (bytes : List UInt8) (s : Fdbuf) :
    Option (Int64 × Fdbuf) := s.input max_read r bytes

def recvfrom (max_read : UInt32) (r : Int64) (bytes : List UInt8) (s : Fdbuf) :
    Option (Int64 × Fdbuf) := s.input max_read r bytes

def write (r : Int64) (s : Fdbuf) : Int64 × Fdbuf := s.post_write (unsigned r)

def send (r : Int64) (s : Fdbuf) : Int64 × Fdbuf := s.post_write (unsigned r)

def sendto (r : Int64) (s : Fdbuf) : Int64 × Fdbuf := s.post_write (unsigned r)

/-- The calls on a buffer that make a system call. -/
inductive Call where
  | read (max_read : UInt32)
  | recv (max_read : UInt32)
  | recvfrom (max_read : UInt32)
  | write (max_write : Int64)
  | send (max_write : Int64)
  | sendto (max_write : Int64)

/-- A call whose system call returned `r`, and wrote `bytes` if it reads. -/
def io (s : Fdbuf) (r : Int64) (bytes : List UInt8) : Call → Option (Int64 × Fdbuf)
  | .read max_read => s.read max_read r bytes
  | .recv max_read => s.recv max_read r bytes
  | .recvfrom max_read => s.recvfrom max_read r bytes
  | .write _ => some (s.write r)
  | .send _ => some (s.send r)
  | .sendto _ => some (s.sendto r)

/-! ## What was moved -/

def Call.requested (s : Fdbuf) : Call → ℕ
  | .read max_read | .recv max_read | .recvfrom max_read => max_read.toNat
  | .write max_write | .send max_write | .sendto max_write => (s.offered max_write).toNat

/-- What the system call may do: it returns -1 or a number of bytes up to the request, and writes
that many if the call reads. -/
structure Honest (s : Fdbuf) (call : Call) (r : Int64) (bytes : List UInt8) : Prop where
  lower : -1 ≤ r.toInt
  upper : r.toInt ≤ call.requested s
  moved : bytes.length = r.toInt.toNat

def Call.spec (q : List UInt8) (r : Int64) (bytes : List UInt8) : Call → List UInt8
  | .read _ | .recv _ | .recvfrom _ => q ++ bytes
  | .write _ | .send _ | .sendto _ => q.drop r.toInt.toNat

/-- The call returns what the system call returned, a call that moved nothing leaves the buffer as
it was, and a call that moved bytes appends them or drops them from the head. -/
def MovesExactly (s : Fdbuf) (call : Call) (r : Int64) (bytes : List UInt8) : Prop :=
  ∃ s', s.io r bytes call = some (r, s') ∧
    (r.toInt ≤ 0 → s'.content = s.content ∧ s'.start = s.start ∧ s'.len = s.len) ∧
    (0 < r.toInt → s'.content = call.spec s.content r bytes) ∧
    s'.start.toNat + s'.len.toNat ≤ s'.capacity.toNat

/-- A request for room, its size as `ensure` rounds it, moves the bytes held nowhere, or moves them
unharmed while some are read, and there is room for what is read. Room is missing only where the sums of
the sizes have wrapped around. -/
def Undisturbed (s : Fdbuf) (r : Int64) (need : UInt32) : Prop :=
  if need ≤ s.capacity then
    s.start.toNat + s.len.toNat + r.toInt.toNat ≤ s.capacity.toNat ∧
      (s.capacity.toNat < s.start.toNat + need.toNat → Repeats s.start.toNat s.content)
  else s.len.toNat + r.toInt.toNat ≤ (new_size need).toNat ∧ (r = 0 → s.start = 0)

def Call.Sound (s : Fdbuf) (r : Int64) : Call → Prop
  | .read max_read | .recv max_read | .recvfrom max_read =>
    r ≠ -1 ∧ s.Undisturbed r (align (max_read + s.len + s.start))
  | .write _ | .send _ | .sendto _ => r ≠ -1

/-! ## Conversions -/

variable {s : Fdbuf} {r : Int64} {bytes : List UInt8}

lemma toNat_unsigned (h : 0 ≤ r.toInt) (hlt : r.toInt < 2 ^ 32) :
    (unsigned r).toNat = r.toInt.toNat := by
  unfold unsigned
  rw [UInt64.toNat_toUInt32, toNat_toUInt64_of_le (le_iff_toInt_le.mpr h)]
  show r.toInt.toNat % 2 ^ 32 = _
  exact Nat.mod_eq_of_lt (by omega)

lemma toInt_widened (w : UInt32) : (widened w).toInt = w.toNat := by
  have hlt := w.toNat_lt
  unfold widened
  rw [← toInt_toBitVec, BitVec.toInt_eq_toNat_of_lt]
  · simp
  · simp
    omega

lemma widened_unsigned (hlow : -1 ≤ r.toInt) (hlt : r.toInt < 2 ^ 32) :
    widened (unsigned r) = r ↔ r ≠ -1 := by
  constructor
  · rintro hback rfl
    cases hback
  · intro hne
    have hpos : 0 ≤ r.toInt := by
      have : r.toInt ≠ -1 := fun h => hne (toInt_inj.mp h)
      omega
    apply toInt_inj.mp
    rw [toInt_widened, toNat_unsigned hpos hlt]
    omega

/-! ## Output -/

lemma offered_le (s : Fdbuf) (max_write : Int64) : (s.offered max_write).toNat ≤ s.len.toNat := by
  unfold offered
  split_ifs
  · exact le_rfl
  · rw [UInt32.toNat_min]
    exact Nat.min_le_left _ _

lemma Wf.post_write (h : s.Wf) {w : UInt32} (hw : w.toNat ≤ s.len.toNat) :
    (s.post_write w).2.Wf ∧ (s.post_write w).2.content = s.content.drop w.toNat := by
  unfold Fdbuf.post_write
  by_cases hpos : w > 0
  · rw [if_pos hpos]
    obtain ⟨hwf, hcontent, -⟩ := h.take hw
    exact ⟨hwf, hcontent⟩
  · rw [if_neg hpos]
    have hzero : w.toNat = 0 := Nat.eq_zero_of_not_pos hpos
    rw [hzero]
    exact ⟨h, rfl⟩

lemma Wf.output_iff (h : s.Wf) {call : Call} {max_write : Int64}
    (hio : s.io r bytes call = some (s.post_write (unsigned r)))
    (hspec : call.spec s.content r bytes = s.content.drop r.toInt.toNat)
    (hlow : -1 ≤ r.toInt) (hle : r.toInt ≤ (s.offered max_write).toNat) :
    s.MovesExactly call r bytes ↔ r ≠ -1 := by
  have hlen := s.len.toNat_lt
  have hoffered := s.offered_le max_write
  have hback := widened_unsigned hlow (by omega)
  unfold MovesExactly
  rw [hio, hspec]
  constructor
  · rintro ⟨s', hs', -⟩
    exact hback.mp (congrArg Prod.fst (some.inj hs'))
  · intro hne
    have hnonneg : 0 ≤ r.toInt := by
      have : r.toInt ≠ -1 := fun h => hne (toInt_inj.mp h)
      omega
    have hnat := toNat_unsigned hnonneg (by omega)
    obtain ⟨hwf, hcontent⟩ := h.post_write (show (unsigned r).toNat ≤ s.len.toNat by omega)
    refine ⟨(s.post_write (unsigned r)).2, ?_, ?_, ?_, hwf.held⟩
    · exact congrArg some (Prod.ext (hback.mpr hne) rfl)
    · intro hnone
      have hsame : (s.post_write (unsigned r)).2 = s := by
        apply if_neg
        show ¬ 0 < (unsigned r).toNat
        omega
      rw [hsame]
      exact ⟨rfl, rfl, rfl⟩
    · intro _
      rw [hcontent, hnat]

/-! ## Input -/

lemma input_result {max_read : UInt32} {r' : Int64} {s' : Fdbuf}
    (h : s.input max_read r bytes = some (r', s')) : r' = widened (unsigned r) := by
  unfold input at h
  simp only [bind_eq_bind, pure_def, bind_eq_some_iff] at h
  obtain ⟨s₁, -, data, -, hpost⟩ := h
  exact (congrArg Prod.fst (some.inj hpost)).symm

lemma Wf.post_read (h : s.Wf)
    (hroom : s.start.toNat + s.len.toNat + bytes.length ≤ s.capacity.toNat) {w : UInt32}
    (hw : w.toNat = bytes.length) :
    ∃ data, store s.data (s.start.toNat + s.len.toNat) bytes = some data ∧
      let s' := (Fdbuf.post_read w { s with data := data }).2
      s'.Wf ∧ s'.start = s.start ∧ s'.len.toNat = s.len.toNat + bytes.length ∧
        s'.content = s.content ++ bytes := by
  obtain ⟨mem, hmem, hmemlen, hslice, hframe⟩ := store_spec s.data
    (s.start.toNat + s.len.toNat) bytes (by rw [h.size]; omega)
  have hcap := s.capacity.toNat_lt
  have hsum : (s.len + w).toNat = s.len.toNat + bytes.length := by
    rw [UInt32.toNat_add, hw, Nat.mod_eq_of_lt (by omega)]
  -- a result of zero leaves the length alone, which then is a sum with zero too
  have hpost : (Fdbuf.post_read w { s with data := mem }).2 =
      { s with data := mem, len := s.len + w } := by
    by_cases hpos : w > 0
    · exact if_pos hpos
    · have hzero : w = 0 := UInt32.toNat_inj.mp (Nat.eq_zero_of_not_pos hpos)
      rw [hzero, UInt32.add_zero]
      rfl
  refine ⟨mem, hmem, ?_⟩
  rw [hpost]
  refine ⟨⟨hmemlen.trans h.size, ?_⟩, rfl, hsum, ?_⟩
  · show s.start.toNat + (s.len + w).toNat ≤ s.capacity.toNat
    omega
  · show slice mem s.start.toNat (s.len + w).toNat = s.content ++ bytes
    rw [hsum, slice_add, hslice, hframe _ _ (Or.inl le_rfl)]
    rfl

/-- An input function after the request for room. -/
lemma Wf.input_of_ensure {s₁ : Fdbuf} (h : s₁.Wf) {call : Call} {max_read : UInt32}
    (hs₁ : s.ensure_additional max_read = some s₁) (hlen : s₁.len = s.len)
    (hio : s.io r bytes call = s.input max_read r bytes)
    (hspec : call.spec s.content r bytes = s.content ++ bytes) (hnonneg : 0 ≤ r.toInt)
    (hback : widened (unsigned r) = r) (hnat : (unsigned r).toNat = bytes.length)
    (hbytes : bytes.length = r.toInt.toNat) :
    s.MovesExactly call r bytes ↔
      s₁.start.toNat + s₁.len.toNat + bytes.length ≤ s₁.capacity.toNat ∧ s₁.content = s.content ∧
        (r = 0 → s₁.start = s.start) := by
  have hinput : s.input max_read r bytes =
      (store s₁.data (s₁.start.toNat + s₁.len.toNat) bytes).map
        fun data => Fdbuf.post_read (unsigned r) { s₁ with data := data } := by
    unfold Fdbuf.input
    rw [hs₁, Option.bind_eq_bind, Option.bind_some, Option.map_eq_bind]
    rfl
  unfold MovesExactly
  rw [hio, hspec, hinput]
  by_cases hroom : s₁.start.toNat + s₁.len.toNat + bytes.length ≤ s₁.capacity.toNat
  · obtain ⟨data, hdata, hwf', hstart', hlen', hcontent'⟩ := h.post_read hroom hnat
    have hdone : (store s₁.data (s₁.start.toNat + s₁.len.toNat) bytes).map
          (fun data => Fdbuf.post_read (unsigned r) { s₁ with data := data }) =
        some (r, (Fdbuf.post_read (unsigned r) { s₁ with data := data }).2) := by
      rw [hdata, Option.map_some]
      exact congrArg some (Prod.ext hback rfl)
    rw [hdone]
    generalize (Fdbuf.post_read (unsigned r) { s₁ with data := data }).2 = s' at *
    constructor
    · rintro ⟨s₂, hs₂, hnone, hsome, -⟩
      obtain rfl : s' = s₂ := congrArg Prod.snd (some.inj hs₂)
      refine ⟨hroom, ?_, fun hzero => ?_⟩
      · by_cases hpos : 0 < r.toInt
        · exact List.append_cancel_right (hcontent'.symm.trans (hsome hpos))
        · have hnil : bytes = [] := List.eq_nil_of_length_eq_zero (by omega)
          rw [hnil, List.append_nil] at hcontent'
          exact hcontent'.symm.trans (hnone (by omega)).1
      · exact hstart'.symm.trans (hnone (by rw [hzero]; decide)).2.1
    · rintro ⟨-, hcontent, hstart⟩
      rw [hcontent] at hcontent'
      refine ⟨s', rfl, fun hnone => ?_, fun _ => hcontent', hwf'.held⟩
      have hzero : r = 0 := toInt_inj.mp (show r.toInt = 0 by omega)
      have hnil : bytes = [] := List.eq_nil_of_length_eq_zero (by omega)
      rw [hnil, List.append_nil] at hcontent'
      refine ⟨hcontent', hstart'.trans (hstart hzero), UInt32.toNat_inj.mp ?_⟩
      rw [hlen', hlen, hnil, List.length_nil, Nat.add_zero]
  · -- the system call writes behind the block
    have hfails : store s₁.data (s₁.start.toNat + s₁.len.toNat) bytes = none := by
      apply if_neg
      rw [h.size]
      exact hroom
    rw [hfails]
    exact iff_of_false (by rintro ⟨s', hs', -⟩; cases hs') fun hand => hroom hand.1

lemma Wf.input_iff (h : s.Wf) {call : Call} {max_read : UInt32}
    (hio : s.io r bytes call = s.input max_read r bytes)
    (hspec : call.spec s.content r bytes = s.content ++ bytes)
    (hlow : -1 ≤ r.toInt) (hle : r.toInt ≤ max_read.toNat) (hbytes : bytes.length = r.toInt.toNat) :
    s.MovesExactly call r bytes ↔
      r ≠ -1 ∧ s.Undisturbed r (align (max_read + s.len + s.start)) := by
  have hmax := max_read.toNat_lt
  have hback := widened_unsigned hlow (by omega)
  by_cases hne : r = -1
  · apply iff_of_false
    · rintro ⟨s', hs', -⟩
      rw [hio] at hs'
      exact hback.mp (input_result hs').symm hne
    · exact fun hcond => hcond.1 hne
  have hnonneg : 0 ≤ r.toInt := by
    have : r.toInt ≠ -1 := fun h => hne (toInt_inj.mp h)
    omega
  have hnat := (toNat_unsigned hnonneg (by omega)).trans hbytes.symm
  rw [and_iff_right hne, Undisturbed, ← hbytes]
  by_cases hfits : align (max_read + s.len + s.start) ≤ s.capacity
  · obtain ⟨s₁, hs₁, hwf, hcontent, hlen, hstart, hcap⟩ := h.ensure_stays hfits
    rw [hwf.input_of_ensure hs₁ hlen hio hspec hnonneg (hback.mpr hne) hnat hbytes, if_pos hfits,
      hcontent, hstart, hlen, hcap]
    simp
  · have hgrow := UInt32.not_le.mp hfits
    rw [if_neg hfits]
    by_cases hroom : s.len.toNat ≤ (new_size (align (max_read + s.len + s.start))).toNat
    · obtain ⟨s₁, hs₁, hwf, hcontent, hlen, hstart, hcap⟩ := h.ensure_grows hgrow hroom
      rw [hwf.input_of_ensure hs₁ hlen hio hspec hnonneg (hback.mpr hne) hnat hbytes,
        hcontent, hstart, hlen, hcap]
      simp [eq_comm]
    · -- the size of the new block has wrapped around
      have hfails : s.input max_read r bytes = none := by
        have hnone := h.grow_eq_none (Nat.not_le.mp hroom)
        simp [Fdbuf.input, Fdbuf.ensure_additional, Fdbuf.ensure, hgrow, hnone]
      apply iff_of_false
      · rintro ⟨s', hs', -⟩
        rw [hio, hfails] at hs'
        cases hs'
      · omega

/-! ## The six calls -/

/-- **When a buffer moves by exactly what was moved.** An output function moves it exactly unless
the system call failed. For an input function the room it makes must also leave the bytes held
alone, and be enough.
Hyps: `hwf` and `hhonest` on the buffer and the system call -/
theorem io_moves_exactly_iff (hwf : s.Wf) (call : Call) (hhonest : s.Honest call r bytes) :
    s.MovesExactly call r bytes ↔ call.Sound s r := by
  have hlow := hhonest.lower
  have hup := hhonest.upper
  have hmoved := hhonest.moved
  cases call with
  | read max_read => exact hwf.input_iff rfl rfl hlow hup hmoved
  | recv max_read => exact hwf.input_iff rfl rfl hlow hup hmoved
  | recvfrom max_read => exact hwf.input_iff rfl rfl hlow hup hmoved
  | write max_write => exact hwf.output_iff rfl rfl hlow hup
  | send max_write => exact hwf.output_iff rfl rfl hlow hup
  | sendto max_write => exact hwf.output_iff rfl rfl hlow hup

def twoBytes : Fdbuf where
  capacity := 8
  len := 2
  data := [7, 9, 0, 0, 0, 0, 0, 0]
  safe := false

theorem io_moves_exactly_recv :
    twoBytes.MovesExactly (.recv 4) 3 [1, 2, 3] ∧
      ¬ twoBytes.MovesExactly (.recv 4294967295) 7 [1, 2, 3, 4, 5, 6, 7] := by
  constructor
  · rw [io_moves_exactly_iff (by decide) (.recv 4) ⟨by decide, by decide, rfl⟩]
    exact ⟨by decide, by unfold Undisturbed; decide⟩
  · rw [io_moves_exactly_iff (by decide) (.recv 4294967295) ⟨by decide, by decide, rfl⟩]
    exact fun h => absurd h.2 (by unfold Undisturbed; decide)

/-- **A failed `send`** takes 2³² - 1 bytes from the buffer and reports that many: it then holds one
byte more than before, from an offset behind the block. -/
theorem failed_send_moves :
    twoBytes.Wf ∧ twoBytes.Honest (.send (-1)) (-1) [] ∧
      ¬ twoBytes.MovesExactly (.send (-1)) (-1) [] ∧
      (twoBytes.io (-1) [] (.send (-1))).map (fun p => (p.1, p.2.start, p.2.len)) =
        some (4294967295, 4294967295, 3) := by
  refine ⟨by decide, ⟨by decide, by decide, rfl⟩, ?_, by decide⟩
  rintro ⟨s', hs', -⟩
  have hresult : (send (-1) twoBytes).1 = -1 := congrArg Prod.fst (some.inj hs')
  exact absurd hresult (by decide)

end Fdbuf

end P2.Net
