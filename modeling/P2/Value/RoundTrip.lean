import P2.Value.Marshal

/-!
# What comes back from the wire

What comes back of a string with NUL bytes, of a time and of a duration, and whether a tuple that
came back can be sent again: `str_round_trip_iff`, `time_round_trip_iff`, `forward_iff`.
-/

namespace P2.Value

open P2.Lib P2.Lib.Xdr List

/-! ## Strings -/

/-- `xdr_string` when decoding: the bytes it writes to the buffer, with the NUL behind them; none if
the size is over the bound. -/
def xdrString (maxsize : ℤ) : Reader (List UInt8) := do
  let size ← getWord
  if maxsize < size.toNat then pure []
  else
    let data ← getBytes size.toNat
    pure (data ++ [0])

def overwritten (buffer : ℕ → UInt8) (written : List UInt8) (n : ℕ) : List UInt8 :=
  (List.range n).map fun i => written[i]?.getD (buffer i)

/-- `Val_Str::xdr_unmarshal` with the bytes of its buffer: the static one keeps those of earlier
calls, a fresh one has not been written to. -/
def getStrOver (buffer : ℕ → UInt8) : Reader (List UInt8) := do
  let sl ← getWord
  let n : ℤ := sl.toInt32.toInt
  if n < 0 ∨ n + 1 = 2 ^ 31 then failure
  else
    let written ← xdrString (if n + 1 ≤ 10000 then n + 1 else n)
    pure (overwritten buffer written n.toNat)

section Strings

variable {buffer : ℕ → UInt8} {s bs rest written : List UInt8} {n : ℕ}

@[simp]
lemma length_overwritten : (overwritten buffer written n).length = n := by
  simp [overwritten]

lemma overwritten_eq_take (hn : n ≤ written.length) : overwritten buffer written n = written.take n := by
  apply ext_getElem
  · simp [hn]
  · intro i hi hi'
    have hi : i < n := by simpa using hi
    simp [overwritten, List.getElem?_eq_getElem (hi.trans_le hn)]

lemma reads_str_over (hlen : s.length + 1 < 2 ^ 31) :
    Reads (getStrOver buffer) (putStr s) (overwritten buffer (cString s ++ [0]) s.length) := by
  have hle : (cString s).length ≤ s.length := ( takeWhile_prefix _).length_le
  have hsize : (UInt32.ofNat (cString s).length).toNat = (cString s).length := size_toNat (by omega)
  rw [putStr_eq (by omega)]
  refine (reads_word _).bind ?_
  rw [toInt32_size (by omega), if_neg (by omega), Int.toNat_natCast]
  have hstring := (reads_bytes (cString s)).andPure fun data : List UInt8 => data ++ [0]
  refine Reads.andPure ((reads_word _).bind ?_) fun written => overwritten buffer written s.length
  rw [hsize, if_neg (by split_ifs <;> omega)]
  exact hstring

lemma length_of_getStrOver (h : (getStrOver buffer).run bs = some (s, rest)) :
    s.length + 1 < 2 ^ 31 := by
  unfold getStrOver at h
  rw [StateT.run_bind] at h
  obtain ⟨⟨sl, cs⟩, -, h⟩ := Option.bind_eq_some_iff.mp h
  have hbound := sl.toInt32.toInt_lt
  dsimp only at h
  by_cases hlength : sl.toInt32.toInt < 0 ∨ sl.toInt32.toInt + 1 = 2 ^ 31
  · rw [if_pos hlength] at h
    cases h
  · rw [if_neg hlength] at h
    obtain ⟨⟨written, ds⟩, -, h⟩ := Option.bind_eq_some_iff.mp h
    cases h
    rw [length_overwritten]
    omega

lemma overwritten_cString (hnul : ∀ c ∈ s.dropLast, c ≠ 0) :
    overwritten buffer (cString s ++ [0]) s.length = s := by
  rcases cString_cases hnul with hs | hs
  · rw [hs, overwritten_eq_take (by simp), take_left' rfl]
  · rw [← hs, overwritten_eq_take le_rfl, take_length]

lemma getElem_overwritten (hlength : (cString s).length + 1 < s.length) :
    (overwritten buffer (cString s ++ [0]) s.length)[(cString s).length + 1]? =
      some (buffer ((cString s).length + 1)) := by
  simp [overwritten, hlength]

lemma length_cString_of_nul (hnul : 0 ∈ s.dropLast) : (cString s).length + 1 < s.length := by
  rcases eq_nil_or_concat s with rfl | ⟨t, c, rfl⟩
  · cases hnul
  · rw [concat_eq_append, dropLast_concat] at hnul
    have hlt : (t.takeWhile (· != 0)).length < t.length := by
      refine lt_of_le_of_ne ( takeWhile_prefix _).length_le fun heq => ?_
      have hself := ( takeWhile_prefix _).eq_of_length heq
      have hzero := takeWhile_eq_self_iff.mp hself 0 hnul
      cases hzero
    unfold cString
    rw [concat_eq_append, takeWhile_append, if_neg hlt.ne]
    simpa using hlt

lemma nul_of_overwritten (h : ∀ buffer, overwritten buffer (cString s ++ [0]) s.length = s) :
    ∀ c ∈ s.dropLast, c ≠ 0 := by
  rintro c hc rfl
  have hbyte (buffer : ℕ → UInt8) :
      s[(cString s).length + 1]? = some (buffer ((cString s).length + 1)) := by
    rw [← getElem_overwritten (length_cString_of_nul hc), h buffer]
  -- two buffers that differ there
  have hzero := hbyte fun _ => 0
  rw [hbyte fun _ => 1] at hzero
  cases hzero

end Strings

def mayHold (s : List UInt8) : Value → Bool
  | .str t => t == s || (t.all (· != 0) && decide (t.length + 1 < 2 ^ 31))
  | a => isWirable a && fits a

section Holding

variable {s : List UInt8} {a : Value}

lemma mayHold_cases (ha : mayHold s a) : a = .str s ∨ isWirable a ∧ fits a := by
  cases a with
  | str t =>
    rcases Bool.or_eq_true_iff.mp ha with hts | ht
    · exact Or.inl (congrArg Value.str (eq_of_beq hts))
    · exact Or.inr (Bool.and_eq_true_iff.mp ht)
  | _ => exact Or.inr (Bool.and_eq_true_iff.mp ha)

lemma isSendable_of_mayHold (hnul : ∀ c ∈ s.dropLast, c ≠ 0) (ha : mayHold s a) : isSendable a := by
  rcases mayHold_cases ha with rfl | ⟨hw, -⟩
  · exact all_eq_true.mpr fun c hc => by simpa using hnul c hc
  · exact isSendable_of_isWirable a hw

lemma fits_of_mayHold (hlen : s.length + 1 < 2 ^ 31) (ha : mayHold s a) : fits a := by
  rcases mayHold_cases ha with rfl | ⟨-, hf⟩
  · exact decide_eq_true hlen
  · exact hf

lemma isPlace_of_mayHold (ha : mayHold s a) : isPlace a := by
  rcases mayHold_cases ha with rfl | ⟨hw, -⟩
  · rfl
  · exact isPlace_of_isWirable a hw

end Holding

/-- **Strings on the wire.** A string comes back whatever the buffer of the decoder holds, and so
does every sequence of values and every tuple with the string in any places, exactly if only the
last byte of the string may be NUL and its length leaves room in an `int32_t`. -/
theorem str_round_trip_iff (s : List UInt8) :
    ((∀ buffer rest, (getStrOver buffer).run (putStr s ++ rest) = some (s, rest)) ∧
      ∀ as : List Value, (∀ a ∈ as, a.everywhere (mayHold s)) →
        (∀ a ∈ as, a.everywhere clashFree) → ∀ rest, RoundTrips as rest) ↔
    (∀ c ∈ s.dropLast, c ≠ 0) ∧ s.length + 1 < 2 ^ 31 := by
  constructor
  · rintro ⟨hstr, -⟩
    have hlen := length_of_getStrOver (hstr (fun _ => 0) [])
    refine ⟨nul_of_overwritten fun buffer => ?_, hlen⟩
    exact (reads_str_over hlen).unique (hstr buffer)
  · rintro ⟨hnul, hlen⟩
    refine ⟨fun buffer => ?_, fun as hhold hc rest => ?_⟩
    · have hreads : Reads (getStrOver buffer) (putStr s) _ := reads_str_over hlen
      rwa [overwritten_cString hnul] at hreads
    · have hwire : ∀ a ∈ as, a.everywhere isSendable := fun a ha =>
        everywhere_mono (fun a => isSendable_of_mayHold hnul) a (hhold a ha)
      have hnoNaN : ∀ a ∈ as, a.noNaN := fun a ha =>
        everywhere_mono (fun a => isPlace_of_mayHold) a (hhold a ha)
      have hfits : ∀ a ∈ as, a.everywhere fits := fun a ha =>
        everywhere_mono (fun a => fits_of_mayHold hlen) a (hhold a ha)
      exact roundTrips_of_isSendable hwire hnoNaN hfits hc rest

/-- Of the string `a`, NUL, `b` the last byte is not sent. -/
theorem str_nul_lost :
    (getStrOver fun _ => 0).run (putStr [97, 0, 98]) = some ([97, 0, 0], []) := rfl


/-! ## Times and durations -/

def ComesBack (a : Value) : Prop :=
  ∃ bs, xdrMarshal a = some bs ∧ xdrUnmarshal.run bs = some (a, [])

def backTicks (divisor : ℕ) (d : ℤ) : ℤ :=
  toTickCount (toWord (d.tdiv 3600000000)).toInt32 (toWord ((d.tdiv 60000000).tmod 60)).toInt32
    (toWord ((d.tdiv 1000000).tmod 60)).toInt32 ((toWord (d.tmod 1000000 * 1000)).toNat / divisor)

section Times

variable {d n : ℤ}

lemma reads_time (divisor : ℕ) (d : ℤ) :
    Reads (getTime divisor) (putTime d) (.ticks (backTicks divisor d)) :=
  (reads_word _).bind ((reads_word _).bind ((reads_word _).bind ((reads_word _).andPure _)))

lemma run_xdrUnmarshal {bs : List UInt8} {a : Value} {c : TypeCode}
    (h : ∀ depth, Reads (jumpTab (xdrUnmarshalDepth depth) c.code) bs a) :
    xdrUnmarshal.run (putTypeCode c ++ bs) = some (a, []) := by
  have hreads := reads_typeCode c (h (3 + bs.length)) []
  rw [append_nil] at hreads
  have hlength : (putTypeCode c ++ bs).length = 3 + bs.length + 1 := by
    rw [length_append]
    change 4 + _ = _
    omega
  rw [← hlength] at hreads
  exact hreads

lemma comesBack_iff {a b : Value} (hmarshal : xdrMarshal a = some (wire a))
    (hrun : xdrUnmarshal.run (wire a) = some (b, [])) : ComesBack a ↔ b = a := by
  constructor
  · rintro ⟨bs, hbs, hback⟩
    rw [← Option.some_inj.mp (hmarshal.symm.trans hbs), hrun] at hback
    exact (Prod.mk.inj (Option.some_inj.mp hback)).1
  · rintro rfl
    exact ⟨_, hmarshal, hrun⟩

lemma comesBack_time : ComesBack (.time (.ticks d)) ↔ backTicks 1 d = d := by
  have hrun : xdrUnmarshal.run (wire (.time (.ticks d))) = some (.time (.ticks (backTicks 1 d)), []) :=
    run_xdrUnmarshal fun depth => (reads_time 1 d).andPure _
  rw [comesBack_iff rfl hrun, time.injEq, TimeRep.ticks.injEq]

lemma comesBack_timeDuration : ComesBack (.timeDuration (.ticks d)) ↔ backTicks 1000 d = d := by
  have hrun : xdrUnmarshal.run (wire (.timeDuration (.ticks d))) =
      some (.timeDuration (.ticks (backTicks 1000 d)), []) :=
    run_xdrUnmarshal fun depth => (reads_time 1000 d).andPure _
  rw [comesBack_iff rfl hrun, timeDuration.injEq, TimeRep.ticks.injEq]

lemma toNat_toWord (n : ℤ) : (toWord n).toNat = (n % 2 ^ 32).toNat := by
  have hlt : (n % 2 ^ 32).toNat < 2 ^ 32 := by omega
  exact size_toNat hlt

lemma toInt_toWord (hn : -2 ^ 31 < n) (hn' : n < 2 ^ 31) : (toWord n).toInt32.toInt = n := by
  change (toWord n).toBitVec.toInt = n
  have hbits : (toWord n).toBitVec.toNat = (n % 2 ^ 32).toNat := toNat_toWord n
  rw [BitVec.toInt_eq_toNat_cond]
  split_ifs <;> omega

lemma parts_sum (e : ℤ) :
    e / 3600000000 * 3600 + e / 60000000 % 60 * 60 + e / 1000000 % 60 = e / 1000000 := by
  omega

lemma backTicks_of_nonneg (divisor : ℕ) (hd : 0 ≤ d) (hd' : d < 2 ^ 31 * 3600 * 1000000) :
    backTicks divisor d = d / 1000000 * 1000000 + (d % 1000000 * 1000).toNat / divisor := by
  have hfrac : (toWord (d.tmod 1000000 * 1000)).toNat = (d % 1000000 * 1000).toNat := by
    rw [toNat_toWord, Int.tmod_eq_emod_of_nonneg hd, Int.emod_eq_of_lt (by omega) (by omega)]
  unfold backTicks toTickCount
  rw [hfrac]
  simp only [Int.tdiv_eq_ediv_of_nonneg hd]
  rw [Int.tmod_eq_emod_of_nonneg (by omega), Int.tmod_eq_emod_of_nonneg (by omega),
    toInt_toWord (by omega) (by omega), toInt_toWord (by omega) (by omega),
    toInt_toWord (by omega) (by omega), if_neg (by omega), parts_sum]
  push_cast
  rfl

lemma backTicks_neg (divisor : ℕ) {e : ℤ} (he : 0 < e) (he' : e < 2 ^ 31 * 3600 * 1000000) :
    backTicks divisor (-e) =
      if e < 1000000 then (((-(e % 1000000 * 1000) % 2 ^ 32).toNat / divisor : ℕ) : ℤ)
      else -(e / 1000000 * 1000000 + ((-(e % 1000000 * 1000) % 2 ^ 32).toNat / divisor : ℕ)) := by
  have hfrac : (toWord ((-e).tmod 1000000 * 1000)).toNat =
      (-(e % 1000000 * 1000) % 2 ^ 32).toNat := by
    rw [toNat_toWord, Int.neg_tmod, Int.tmod_eq_emod_of_nonneg he.le, neg_mul]
  unfold backTicks toTickCount
  rw [hfrac]
  simp only [Int.neg_tdiv, Int.neg_tmod, Int.tdiv_eq_ediv_of_nonneg he.le]
  rw [Int.tmod_eq_emod_of_nonneg (by omega), Int.tmod_eq_emod_of_nonneg (by omega),
    toInt_toWord (by omega) (by omega), toInt_toWord (by omega) (by omega),
    toInt_toWord (by omega) (by omega)]
  simp only [abs_neg]
  rw [abs_of_nonneg (by omega), abs_of_nonneg (by omega), abs_of_nonneg (by omega), parts_sum]
  by_cases hsecond : e < 1000000
  · omega
  · rw [if_neg hsecond, if_pos (by omega)]

lemma negFraction {f : ℤ} (hf : 0 ≤ f) (hf' : f < 1000000) :
    f = 0 ∧ (-(f * 1000) % 2 ^ 32).toNat / 1000 = 0 ∨
      0 < f ∧ (((-(f * 1000) % 2 ^ 32).toNat / 1000 : ℕ) : ℤ) = 4294967 - f := by
  rcases hf.eq_or_lt with rfl | hpos
  · exact Or.inl ⟨rfl, by norm_num⟩
  · exact Or.inr ⟨hpos, by omega⟩

end Times

/-- **Times and durations on the wire.** A time between 1970 and 9999 comes back exactly if it is a
whole second: the fraction is sent in nanoseconds and taken for microseconds. A duration of less
than `2 ^ 31` hours comes back exactly if it is not negative or a whole number of seconds: a
negative fraction goes through an unsigned word and is divided there.
Hyps: the time is between 1970 and 9999, the duration is of less than `2 ^ 31` hours -/
theorem time_round_trip_iff (t d : ℤ) (ht : 0 ≤ t) (ht' : t < 253402300800 * 1000000)
    (hd : |d| < 2 ^ 31 * 3600 * 1000000) :
    (ComesBack (.time (.ticks t)) ↔ t % 1000000 = 0) ∧
      (ComesBack (.timeDuration (.ticks d)) ↔ 0 ≤ d ∨ d % 1000000 = 0) := by
  rw [comesBack_time, comesBack_timeDuration]
  refine ⟨?_, ?_⟩
  · rw [backTicks_of_nonneg 1 ht (by omega)]
    omega
  · rcases lt_or_ge d 0 with hneg | hnonneg
    · obtain ⟨e, rfl⟩ : ∃ e, d = -e := ⟨-d, (neg_neg d).symm⟩
      rw [abs_neg, abs_of_pos (by omega)] at hd
      rw [backTicks_neg 1000 (by omega) hd]
      have hfrac := negFraction (Int.emod_nonneg e (by norm_num : (1000000 : ℤ) ≠ 0))
        (Int.emod_lt_of_pos e (by norm_num))
      split_ifs <;> omega
    · rw [abs_of_nonneg hnonneg] at hd
      rw [backTicks_of_nonneg 1000 hnonneg hd]
      omega

theorem time_round_trip_minute :
    ComesBack (.time (.ticks 60000000)) ∧ ComesBack (.timeDuration (.ticks 1500000)) :=
  have h := time_round_trip_iff 60000000 1500000 (by norm_num) (by norm_num) (by norm_num)
  ⟨h.1.mpr (by norm_num), h.2.mpr (by norm_num)⟩

/-- Half a second after the epoch comes back as 500 seconds, and half a second before zero as almost
four seconds. -/
theorem time_fraction_scaled :
    xdrUnmarshal.run (wire (.time (.ticks 500000))) = some (.time (.ticks 500000000), []) ∧
      xdrUnmarshal.run (wire (.timeDuration (.ticks (-500000)))) =
        some (.timeDuration (.ticks 3794967), []) :=
  ⟨rfl, rfl⟩

/-! ## Forwarding -/

def freeze (t : Tuple) : Tuple := { t with frozen := true }

def isNotTuple : Value → Bool
  | .tuple _ _ => false
  | _ => true

section Forwarding

variable {a : Value} {as : List Value}

lemma isFrozen_rebuild (a : Value) : isFrozen a.rebuild = isNotTuple a := by
  cases a <;> rfl

lemma everywhere_isFrozen_rebuild (hw : a.everywhere isSendable) (hn : a.noNaN)
    (hc : a.everywhere clashFree) : a.rebuild.everywhere isFrozen ↔ a.everywhere isNotTuple := by
  induction a using induction_on_parts with
  | value a ih =>
    have hparts := (parts_rebuild a hw hn hc).1
    rw [noNaN] at hn
    rw [everywhere_iff] at hw hn hc
    rw [everywhere_iff, everywhere_iff, hparts, rebuilds_eq_map, forall_mem_map, isFrozen_rebuild]
    refine and_congr_right fun _ => forall₂_congr fun b hb => ?_
    exact ih b hb (hw.2 b hb) (hn.2 b hb) (hc.2 b hb)

lemma wire_rebuild (hw : a.everywhere isSendable) (hn : a.noNaN) (hc : a.everywhere clashFree) :
    a.rebuild.wire = a.wire := by
  induction a using induction_on_parts with
  | value a ih =>
    have hparts := (parts_rebuild a hw hn hc).1
    rw [noNaN] at hn
    rw [everywhere_iff] at hw hn hc
    have hwires : wires (rebuilds a.parts) = wires a.parts := by
      rw [wires_eq_flatMap, wires_eq_flatMap, rebuilds_eq_map, flatMap_map]
      exact flatMap_congr fun b hb => ih b hb (hw.2 b hb) (hn.2 b hb) (hc.2 b hb)
    have hlength : (rebuilds a.parts).length = a.parts.length := by
      rw [rebuilds_eq_map, length_map]
    cases a with
    | set L =>
      change insertions (rebuilds L) = rebuilds L at hparts
      change wires (rebuilds L) = wires L at hwires
      change (rebuilds L).length = L.length at hlength
      rw [rebuild, wire, wire, hparts, hwires, hlength]
    | tuple _ L | list L | vector L =>
      change wires (rebuilds L) = wires L at hwires
      change (rebuilds L).length = L.length at hlength
      rw [rebuild, wire, wire, hwires, hlength]
    | matrix m n L =>
      change wires (rebuilds L) = wires L at hwires
      rw [rebuild, wire, wire, hwires]
    | _ => rfl

lemma xdrMarshal_freeze (hw : ∀ a ∈ as, a.everywhere isSendable) (hn : ∀ a ∈ as, a.noNaN)
    (hc : ∀ a ∈ as, a.everywhere clashFree) (newID : ℕ) :
    (freeze ⟨newID, rebuilds as, false⟩).xdrMarshal =
      if ∀ a ∈ as, a.everywhere isNotTuple then some (putSize as.length ++ wires as) else none := by
  have hfrozen : everywheres isFrozen (rebuilds as) ↔ ∀ a ∈ as, a.everywhere isNotTuple := by
    rw [everywheres_iff, rebuilds_eq_map, forall_mem_map]
    exact forall₂_congr fun a ha => everywhere_isFrozen_rebuild (hw a ha) (hn a ha) (hc a ha)
  have hwires : wires (rebuilds as) = wires as := by
    rw [wires_eq_flatMap, wires_eq_flatMap, rebuilds_eq_map, flatMap_map]
    exact flatMap_congr fun a ha => wire_rebuild (hw a ha) (hn a ha) (hc a ha)
  have hlength : (rebuilds as).length = as.length := by
    rw [rebuilds_eq_map, length_map]
  unfold freeze Tuple.xdrMarshal
  simp [hfrozen, hwires, hlength]

end Forwarding

/-- **A received tuple is forwarded** with the same bytes exactly if none of its fields is or
contains a tuple: a tuple inside comes back unfrozen, and freezing the outer one does not reach it.
Hyps: a frozen tuple of values that come back -/
theorem forward_iff (as : List Value) (hw : ∀ a ∈ as, a.everywhere isSendable)
    (hn : ∀ a ∈ as, a.noNaN) (hf : ∀ a ∈ as, a.everywhere fits)
    (hc : ∀ a ∈ as, a.everywhere clashFree) (hlen : as.length < 2 ^ 32) (tupleID newID : ℕ) :
    (∃ bs t, Tuple.xdrMarshal ⟨tupleID, as, true⟩ = some bs ∧
      (Tuple.xdrUnmarshal newID).run bs = some (t, []) ∧ (freeze t).xdrMarshal = some bs) ↔
    ∀ a ∈ as, a.everywhere isNotTuple := by
  have hmarshal := tuple_xdrMarshal hw tupleID
  have hread := reads_tuple hw hf hlen newID []
  have hagain := xdrMarshal_freeze hw hn hc newID
  rw [append_nil] at hread
  constructor
  · rintro ⟨bs, t, hbs, ht, hforward⟩
    rw [hmarshal] at hbs
    cases hbs
    rw [hread] at ht
    cases ht
    rw [hagain] at hforward
    by_contra htuple
    rw [if_neg htuple] at hforward
    cases hforward
  · intro htuple
    rw [if_pos htuple] at hagain
    exact ⟨_, _, hmarshal, hread, hagain⟩

theorem forward_iff_list :
    ∃ bs t, Tuple.xdrMarshal ⟨1, [.list [.set [.int64 1, .int64 2]]], true⟩ = some bs ∧
      (Tuple.xdrUnmarshal 2).run bs = some (t, []) ∧ (freeze t).xdrMarshal = some bs :=
  (forward_iff [.list [.set [.int64 1, .int64 2]]] (by decide) (by decide) (by decide) (by decide)
    (by decide) 1 2).mpr (by decide)

/-- A tuple with an empty tuple in it is sent and received, and asserts when it is sent again. -/
theorem forward_fails :
    ∃ bs t, Tuple.xdrMarshal ⟨1, [.tuple true []], true⟩ = some bs ∧
      (Tuple.xdrUnmarshal 2).run bs = some (t, []) ∧ (freeze t).xdrMarshal = none :=
  ⟨_, _, rfl, rfl, rfl⟩

end P2.Value
