import P2.Net.Frag
import P2.Lib.Reassembly

/-!
# Reassembly of fragments

`Defrag::defragment` keeps the fragments of all tuples in one multimap, keyed by sequence number.
Both its duplicate check and its reassembly loop run from `find(seq_num)` to the end of the map,
past the fragments of that number. `defrag_round_trip_iff` says when that does no harm.
-/

namespace P2.Net

open P2.Value P2.Lib Frag List SearchTree
open UInt64 (not_lt le_refl le_of_lt)

structure Defrag where
  fragments : SearchTree (UInt64 × List Value) := .nil
  tuples : List (List Value) := []

namespace Defrag

def ltKey (a b : UInt64 × List Value) : Bool := a.1 < b.1

/-- The position of `find(seq_num)`, if it is not the end. -/
def position (fragments : SearchTree (UInt64 × List Value)) (seq : UInt64) : ℕ :=
  fragments.lowerBound (ltKey · (seq, []))

def fromFind (fragments : SearchTree (UInt64 × List Value)) (seq : UInt64) :
    List (UInt64 × List Value) :=
  match fragments.find (ltKey · (seq, [])) (ltKey (seq, [])) with
  | some _ => fragments.toList.drop (position fragments seq)
  | none => []

def count (fragments : SearchTree (UInt64 × List Value)) (seq : UInt64) : ℕ :=
  (fragments.range (position fragments seq) (fragments.upperBound (ltKey (seq, [])))).length

/-- `Val_Int64::cast((*iter->second)[SEQ+1]) == offset`. The cast went through when the fragment
arrived. -/
def isAt (offset : UInt32) (entry : UInt64 × List Value) : Bool :=
  int64At (SEQ + 1) entry.2 == some (Int64.ofNat offset.toNat)

/-- The inner loop of the reassembly: the first fragment at an offset, from `find(seq_num)` on, is
taken out; `none` where `assert(p)` fails. -/
def takeAt (fragments : SearchTree (UInt64 × List Value)) (seq : UInt64) (i : UInt32) :
    Option (List Value × SearchTree (UInt64 × List Value)) := do
  let j ← (fromFind fragments seq).findIdx? (isAt i)
  let entry ← (fromFind fragments seq)[j]?
  pure (entry.2, fragments.eraseIdx (position fragments seq + j))

def reassemble (seq : UInt64) (offsets : List ℕ)
    (start : List UInt8 × SearchTree (UInt64 × List Value)) :
    Option (List UInt8 × SearchTree (UInt64 × List Value)) :=
  offsets.foldlM (fun acc i => do
    let taken ← takeAt acc.2 seq (UInt32.ofNat i)
    let payload ← taken.1[SEQ + 3]?.bind castOpaque
    pure (acc.1 ++ payload, taken.2)) start

/-- `Defrag::defragment`; `none` where a cast, an assertion or the decoder fails. -/
def defragment (s : Defrag) (t : List Value) : Option Defrag := do
  let seqNum ← (int64At SEQ t).map Int64.toUInt64
  let offset ← (int64At (SEQ + 1) t).map toUnsigned
  let chunks ← (int64At (SEQ + 2) t).map toUnsigned
  if (fromFind s.fragments seqNum).any (isAt offset) then
    pure s
  else
    let fragments := s.fragments.insertEqual ltKey (seqNum, t)
    if count fragments seqNum = chunks.toNat then
      let assembled ← reassemble seqNum (List.range chunks.toNat) ([], fragments)
      let unmarshal ← (Tuple.xdrUnmarshal 0).run assembled.1
      -- the copying loop goes over the three fields that follow the sequence number
      pure ⟨assembled.2,
        s.tuples ++ [t.take (SEQ + 1) ++ unmarshal.1.fields ++ t.drop (SEQ + 4)]⟩
    else
      pure { s with fragments := fragments }

def pushAll (s : Defrag) (order : List (List Value)) : Option Defrag := order.foldlM defragment s

/-! ## The multimap -/

lemma strictWeak_ltKey : StrictWeak ltKey Set.univ where
  asymm a _ b _ h := by
    simp only [ltKey, decide_eq_true_eq] at h ⊢
    exact UInt64.lt_asymm h
  not_lt_trans a _ b _ c _ hab hbc := by
    simp only [ltKey, decide_eq_true_eq, not_lt] at hab hbc ⊢
    exact UInt64.le_trans hbc hab

lemma not_ltKey_and (seq : UInt64) (a : UInt64 × List Value) :
    (!ltKey a (seq, []) && !ltKey (seq, []) a) = decide (a.1 = seq) := by
  simp only [ltKey, ← decide_not, not_lt, ← Bool.decide_and, decide_eq_decide]
  exact ⟨fun h => UInt64.le_antisymm h.2 h.1, fun h => h ▸ ⟨le_refl _, le_refl _⟩⟩

lemma fromFind_eq {fragments : SearchTree (UInt64 × List Value)}
    (hsorted : Sorted ltKey fragments.toList) (seq : UInt64) :
    fromFind fragments seq = if fragments.toList.any (·.1 = seq) then
      fragments.toList.filter (seq ≤ ·.1) else [] := by
  have hcut := (cut_lowerBound (k := (seq, [])) strictWeak_ltKey hsorted
    (fun _ _ => trivial) trivial).2
  have hfind := SearchTree.find_eq_head?_filter (k := (seq, [])) strictWeak_ltKey hsorted
    (fun _ _ => trivial) trivial
  simp only [not_ltKey_and] at hfind
  unfold fromFind position
  rw [hcut, hfind]
  rcases hany : fragments.toList.any (·.1 = seq) with _ | _
  · have hnil : fragments.toList.filter (·.1 = seq) = [] := by
      rw [filter_eq_nil_iff]
      intro a ha
      simpa using any_eq_false.mp hany a ha
    rw [hnil]
    rfl
  · obtain ⟨a, ha, haseq⟩ := any_eq_true.mp hany
    have hne : fragments.toList.filter (·.1 = seq) ≠ [] :=
      ne_nil_of_mem (mem_filter.mpr ⟨ha, haseq⟩)
    rw [head?_eq_some_head hne, if_pos rfl]
    simp [ltKey, ← decide_not]

lemma count_eq {fragments : SearchTree (UInt64 × List Value)}
    (hsorted : Sorted ltKey fragments.toList) (seq : UInt64) :
    count fragments seq = fragments.toList.countP (·.1 = seq) := by
  have hrange := range_eq_filter (k := (seq, [])) strictWeak_ltKey hsorted
    (fun _ _ => trivial) trivial
  unfold count position
  simp [hrange, not_ltKey_and, countP_eq_length_filter]

lemma toList_split {l : List (UInt64 × List Value)} (hsorted : Sorted ltKey l) (seq : UInt64) :
    l = l.filter (·.1 < seq) ++ (l.filter (·.1 = seq) ++ l.filter (seq < ·.1)) := by
  have hle : l.Pairwise fun a b => a.1 ≤ b.1 := hsorted.imp fun {a b} hba => by
    simpa [ltKey, not_lt] using hba
  have hbelow := filter_append_filter_of_pairwise (p := (·.1 < seq))
    (hle.imp fun {a b} hab hb => by
      simp only [decide_eq_true_eq] at hb ⊢
      exact UInt64.lt_of_le_of_lt hab hb)
  have hown := filter_append_filter_of_pairwise (p := (·.1 ≤ seq))
    ((hle.filter fun a => !decide (a.1 < seq)).imp fun {a b} hab hb => by
      simp only [decide_eq_true_eq] at hb ⊢
      exact UInt64.le_trans hab hb)
  rw [filter_filter, filter_filter] at hown
  have heq : ∀ a : UInt64 × List Value,
      (decide (a.1 ≤ seq) && !decide (a.1 < seq)) = decide (a.1 = seq) := by
    intro a
    simp only [← decide_not, not_lt, ← Bool.decide_and, decide_eq_decide]
    exact ⟨fun h => UInt64.le_antisymm h.1 h.2, fun h => h ▸ ⟨le_refl _, le_refl _⟩⟩
  have hgt : ∀ a : UInt64 × List Value,
      (!decide (a.1 ≤ seq) && !decide (a.1 < seq)) = decide (seq < a.1) := by
    intro a
    simp only [← decide_not, UInt64.not_le, not_lt, ← Bool.decide_and, decide_eq_decide]
    exact ⟨fun h => h.1, fun h => ⟨h, le_of_lt h⟩⟩
  simp only [heq, hgt] at hown
  rw [hown]
  exact hbelow.symm

/-! ## The reassembly loop -/

section Reassemble

variable {blockSize : ℕ} {t : List Value} {seq : UInt64}

lemma int64_ofNat_inj {m n : ℕ} (hm : m < 2 ^ 32) (hn : n < 2 ^ 32)
    (h : Int64.ofNat m = Int64.ofNat n) : m = n := by
  rw [← toNat_toUnsigned_ofNat hm, h, toNat_toUnsigned_ofNat hn]

lemma isAt_piece (hbs : 0 < blockSize) (ht : Sendable t) {i j : ℕ}
    (hi : i < chunkCount blockSize t) (hj : j < chunkCount blockSize t) :
    isAt (UInt32.ofNat i) (seq, piece blockSize t j) ↔ j = i := by
  have hlt := chunkCount_lt hbs ht
  unfold isAt
  rw [int64At_offset_piece ht, size_toNat (hi.trans hlt), beq_iff_eq, Option.some.injEq]
  exact ⟨int64_ofNat_inj (hj.trans hlt) (hi.trans hlt), fun h => h ▸ rfl⟩

lemma takeAt_eq {fragments : SearchTree (UInt64 × List Value)}
    {before own₁ own₂ after : List (UInt64 × List Value)} {p : List Value} {i : UInt32}
    (hsorted : Sorted ltKey fragments.toList)
    (hlist : fragments.toList = before ++ (own₁ ++ (seq, p) :: own₂ ++ after))
    (hbefore : ∀ e ∈ before, e.1 < seq) (hown : ∀ e ∈ own₁ ++ (seq, p) :: own₂, e.1 = seq)
    (hafter : ∀ e ∈ after, seq < e.1) (hfirst : ∀ e ∈ own₁, isAt i e = false)
    (hp : isAt i (seq, p)) :
    ∃ rest, takeAt fragments seq i = some (p, rest) ∧
      rest.toList = before ++ (own₁ ++ own₂ ++ after) := by
  have hge : ∀ e ∈ own₁ ++ (seq, p) :: own₂ ++ after, seq ≤ e.1 := by
    intro e he
    rcases mem_append.mp he with he | he
    · exact hown e he ▸ le_refl _
    · exact le_of_lt (hafter e he)
  have hpos : position fragments seq = before.length := by
    unfold position
    rw [lowerBound_eq_length (pairwise_below (k := (seq, [])) strictWeak_ltKey hsorted
        (fun _ _ => trivial) trivial), hlist, filter_append, filter_eq_self.mpr,
      filter_eq_nil_iff.mpr, append_nil]
    · exact fun e he => by simpa [ltKey, not_lt] using hge e he
    · exact fun e he => decide_eq_true (hbefore e he)
  have hvisit : fromFind fragments seq = own₁ ++ (seq, p) :: own₂ ++ after := by
    rw [fromFind_eq hsorted, if_pos (by simp [hlist]), hlist, filter_append,
      filter_eq_nil_iff.mpr, filter_eq_self.mpr, nil_append]
    · exact fun e he => decide_eq_true (hge e he)
    · exact fun e he => by simpa [UInt64.not_le] using hbefore e he
  have hidx : (fromFind fragments seq).findIdx? (isAt i) = some own₁.length := by
    rw [hvisit, append_assoc, findIdx?_append,
      findIdx?_eq_none_iff.mpr hfirst, cons_append, findIdx?_cons, hp]
    simp
  refine ⟨fragments.eraseIdx (before.length + own₁.length), ?_, ?_⟩
  · unfold takeAt
    rw [hidx, Option.bind_eq_bind, Option.bind_some, hvisit, hpos, append_assoc]
    simp
  · rw [toList_eraseIdx, hlist, eraseIdx_append_of_length_le (by omega),
      Nat.add_sub_cancel_left, append_assoc, eraseIdx_append_of_length_le le_rfl]
    simp

/-- **The reassembly loop collects the blocks in order and leaves the other fragments alone.**
Induction on the offsets that are left; the fragments of this number that are left are those of
these offsets. -/
lemma reassemble_eq (hbs : 0 < blockSize) (ht : Sendable t) {m i : ℕ}
    (hm : i + m = chunkCount blockSize t) (fb : List UInt8)
    {fragments : SearchTree (UInt64 × List Value)}
    {before own after : List (UInt64 × List Value)} (hsorted : Sorted ltKey fragments.toList)
    (hlist : fragments.toList = before ++ (own ++ after)) (hbefore : ∀ e ∈ before, e.1 < seq)
    (hafter : ∀ e ∈ after, seq < e.1)
    (hown : own.Perm ((range' i m).map fun bn => (seq, piece blockSize t bn))) :
    ∃ rest, reassemble seq (range' i m) (fb, fragments) =
        some (fb ++ (range' i m).flatMap (block blockSize t), rest) ∧
      rest.toList = before ++ after := by
  induction m generalizing i fb fragments own with
  | zero =>
    refine ⟨fragments, by simp [reassemble], ?_⟩
    rw [hlist, perm_nil.mp hown, nil_append]
  | succ m ih =>
    have hi : i < chunkCount blockSize t := by omega
    rw [range'_succ, map_cons] at hown
    -- split at the first fragment of this number that is the piece with offset `i`
    have hmem : (seq, piece blockSize t i) ∈ own := hown.mem_iff.mpr mem_cons_self
    obtain ⟨own₁, own₂, rfl, hnot⟩ := eq_append_cons_of_mem hmem
    have hpiece : ∀ e ∈ own₁ ++ (seq, piece blockSize t i) :: own₂,
        ∃ bn < chunkCount blockSize t, e = (seq, piece blockSize t bn) := by
      intro e he
      have he' := hown.mem_iff.mp he
      rw [← map_cons (f := fun bn => (seq, piece blockSize t bn)), ← range'_succ, mem_map] at he'
      obtain ⟨bn, hbn, rfl⟩ := he'
      rw [mem_range'_1] at hbn
      exact ⟨bn, by omega, rfl⟩
    have hfirst : ∀ e ∈ own₁, isAt (UInt32.ofNat i) e = false := by
      intro e he
      obtain ⟨bn, hbn, rfl⟩ := hpiece e (mem_append_left _ he)
      rw [Bool.eq_false_iff]
      intro hat
      rw [(isAt_piece hbs ht hi hbn).mp hat] at he
      exact hnot he
    obtain ⟨rest, htake, hrest⟩ := takeAt_eq hsorted hlist hbefore
      (fun e he => by obtain ⟨bn, _, rfl⟩ := hpiece e he; rfl) hafter hfirst
      ((isAt_piece hbs ht hi hi).mpr rfl)
    have hown' : (own₁ ++ own₂).Perm
        ((range' (i + 1) m).map fun bn => (seq, piece blockSize t bn)) :=
      (perm_middle.symm.trans hown).cons_inv
    obtain ⟨last, hlast, hlist'⟩ := ih (by omega) (fb ++ block blockSize t i)
      (hsorted.sublist (by simp [hrest, hlist])) hrest hown'
    refine ⟨last, ?_, hlist'⟩
    unfold reassemble at hlast ⊢
    rw [range'_succ, foldlM_cons]
    simp only [htake, castOpaque_piece ht, Option.bind_eq_bind, Option.bind_some, Option.pure_def]
    rw [flatMap_cons, ← append_assoc]
    exact hlast

end Reassemble

/-! ## The element as a reassembly buffer -/

/-- The duplicate check, on the stored fragments as a set: some fragment of this number is there,
and some fragment of this or a greater number has this offset. -/
def taken (stored : List (List Value)) (f : List Value) : Bool :=
  stored.any (seqNum · = seqNum f) &&
    stored.any fun h => decide (seqNum f ≤ seqNum h) && decide (offsetOf h = offsetOf f)

def tupleOf (ts : List (List Value)) (seq : UInt64) : List Value :=
  (ts.find? (seqNum · = seq)).getD []

def total (blockSize : ℕ) (ts : List (List Value)) (seq : UInt64) : ℕ :=
  chunkCount blockSize (tupleOf ts seq)

def received (t : List Value) : List Value :=
  t.take (SEQ + 1) ++ (((Tuple.xdrUnmarshal 0).run (bytes t)).map (·.1.fields)).getD []

def IsPiece (blockSize : ℕ) (ts : List (List Value)) (f : List Value) : Prop :=
  ∃ t ∈ ts, ∃ bn < chunkCount blockSize t, f = piece blockSize t bn

/-- The multimap holds the pending fragments of a reassembly buffer, and the output queue the
tuples of the keys it has completed. -/
structure Refines (blockSize : ℕ) (ts : List (List Value)) (s : Defrag)
    (b : Reassembly.Buffer (List Value) UInt64) : Prop where
  sorted : Sorted ltKey s.fragments.toList
  perm : s.fragments.toList.Perm (b.pending.map fun f => (seqNum f, f))
  nodup : b.pending.Nodup
  isPiece : ∀ f ∈ b.pending, IsPiece blockSize ts f
  tuples : s.tuples = b.done.map fun seq => received (tupleOf ts seq)

section Refinement

variable {blockSize : ℕ} {ts : List (List Value)}

lemma tupleOf_seqNum (hseq : (ts.map seqNum).Nodup) {t : List Value} (ht : t ∈ ts) :
    tupleOf ts (seqNum t) = t := by
  unfold tupleOf
  obtain ⟨u, hu⟩ : ∃ u, ts.find? (seqNum · = seqNum t) = some u :=
    Option.isSome_iff_exists.mp (List.find?_isSome.mpr ⟨t, ht, by simp⟩)
  have hkey : seqNum u = seqNum t := by simpa using List.find?_some hu
  rw [hu]
  exact inj_on_of_nodup_map hseq (List.mem_of_find?_eq_some hu) ht hkey

variable (hbs : 0 < blockSize) (hts : ∀ t ∈ ts, Sendable t) (hseq : (ts.map seqNum).Nodup)

include hbs hts

lemma isAt_iff {f h : List Value} (hf : IsPiece blockSize ts f) (hh : IsPiece blockSize ts h)
    (seq : UInt64) : isAt (offsetOf f) (seq, h) = decide (offsetOf h = offsetOf f) := by
  obtain ⟨t, ht, i, hi, rfl⟩ := hf
  obtain ⟨u, hu, j, hj, rfl⟩ := hh
  have hi' := hi.trans (chunkCount_lt hbs (hts t ht))
  have hj' := hj.trans (chunkCount_lt hbs (hts u hu))
  unfold isAt
  rw [int64At_offset_piece (hts u hu), Bool.eq_iff_iff,
    beq_iff_eq, Option.some.injEq, decide_eq_true_eq, ← UInt32.toNat_inj,
    offsetOf_piece hbs (hts t ht) hi, offsetOf_piece hbs (hts u hu) hj]
  exact ⟨int64_ofNat_inj hj' hi', fun h => h ▸ rfl⟩

lemma any_fromFind {s : Defrag} {b : Reassembly.Buffer (List Value) UInt64}
    (h : Refines blockSize ts s b) {f : List Value} (hf : IsPiece blockSize ts f) :
    (fromFind s.fragments (seqNum f)).any (isAt (offsetOf f)) = taken b.pending f := by
  have hany : ∀ p : UInt64 × List Value → Bool, s.fragments.toList.any p =
      b.pending.any fun g => p (seqNum g, g) := by
    intro p
    rw [h.perm.any_eq, any_map]
    rfl
  rw [fromFind_eq h.sorted, hany]
  unfold taken
  split_ifs with hsib
  · rw [hsib, Bool.true_and, any_filter, hany, Bool.eq_iff_iff, any_eq_true, any_eq_true]
    refine exists_congr fun g => and_congr_right fun hg => ?_
    rw [isAt_iff hbs hts hf (h.isPiece g hg)]
  · rw [Bool.not_eq_true] at hsib
    rw [hsib]
    rfl

include hseq

lemma IsPiece.ext {f h : List Value} (hf : IsPiece blockSize ts f) (hh : IsPiece blockSize ts h)
    (hkey : seqNum f = seqNum h) (hoff : offsetOf f = offsetOf h) : f = h := by
  obtain ⟨t, ht, i, hi, rfl⟩ := hf
  obtain ⟨u, hu, j, hj, rfl⟩ := hh
  rw [seqNum_piece (hts t ht), seqNum_piece (hts u hu)] at hkey
  obtain rfl := inj_on_of_nodup_map hseq ht hu hkey
  rw [← UInt32.toNat_inj, offsetOf_piece hbs (hts t ht) hi, offsetOf_piece hbs (hts t ht) hj]
    at hoff
  rw [hoff]

omit hbs in
lemma perm_pieces {stored : List (List Value)} (hnodup : stored.Nodup)
    (hpiece : ∀ g ∈ stored, IsPiece blockSize ts g) {t : List Value} (ht : t ∈ ts)
    (hcount : stored.countP (seqNum · = seqNum t) = chunkCount blockSize t) :
    (stored.filter (seqNum · = seqNum t)).Perm (pieces blockSize t) := by
  have hsub : stored.filter (seqNum · = seqNum t) ⊆ pieces blockSize t := by
    intro g hg
    obtain ⟨hg, hkey⟩ := mem_filter.mp hg
    obtain ⟨u, hu, bn, hbn, rfl⟩ := hpiece g hg
    rw [decide_eq_true_eq, seqNum_piece (hts u hu)] at hkey
    obtain rfl := inj_on_of_nodup_map hseq hu ht hkey
    exact mem_map_of_mem (mem_range.mpr hbn)
  refine (subperm_of_subset (hnodup.filter _) hsub).perm_of_length_le ?_
  rw [pieces, length_map, length_range, ← hcount, countP_eq_length_filter]

omit hseq in
lemma reassemble_pieces {t : List Value} (ht : t ∈ ts) {stored : List (List Value)}
    {fragments : SearchTree (UInt64 × List Value)} (hsorted : Sorted ltKey fragments.toList)
    (hperm : fragments.toList.Perm (stored.map fun g => (seqNum g, g)))
    (hpieces : (stored.filter (seqNum · = seqNum t)).Perm (pieces blockSize t)) :
    ∃ rest, reassemble (seqNum t) (List.range (chunkCount blockSize t)) ([], fragments) =
        some (bytes t, rest) ∧ rest.toList = fragments.toList.filter (·.1 ≠ seqNum t) := by
  have hsplit := toList_split hsorted (seqNum t)
  have hown : (fragments.toList.filter (·.1 = seqNum t)).Perm
      ((range' 0 (chunkCount blockSize t)).map fun bn => (seqNum t, piece blockSize t bn)) := by
    have hmap := (hperm.filter (·.1 = seqNum t)).trans
      (List.Perm.of_eq (filter_map (f := fun g => (seqNum g, g))))
    refine hmap.trans ((hpieces.map _).trans (List.Perm.of_eq ?_))
    rw [pieces, map_map, range_eq_range']
    exact map_congr_left fun bn _ => by
      rw [Function.comp_apply, seqNum_piece (hts t ht)]
  obtain ⟨rest, hrest, hlist⟩ := reassemble_eq hbs (hts t ht) (Nat.zero_add _) [] hsorted hsplit
    (fun e he => by simpa using (mem_filter.mp he).2)
    (fun e he => by simpa using (mem_filter.mp he).2) hown
  rw [← range_eq_range', flatMap_block hbs, nil_append] at hrest
  refine ⟨rest, hrest, ?_⟩
  rw [hlist]
  conv_rhs => rw [hsplit]
  rw [filter_append, filter_append, filter_filter, filter_filter,
    filter_filter]
  have hnil : fragments.toList.filter (fun a => decide (a.1 ≠ seqNum t) && decide (a.1 = seqNum t))
      = [] := by
    rw [filter_eq_nil_iff]
    simp
  rw [hnil, nil_append]
  congr 1
  · apply filter_congr
    intro a _
    by_cases hlt : a.1 < seqNum t
    · simp [UInt64.ne_of_lt hlt]
    · simp [hlt]
  · apply filter_congr
    intro a _
    by_cases hlt : seqNum t < a.1
    · simp [(UInt64.ne_of_lt hlt).symm]
    · simp [hlt]

omit hbs hts hseq in
lemma copy_piece {t : List Value} (ht : Sendable t) (bn : ℕ) (fields : List Value) :
    (piece blockSize t bn).take (SEQ + 1) ++ fields ++ (piece blockSize t bn).drop (SEQ + 4) =
      t.take (SEQ + 1) ++ fields := by
  have hheader := length_take_header ht
  have hlength : (piece blockSize t bn).length = SEQ + 4 := by
    unfold piece fragmentOf
    rw [length_append, hheader]
    rfl
  rw [drop_of_length_le hlength.le, append_nil]
  unfold piece fragmentOf
  rw [take_left' hheader]

omit hbs hts hseq in
lemma defragment_piece (hbs : 0 < blockSize) {t : List Value} (ht : Sendable t) (s : Defrag)
    (bn : ℕ) : s.defragment (piece blockSize t bn) =
      if (fromFind s.fragments (seqNum t)).any (isAt (offsetOf (piece blockSize t bn))) then some s
      else if count (s.fragments.insertEqual ltKey (seqNum t, piece blockSize t bn)) (seqNum t) =
          chunkCount blockSize t then
        (reassemble (seqNum t) (List.range (chunkCount blockSize t))
          ([], s.fragments.insertEqual ltKey (seqNum t, piece blockSize t bn))).bind fun assembled =>
            ((Tuple.xdrUnmarshal 0).run assembled.1).bind fun u =>
              some ⟨assembled.2, s.tuples ++ [t.take (SEQ + 1) ++ u.1.fields]⟩
      else some ⟨s.fragments.insertEqual ltKey (seqNum t, piece blockSize t bn), s.tuples⟩ := by
  obtain ⟨i, hi⟩ := Option.isSome_iff_exists.mp ht.seq
  have hread : (int64At SEQ (piece blockSize t bn)).map Int64.toUInt64 = some (seqNum t) := by
    rw [int64At_seq_piece ht, seqNum, hi]
    rfl
  have hread₁ : (int64At (SEQ + 1) (piece blockSize t bn)).map toUnsigned =
      some (offsetOf (piece blockSize t bn)) := by
    rw [offsetOf, int64At_offset_piece ht]
    rfl
  have hread₂ : (int64At (SEQ + 2) (piece blockSize t bn)).map toUnsigned =
      some (chunksOf (piece blockSize t bn)) := by
    rw [chunksOf, int64At_chunks_piece ht]
    rfl
  unfold Defrag.defragment
  simp [hread, hread₁, hread₂, chunksOf_piece hbs ht, copy_piece ht]

omit hbs hts hseq in
lemma received_eq {t : List Value} {u : Tuple} {left : List UInt8}
    (hdecode : (Tuple.xdrUnmarshal 0).run (bytes t) = some (u, left)) :
    received t = t.take (SEQ + 1) ++ u.fields := by
  rw [received, hdecode]
  rfl

lemma Refines.defragment {s : Defrag} {b : Reassembly.Buffer (List Value) UInt64}
    (h : Refines blockSize ts s b) {f : List Value} (hf : IsPiece blockSize ts f) :
    ∃ s', s.defragment f = some s' ∧ Refines blockSize ts s'
      (Reassembly.arrive seqNum (total blockSize ts) taken b f) := by
  have hcheck := any_fromFind hbs hts h hf
  have hpiece : ∀ g ∈ f :: b.pending, IsPiece blockSize ts g := by
    rintro g (_ | ⟨_, hg⟩)
    · exact hf
    · exact h.isPiece g hg
  obtain ⟨t, ht, bn, hbn, rfl⟩ := hf
  have hsend := hts t ht
  have hkey : seqNum (piece blockSize t bn) = seqNum t := seqNum_piece hsend bn
  have htotal : total blockSize ts (seqNum t) = chunkCount blockSize t := by
    rw [total, tupleOf_seqNum hseq ht]
  unfold Reassembly.arrive
  rw [hkey] at hcheck ⊢
  rw [defragment_piece hbs hsend, hcheck, htotal]
  by_cases htaken : taken b.pending (piece blockSize t bn)
  · rw [if_pos htaken, if_pos htaken]
    exact ⟨s, rfl, h⟩
  rw [if_neg htaken, if_neg htaken]
  have hnew : piece blockSize t bn ∉ b.pending := by
    intro hmem
    apply htaken
    unfold taken
    rw [Bool.and_eq_true, any_eq_true, any_eq_true]
    exact ⟨⟨_, hmem, by simp⟩, _, hmem, by simp⟩
  have hnodup : (piece blockSize t bn :: b.pending).Nodup := nodup_cons.mpr ⟨hnew, h.nodup⟩
  -- the multimap after the insertion
  have hsorted := sorted_insertEqual (k := (seqNum t, piece blockSize t bn))
    strictWeak_ltKey h.sorted (fun _ _ => trivial) trivial
  have hperm : (s.fragments.insertEqual ltKey (seqNum t, piece blockSize t bn)).toList.Perm
      ((piece blockSize t bn :: b.pending).map fun g => (seqNum g, g)) := by
    rw [map_cons, hkey]
    exact (perm_insertEqual _ _ _).trans (h.perm.cons _)
  have hcountP : (piece blockSize t bn :: b.pending).countP (seqNum · = seqNum t) =
      b.pending.countP (seqNum · = seqNum t) + 1 :=
    countP_cons_of_pos (decide_eq_true hkey)
  have hcount : count (s.fragments.insertEqual ltKey (seqNum t, piece blockSize t bn)) (seqNum t) =
      b.pending.countP (seqNum · = seqNum t) + 1 := by
    rw [count_eq hsorted, hperm.countP_eq, countP_map, ← hcountP]
    rfl
  rw [hcount]
  by_cases hlast : b.pending.countP (seqNum · = seqNum t) + 1 = chunkCount blockSize t
  · rw [if_pos hlast, if_pos hlast]
    obtain ⟨rest, hrest, hlist⟩ := reassemble_pieces hbs hts ht hsorted hperm
      (perm_pieces hts hseq hnodup hpiece ht (hcountP.trans hlast))
    obtain ⟨u, left, hdecode, -⟩ := hsend.decodes
    simp only [hrest, Option.bind_some, hdecode]
    refine ⟨_, rfl, ?_, ?_, h.nodup.filter _, fun g hg => ?_, ?_⟩
    · show Sorted ltKey rest.toList
      rw [hlist]
      exact hsorted.filter _
    · show rest.toList.Perm _
      rw [hlist]
      refine (hperm.filter _).trans (Perm.of_eq ?_)
      rw [filter_map, filter_cons_of_neg (by simp [hkey])]
      rfl
    · exact h.isPiece g (mem_of_mem_filter hg)
    · rw [map_append, h.tuples, map_singleton, tupleOf_seqNum hseq ht, received_eq hdecode]
  · rw [if_neg hlast, if_neg hlast]
    exact ⟨_, rfl, hsorted, hperm, hnodup, hpiece, h.tuples⟩

lemma Refines.pushAll {s : Defrag} {b : Reassembly.Buffer (List Value) UInt64}
    (h : Refines blockSize ts s b) {order : List (List Value)}
    (horder : ∀ f ∈ order, IsPiece blockSize ts f) :
    ∃ s', s.pushAll order = some s' ∧
      Refines blockSize ts s' (Reassembly.run seqNum (total blockSize ts) taken b order) := by
  induction order generalizing s b with
  | nil => exact ⟨s, rfl, h⟩
  | cons f order ih =>
    obtain ⟨s₁, hs₁, h₁⟩ := h.defragment hbs hts hseq (horder f mem_cons_self)
    obtain ⟨s₂, hs₂, h₂⟩ := ih h₁ fun g hg => horder g (mem_cons_of_mem f hg)
    refine ⟨s₂, ?_, h₂⟩
    unfold Defrag.pushAll at hs₂ ⊢
    rw [foldlM_cons, hs₁]
    exact hs₂

end Refinement

/-! ## Which orders are put together -/

/-- A fragment arrives when another one of its tuple is there, and so is the fragment of the same
offset of a tuple with a greater number that is not complete yet. -/
def Overtaken (arrived : List (List Value)) (f : List Value) : Prop :=
  (∃ g ∈ arrived, seqNum g = seqNum f) ∧
    ∃ h ∈ arrived, seqNum f < seqNum h ∧ offsetOf h = offsetOf f ∧
      arrived.countP (seqNum · = seqNum h) < (chunksOf h).toNat

def NoneOvertaken (order : List (List Value)) : Prop :=
  ∀ pre f post, order = pre ++ f :: post → ¬ Overtaken pre f

instance (arrived : List (List Value)) (f : List Value) : Decidable (Overtaken arrived f) :=
  inferInstanceAs (Decidable (_ ∧ _))

lemma noneOvertaken_iff (order : List (List Value)) :
    NoneOvertaken order ↔ ∀ i : Fin order.length, ¬ Overtaken (order.take i) (order.get i) := by
  constructor
  · intro h i
    exact h _ _ (order.drop (i + 1)) (by simp)
  · rintro h pre f post rfl
    have hi := h ⟨pre.length, by simp⟩
    simpa using hi

instance (order : List (List Value)) : Decidable (NoneOvertaken order) :=
  decidable_of_iff _ (noneOvertaken_iff order).symm

/-- The tuple that came out has the header of the tuple sent, and equal fields behind it. -/
def SameFields (t u : List Value) : Prop :=
  u.take (SEQ + 1) = t.take (SEQ + 1) ∧
    List.Forall₂ (fun a b => compareTo a b = .eq) (t.drop (SEQ + 1)) (u.drop (SEQ + 1))

/-- The output queue holds each tuple sent once, and no fragment remains stored. -/
def Reassembled (ts : List (List Value)) (s : Defrag) : Prop :=
  s.fragments.toList = [] ∧ ∃ us, us.Perm ts ∧ List.Forall₂ SameFields us s.tuples

lemma sameFields_received {t : List Value} (ht : Sendable t) : SameFields t (received t) := by
  obtain ⟨u, left, hdecode, hsame⟩ := ht.decodes
  rw [received_eq hdecode]
  constructor
  · rw [take_left' (length_take_header ht)]
  · rwa [drop_left' (length_take_header ht)]

section Orders

variable {blockSize : ℕ} {ts order : List (List Value)} (hbs : 0 < blockSize)
  (hts : ∀ t ∈ ts, Sendable t) (hseq : (ts.map seqNum).Nodup)

include hbs hts

lemma mapM_fragment : ts.mapM (fragment blockSize) = some (ts.map (pieces blockSize)) :=
  mapM_eq_some_map fun t ht => fragment_eq_pieces hbs (hts t ht)

omit hbs hts in
lemma isPiece_of_mem {f : List Value} (hf : f ∈ ts.flatMap (pieces blockSize)) :
    IsPiece blockSize ts f := by
  obtain ⟨t, ht, hf⟩ := mem_flatMap.mp hf
  obtain ⟨bn, hbn, rfl⟩ := mem_map.mp hf
  exact ⟨t, ht, bn, mem_range.mp hbn, rfl⟩

include hseq

lemma nodup_flatMap_pieces : (ts.flatMap (pieces blockSize)).Nodup := by
  rw [nodup_flatMap]
  constructor
  · intro t ht
    refine Nodup.map_on ?_ nodup_range
    intro i hi j hj hij
    rw [← offsetOf_piece hbs (hts t ht) (mem_range.mp hi), hij,
      offsetOf_piece hbs (hts t ht) (mem_range.mp hj)]
  · refine Pairwise.imp_of_mem ?_ (pairwise_map.mp hseq)
    intro t u ht hu hne f hft hfu
    obtain ⟨i, -, rfl⟩ := mem_map.mp hft
    obtain ⟨j, -, hj⟩ := mem_map.mp hfu
    apply hne
    rw [← seqNum_piece (hts t ht) i, ← hj, seqNum_piece (hts u hu)]

omit hbs in
lemma countP_flatMap_pieces {t : List Value} (ht : t ∈ ts) :
    (ts.flatMap (pieces blockSize)).countP (seqNum · = seqNum t) = chunkCount blockSize t := by
  obtain ⟨ts₁, ts₂, rfl⟩ := append_of_mem ht
  have hother : ∀ us : List (List Value), (∀ u ∈ us, u ∈ ts₁ ++ t :: ts₂) →
      (∀ u ∈ us, seqNum u ≠ seqNum t) →
      (us.flatMap (pieces blockSize)).countP (seqNum · = seqNum t) = 0 := by
    intro us hus hne
    rw [countP_eq_zero]
    intro f hf
    obtain ⟨u, hu, hf⟩ := mem_flatMap.mp hf
    obtain ⟨bn, -, rfl⟩ := mem_map.mp hf
    rw [decide_eq_true_eq, seqNum_piece (hts u (hus u hu))]
    exact hne u hu
  have hself : (pieces blockSize t).countP (seqNum · = seqNum t) = chunkCount blockSize t := by
    rw [countP_eq_length.mpr, pieces, length_map, length_range]
    intro f hf
    obtain ⟨bn, -, rfl⟩ := mem_map.mp hf
    exact decide_eq_true (seqNum_piece (hts t ht) bn)
  rw [map_append, map_cons, nodup_append, nodup_cons] at hseq
  obtain ⟨-, ⟨hnot₂, -⟩, hdisj⟩ := hseq
  rw [flatMap_append, flatMap_cons, countP_append, countP_append, hself,
    hother ts₁ (fun u hu => mem_append_left _ hu), hother ts₂, Nat.zero_add, Nat.add_zero]
  · exact fun u hu => mem_append_right _ (mem_cons_of_mem t hu)
  · exact fun u hu heq => hnot₂ (heq ▸ mem_map_of_mem hu)
  · exact fun u hu heq => hdisj _ (mem_map_of_mem hu) _ mem_cons_self heq

variable (horder : order.Perm (ts.flatMap (pieces blockSize)))

include horder

omit hbs in
lemma complete_order : Reassembly.Complete seqNum (total blockSize ts) order := by
  intro f hf
  obtain ⟨t, ht, bn, -, rfl⟩ := isPiece_of_mem (horder.mem_iff.mp hf)
  rw [seqNum_piece (hts t ht), horder.countP_eq, countP_flatMap_pieces hts hseq ht, total,
    tupleOf_seqNum hseq ht]

lemma taken_waiting_iff {pre post : List (List Value)} {f : List Value}
    (hsplit : order = pre ++ f :: post) :
    taken (Reassembly.waiting seqNum (total blockSize ts) pre) f ↔ Overtaken pre f := by
  have hcomplete := complete_order hts hseq horder
  have hpiece : ∀ g ∈ order, IsPiece blockSize ts g := fun g hg =>
    isPiece_of_mem (horder.mem_iff.mp hg)
  have hnodup : order.Nodup := horder.nodup_iff.mpr (nodup_flatMap_pieces hbs hts hseq)
  subst hsplit
  have hlt := hcomplete.countP_lt
  have hchunks : ∀ g ∈ pre, (chunksOf g).toNat = total blockSize ts (seqNum g) := by
    intro g hg
    obtain ⟨t, ht, bn, -, rfl⟩ := hpiece g (mem_append_left _ hg)
    rw [chunksOf_piece hbs (hts t ht), seqNum_piece (hts t ht), total, tupleOf_seqNum hseq ht]
  have hnot : f ∉ pre := fun hmem =>
    (nodup_append.mp hnodup).2.2 f hmem f mem_cons_self rfl
  unfold taken Reassembly.waiting
  simp only [Bool.and_eq_true, any_eq_true, mem_filter, decide_eq_true_eq]
  constructor
  · rintro ⟨⟨g, ⟨hg, -⟩, hgf⟩, h, ⟨hh, hopen⟩, hle, hoff⟩
    refine ⟨⟨g, hg, hgf⟩, h, hh, ?_, hoff, by rwa [hchunks h hh]⟩
    rcases UInt64.lt_or_eq_of_le hle with hlt' | heq
    · exact hlt'
    · have hfh := IsPiece.ext hbs hts hseq (hpiece f (by simp))
        (hpiece h (mem_append_left _ hh)) heq hoff.symm
      exact absurd (hfh ▸ hh) hnot
  · rintro ⟨⟨g, hg, hgf⟩, h, hh, hlt', hoff, hopen⟩
    refine ⟨⟨g, ⟨hg, ?_⟩, hgf⟩, h, ⟨hh, ?_⟩, le_of_lt hlt', hoff⟩
    · rw [hgf]
      omega
    · rwa [← hchunks h hh]

lemma perm_done {b : Reassembly.Buffer (List Value) UInt64}
    (htracks : Reassembly.Tracks seqNum (total blockSize ts) order b) :
    (b.done.map (tupleOf ts)).Perm ts := by
  have hcomplete := complete_order hts hseq horder
  have hkeys : b.done.Perm (ts.map seqNum) := by
    refine (perm_ext_iff_of_nodup htracks.nodup hseq).mpr fun k => ?_
    rw [htracks.done, mem_map]
    constructor
    · rintro ⟨⟨f, hf, rfl⟩, -⟩
      obtain ⟨t, ht, bn, -, rfl⟩ := isPiece_of_mem (horder.mem_iff.mp hf)
      exact ⟨t, ht, (seqNum_piece (hts t ht) bn).symm⟩
    · rintro ⟨t, ht, rfl⟩
      have hfirst : piece blockSize t 0 ∈ order := horder.mem_iff.mpr <|
        mem_flatMap.mpr ⟨t, ht, mem_map_of_mem (mem_range.mpr (chunkCount_pos hbs (hts t ht)))⟩
      rw [← seqNum_piece (hts t ht) 0]
      exact ⟨⟨_, hfirst, rfl⟩, hcomplete _ hfirst⟩
  refine (hkeys.map _).trans (Perm.of_eq ?_)
  rw [map_map]
  conv_rhs => rw [← map_id' ts]
  exact map_congr_left fun t ht => tupleOf_seqNum hseq ht

end Orders

lemma taken_perm (l l' : List (List Value)) (f : List Value) (h : l.Perm l') :
    taken l f = taken l' f := by
  unfold taken
  rw [h.any_eq, h.any_eq]

lemma taken_sibling (l : List (List Value)) (f : List Value) (h : taken l f) :
    ∃ g ∈ l, seqNum g = seqNum f := by
  unfold taken at h
  rw [Bool.and_eq_true] at h
  simpa using h.1

lemma refines_empty {blockSize : ℕ} {ts : List (List Value)} :
    Refines blockSize ts {} ⟨[], []⟩ where
  sorted := Pairwise.nil
  perm := Perm.nil
  nodup := nodup_nil
  isPiece _ hf := absurd hf not_mem_nil
  tuples := rfl

/-- **Fragmentation and reassembly compose to the identity exactly when no fragment is overtaken.**
The fragments of any tuples with different sequence numbers are pushed in any order, each once.
Afterwards the output queue holds each tuple once and no fragment remains stored if and only if no
fragment arrived after another one of its tuple while an incomplete tuple of a greater number had
its fragment of the same offset in the map.
Hyps: `Sendable` — header and sequence number present, the payload marshals and decodes back -/
theorem defrag_round_trip_iff {blockSize : ℕ} (hbs : 0 < blockSize) {ts : List (List Value)}
    (hts : ∀ t ∈ ts, Sendable t) (hseq : (ts.map seqNum).Nodup)
    {fragments : List (List (List Value))} (hfragments : ts.mapM (fragment blockSize) = some fragments)
    {order : List (List Value)} (horder : order.Perm fragments.flatten) :
    (∃ s, pushAll {} order = some s ∧ Reassembled ts s) ↔ NoneOvertaken order := by
  rw [mapM_fragment hbs hts, Option.some.injEq] at hfragments
  rw [← hfragments] at horder
  have hcomplete := complete_order hts hseq horder
  have hpiece : ∀ f ∈ order, IsPiece blockSize ts f := fun f hf =>
    isPiece_of_mem (horder.mem_iff.mp hf)
  obtain ⟨s, hs, hrefines⟩ := Refines.pushAll hbs hts hseq refines_empty hpiece
  have hpending : s.fragments.toList = [] ↔
      (Reassembly.run seqNum (total blockSize ts) taken ⟨[], []⟩ order).pending = [] := by
    rw [← length_eq_zero_iff, hrefines.perm.length_eq, length_map,
      length_eq_zero_iff]
  have hsettled := Reassembly.pending_run_eq_nil_iff taken_perm taken_sibling hcomplete
  have hnone : NoneOvertaken order ↔ ∀ pre f post, order = pre ++ f :: post →
      taken (Reassembly.waiting seqNum (total blockSize ts) pre) f = false := by
    refine forall₃_congr fun pre f post => forall_congr' fun hsplit => ?_
    rw [← taken_waiting_iff hbs hts hseq horder hsplit, Bool.not_eq_true]
  constructor
  · rintro ⟨s', hs', hnil, -⟩
    obtain rfl := Option.some.inj (hs.symm.trans hs')
    exact hnone.mpr (hsettled.mp (hpending.mp hnil))
  · intro hover
    have hdup := hnone.mp hover
    refine ⟨s, hs, hpending.mpr (hsettled.mpr hdup), ?_⟩
    have htracks : Reassembly.Tracks seqNum (total blockSize ts) ([] ++ order)
        (Reassembly.run seqNum (total blockSize ts) taken ⟨[], []⟩ order) :=
      Reassembly.Tracks.run taken_perm hcomplete Reassembly.tracks_nil hdup
    have hdone := perm_done hbs hts hseq horder htracks
    refine ⟨_, hdone, ?_⟩
    rw [hrefines.tuples, forall₂_map_left_iff, forall₂_map_right_iff,
      forall₂_same]
    intro seq hmem
    exact sameFields_received (hts _ (hdone.mem_iff.mp (mem_map_of_mem hmem)))

/-- A tuple with one payload field, of a source that numbers its tuples. -/
def numbered (seq : Int64) : List Value :=
  [.str [98], .str [97], .null, .null, .null, .null, .int64 1, .int64 seq, .int64 5]

lemma sendable_numbered : ∀ t ∈ [numbered 1, numbered 2], Sendable t := by
  rintro t (_ | ⟨_, _ | ⟨_, h⟩⟩)
  · exact ⟨rfl, rfl, by decide, ⟨0, [.int64 5], false⟩, [], rfl, by decide⟩
  · exact ⟨rfl, rfl, by decide, ⟨0, [.int64 5], false⟩, [], rfl, by decide⟩
  · cases h

theorem defrag_round_trip_interleaved :
    ∃ s, pushAll {} [piece 8 (numbered 1) 0, piece 8 (numbered 2) 1, piece 8 (numbered 2) 0,
      piece 8 (numbered 1) 1] = some s ∧ Reassembled [numbered 1, numbered 2] s :=
  (defrag_round_trip_iff (Nat.succ_pos 7) sendable_numbered (by decide)
    (mapM_fragment (Nat.succ_pos 7) sendable_numbered)
    (List.Perm.cons _ (reverse_perm [piece 8 (numbered 1) 1, piece 8 (numbered 2) 0,
      piece 8 (numbered 2) 1]))).mpr (by decide)

/-- **A fragment is lost.** Two tuples of one source, two fragments each. The second fragment of
tuple 1 arrives when the first is stored and so is the second fragment of tuple 2; the duplicate
check takes it for a copy of that one, and tuple 1 never comes out. -/
theorem defrag_drops_overtaken :
    (∀ t ∈ [numbered 1, numbered 2], Sendable t) ∧
      ([numbered 1, numbered 2].map seqNum).Nodup ∧
      ∃ fragments order s, [numbered 1, numbered 2].mapM (fragment 8) = some fragments ∧
        order.Perm fragments.flatten ∧ pushAll {} order = some s ∧
        s.tuples.length = 1 ∧ ¬ Reassembled [numbered 1, numbered 2] s := by
  have hrun : (pushAll {} [piece 8 (numbered 1) 0, piece 8 (numbered 2) 1, piece 8 (numbered 1) 1,
      piece 8 (numbered 2) 0]).map (fun s => (s.fragments.toList.length, s.tuples.length)) =
        some (1, 1) := by decide
  obtain ⟨s, hs, hlengths⟩ := Option.map_eq_some_iff.mp hrun
  obtain ⟨hstored, houtput⟩ := Prod.mk.inj hlengths
  have hperm : ([piece 8 (numbered 2) 1] ++ [piece 8 (numbered 1) 1, piece 8 (numbered 2) 0]).Perm
      ([piece 8 (numbered 1) 1, piece 8 (numbered 2) 0] ++ [piece 8 (numbered 2) 1]) :=
    perm_append_comm
  refine ⟨sendable_numbered, by decide, _, _, s, mapM_fragment (Nat.succ_pos 7) sendable_numbered,
    hperm.cons (piece 8 (numbered 1) 0), hs, houtput, ?_⟩
  rintro ⟨hnil, -⟩
  rw [hnil] at hstored
  exact absurd hstored (by decide)

end Defrag

end P2.Net
