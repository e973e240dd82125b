import Mathlib.Data.List.Induction
import P2.Net.Defrag

/-!
# Fragments of several sources at one element

Each source numbers its own tuples, so two sources can use one sequence number. `fragments_` is
keyed by the number alone: neither the count that decides completion nor the loop that collects the
blocks looks at the source. `sources_kept_apart` says when that does no harm.
-/

namespace P2.Net.Defrag

open P2.Value P2.Lib Frag List SearchTree

structure Sending where
  blockSize : ℕ
  pos : 0 < blockSize
  tuple : List Value
  sendable : Sendable tuple

namespace Sending

def seq (t : Sending) : UInt64 := seqNum t.tuple

def chunks (t : Sending) : ℕ := chunkCount t.blockSize t.tuple

def part (t : Sending) (bn : ℕ) : List Value := piece t.blockSize t.tuple bn

lemma seqNum_part (t : Sending) (bn : ℕ) : seqNum (t.part bn) = t.seq := seqNum_piece t.sendable bn

lemma src_part (t : Sending) (bn : ℕ) : (t.part bn)[SRC]? = t.tuple[SRC]? := by
  have hheader := length_take_header t.sendable
  unfold part piece fragmentOf
  rw [List.getElem?_append_left (by rw [hheader]; decide), List.getElem?_take_of_lt (by decide)]

lemma isAt_part (t : Sending) {bn : ℕ} (hbn : bn < t.chunks) :
    isAt (offsetOf (t.part bn)) (t.seq, t.part bn) := by
  have hpiece : IsPiece t.blockSize [t.tuple] (t.part bn) :=
    ⟨t.tuple, mem_singleton_self _, bn, hbn, rfl⟩
  have hsend : ∀ u ∈ [t.tuple], Sendable u := by
    intro u hu
    rw [mem_singleton.mp hu]
    exact t.sendable
  rw [isAt_iff t.pos hsend hpiece hpiece]
  exact decide_eq_true rfl

end Sending

def Told (ts : List Sending) : Prop :=
  ∀ t ∈ ts, ∀ u ∈ ts, t.tuple[SRC]? = u.tuple[SRC]? → t.seq = u.seq → t = u

/-- No fragment of another source is stored under the number of this one. -/
def Undisturbed (s : Defrag) (f : List Value) : Prop :=
  ∀ e ∈ s.fragments.toList, e.1 = seqNum f → e.2[SRC]? = f[SRC]?

def KeptApart (order : List (List Value)) : Prop :=
  ∀ pre f post s, order = pre ++ f :: post → pushAll {} pre = some s → Undisturbed s f

/-- The fragments stored under one number are of one source, and what came out was sent. -/
structure Apart (ts : List Sending) (s : Defrag) : Prop where
  sorted : Sorted ltKey s.fragments.toList
  nodup : s.fragments.toList.Nodup
  stored : ∀ e ∈ s.fragments.toList, ∃ t ∈ ts, ∃ bn < t.chunks, e = (t.seq, t.part bn)
  source : ∀ e ∈ s.fragments.toList, ∀ e' ∈ s.fragments.toList, e.1 = e'.1 →
    e.2[SRC]? = e'.2[SRC]?
  output : ∀ u ∈ s.tuples, ∃ t ∈ ts, SameFields t.tuple u

section Step

variable {ts : List Sending} {s : Defrag} {t : Sending} {bn : ℕ}

lemma apart_empty : Apart ts {} where
  sorted := Pairwise.nil
  nodup := nodup_nil
  stored _ he := absurd he not_mem_nil
  source _ he := absurd he not_mem_nil
  output _ hu := absurd hu not_mem_nil

lemma Apart.of_sublist (h : Apart ts s) {s' : Defrag}
    (hsub : s'.fragments.toList.Sublist s.fragments.toList)
    (houtput : ∀ u ∈ s'.tuples, ∃ t ∈ ts, SameFields t.tuple u) : Apart ts s' where
  sorted := Pairwise.sublist hsub h.sorted
  nodup := h.nodup.sublist hsub
  stored e he := h.stored e (hsub.subset he)
  source e he e' he' := h.source e (hsub.subset he) e' (hsub.subset he')
  output := houtput

lemma Apart.insert (h : Apart ts s) (ht : t ∈ ts) (hbn : bn < t.chunks)
    (hfree : Undisturbed s (t.part bn))
    (hnew : ¬ (fromFind s.fragments t.seq).any (isAt (offsetOf (t.part bn)))) :
    Apart ts ⟨s.fragments.insertEqual ltKey (t.seq, t.part bn), s.tuples⟩ := by
  have hperm := perm_insertEqual ltKey (t.seq, t.part bn) s.fragments
  have hmem : ∀ e, e ∈ (s.fragments.insertEqual ltKey (t.seq, t.part bn)).toList ↔
      e = (t.seq, t.part bn) ∨ e ∈ s.fragments.toList := by
    intro e
    rw [hperm.mem_iff, mem_cons]
  have hsource : ∀ e ∈ s.fragments.toList, e.1 = t.seq → e.2[SRC]? = (t.part bn)[SRC]? := by
    intro e he hkey
    exact hfree e he (hkey.trans (t.seqNum_part bn).symm)
  have hnot : (t.seq, t.part bn) ∉ s.fragments.toList := by
    intro hstored
    apply hnew
    have hown : s.fragments.toList.any (·.1 = t.seq) := any_eq_true.mpr ⟨_, hstored, by simp⟩
    rw [fromFind_eq h.sorted, if_pos hown, any_filter, any_eq_true]
    exact ⟨_, hstored, by simpa using t.isAt_part hbn⟩
  refine ⟨?_, hperm.nodup_iff.mpr (nodup_cons.mpr ⟨hnot, h.nodup⟩), ?_, ?_, h.output⟩
  · exact sorted_insertEqual strictWeak_ltKey h.sorted (fun _ _ => trivial) trivial
  · intro e he
    rcases (hmem e).mp he with rfl | hold
    · exact ⟨t, ht, bn, hbn, rfl⟩
    · exact h.stored e hold
  · intro e he e' he' hkey
    rcases (hmem e).mp he with rfl | hold <;> rcases (hmem e').mp he' with rfl | hold'
    · rfl
    · exact (hsource e' hold' hkey.symm).symm
    · exact hsource e hold hkey
    · exact h.source e hold e' hold' hkey

lemma Apart.perm_pieces (htold : Told ts) (h : Apart ts s) (ht : t ∈ ts)
    (hmem : (t.seq, t.part bn) ∈ s.fragments.toList) (hcount : count s.fragments t.seq = t.chunks) :
    ((s.fragments.toList.map Prod.snd).filter (seqNum · = t.seq)).Perm
      (pieces t.blockSize t.tuple) := by
  have hkeys : ∀ e ∈ s.fragments.toList, seqNum e.2 = e.1 := by
    intro e he
    obtain ⟨u, -, i, -, rfl⟩ := h.stored e he
    exact u.seqNum_part i
  have hinj : (s.fragments.toList.map Prod.snd).Nodup := by
    refine Nodup.map_on ?_ h.nodup
    intro e he e' he' heq
    exact Prod.ext (by rw [← hkeys e he, ← hkeys e' he', heq]) heq
  have hsub : (s.fragments.toList.map Prod.snd).filter (seqNum · = t.seq) ⊆
      pieces t.blockSize t.tuple := by
    intro g hg
    obtain ⟨hg, hkey⟩ := mem_filter.mp hg
    obtain ⟨e, he, rfl⟩ := mem_map.mp hg
    have hseq : e.1 = t.seq := (hkeys e he).symm.trans (of_decide_eq_true hkey)
    have hsrc := h.source e he _ hmem hseq
    obtain ⟨u, hu, i, hi, rfl⟩ := h.stored e he
    obtain rfl := htold u hu t ht (by rwa [u.src_part, t.src_part] at hsrc) hseq
    exact mem_map_of_mem (mem_range.mpr hi)
  refine (subperm_of_subset (hinj.filter _) hsub).perm_of_length_le ?_
  have hlength : ((s.fragments.toList.map Prod.snd).filter (seqNum · = t.seq)).length =
      s.fragments.toList.countP (·.1 = t.seq) := by
    rw [← countP_eq_length_filter, countP_map]
    refine countP_congr fun e he => ?_
    rw [Function.comp_apply, hkeys e he]
  rw [hlength, ← count_eq h.sorted, hcount, pieces, length_map, length_range]
  exact le_rfl

lemma Apart.defragment (htold : Told ts) (h : Apart ts s) (ht : t ∈ ts) (hbn : bn < t.chunks)
    (hfree : Undisturbed s (t.part bn)) :
    ∃ s', s.defragment (t.part bn) = some s' ∧ Apart ts s' := by
  have hstep := defragment_piece t.pos t.sendable s bn
  split_ifs at hstep with hdup hlast
  · exact ⟨s, hstep, h⟩
  · have hinsert := h.insert ht hbn hfree hdup
    have hmem : (t.seq, t.part bn) ∈
        (s.fragments.insertEqual ltKey (t.seq, t.part bn)).toList := by
      rw [(perm_insertEqual ltKey _ s.fragments).mem_iff]
      exact mem_cons_self
    have hpieces := hinsert.perm_pieces htold ht hmem hlast
    have hmap : ((s.fragments.insertEqual ltKey (t.seq, t.part bn)).toList.map Prod.snd).map
        (fun g => (seqNum g, g)) = (s.fragments.insertEqual ltKey (t.seq, t.part bn)).toList := by
      rw [map_map]
      refine (map_congr_left fun e he => ?_).trans (map_id' _)
      obtain ⟨u, -, i, -, rfl⟩ := hinsert.stored e he
      exact congrArg (·, u.part i) (u.seqNum_part i)
    obtain ⟨rest, hrest, hlist⟩ := reassemble_pieces t.pos
      (fun u hu => mem_singleton.mp hu ▸ t.sendable) (mem_singleton_self t.tuple)
      hinsert.sorted (Perm.of_eq hmap.symm) hpieces
    obtain ⟨u, left, hdecode, -⟩ := t.sendable.decodes
    have hrest' : reassemble (seqNum t.tuple) (range (chunkCount t.blockSize t.tuple))
        ([], s.fragments.insertEqual ltKey (seqNum t.tuple, piece t.blockSize t.tuple bn)) =
          some (bytes t.tuple, rest) := hrest
    rw [hrest', Option.bind_some, hdecode, Option.bind_some, ← received_eq hdecode] at hstep
    refine ⟨_, hstep, hinsert.of_sublist ?_ fun v hv => ?_⟩
    · rw [hlist]
      exact filter_sublist
    · rcases mem_append.mp hv with hv | hv
      · exact h.output v hv
      · rw [mem_singleton.mp hv]
        exact ⟨t, ht, sameFields_received t.sendable⟩
  · exact ⟨_, hstep, h.insert ht hbn hfree hdup⟩

lemma Apart.pushAll (htold : Told ts) {order : List (List Value)}
    (horder : ∀ f ∈ order, ∃ t ∈ ts, ∃ bn < t.chunks, f = t.part bn) (hapart : KeptApart order) :
    ∃ s, pushAll {} order = some s ∧ Apart ts s := by
  induction order using reverseRecOn with
  | nil => exact ⟨{}, rfl, apart_empty⟩
  | append_singleton pre f ih =>
    obtain ⟨s, hs, h⟩ := ih (fun g hg => horder g (mem_append_left _ hg)) <| by
      rintro pre' g post s' rfl hs'
      exact hapart pre' g (post ++ [f]) s' (by simp) hs'
    obtain ⟨t, ht, bn, hbn, rfl⟩ := horder f (by simp)
    obtain ⟨s', hs', h'⟩ := h.defragment htold ht hbn (hapart pre _ [] s rfl hs)
    refine ⟨s', ?_, h'⟩
    unfold Defrag.pushAll at hs ⊢
    rw [foldlM_append, hs]
    simpa using hs'

end Step

/-- **Reassembly keeps two sources apart** when no fragment arrives while one of the other source is
stored under its sequence number: then the element does not fail, and every tuple that comes out has
the header, with source address and sequence number, and the payload of one of the two.
Hyps: `Sendable` — header and sequence number present, the payload marshals and decodes back -/
theorem sources_kept_apart {b₁ b₂ : ℕ} (hb₁ : 0 < b₁) (hb₂ : 0 < b₂) {t₁ t₂ : List Value}
    (ht₁ : Sendable t₁) (ht₂ : Sendable t₂) (hsources : t₁[SRC]? ≠ t₂[SRC]?)
    {fragments₁ fragments₂ : List (List Value)} (hfragments₁ : fragment b₁ t₁ = some fragments₁)
    (hfragments₂ : fragment b₂ t₂ = some fragments₂) {order : List (List Value)}
    (horder : order.Perm (fragments₁ ++ fragments₂)) (hapart : KeptApart order) :
    ∃ s, pushAll {} order = some s ∧ ∀ u ∈ s.tuples, SameFields t₁ u ∨ SameFields t₂ u := by
  obtain rfl := Option.some.inj ((fragment_eq_pieces hb₁ ht₁).symm.trans hfragments₁)
  obtain rfl := Option.some.inj ((fragment_eq_pieces hb₂ ht₂).symm.trans hfragments₂)
  let ts : List Sending := [⟨b₁, hb₁, t₁, ht₁⟩, ⟨b₂, hb₂, t₂, ht₂⟩]
  have htold : Told ts := by
    intro t ht u hu hsrc _
    simp only [ts, mem_cons, not_mem_nil, or_false] at ht hu
    rcases ht with rfl | rfl <;> rcases hu with rfl | rfl
    · rfl
    · exact absurd hsrc hsources
    · exact absurd hsrc.symm hsources
    · rfl
  have hparts : ∀ f ∈ order, ∃ t ∈ ts, ∃ bn < t.chunks, f = t.part bn := by
    intro f hf
    rcases mem_append.mp (horder.mem_iff.mp hf) with hf | hf <;>
      obtain ⟨bn, hbn, rfl⟩ := mem_map.mp hf
    · exact ⟨_, mem_cons_self, bn, mem_range.mp hbn, rfl⟩
    · exact ⟨_, mem_cons_of_mem _ mem_cons_self, bn, mem_range.mp hbn, rfl⟩
  obtain ⟨s, hs, h⟩ := Apart.pushAll htold hparts hapart
  refine ⟨s, hs, fun u hu => ?_⟩
  obtain ⟨t, ht, hsame⟩ := h.output u hu
  simp only [ts, mem_cons, not_mem_nil, or_false] at ht
  rcases ht with rfl | rfl
  · exact Or.inl hsame
  · exact Or.inr hsame

def addressed (src : List UInt8) (x y : Int64) : List Value :=
  [.str [98], .str src, .null, .null, .null, .null, .int64 1, .int64 1, .int64 x, .int64 y]

lemma sendable_addressed_a : Sendable (addressed [97] 5 7) :=
  ⟨rfl, rfl, by decide, ⟨0, [.int64 5, .int64 7], false⟩, [], rfl, by decide⟩

lemma sendable_addressed_c : Sendable (addressed [99] 6 8) :=
  ⟨rfl, rfl, by decide, ⟨0, [.int64 6, .int64 8], false⟩, [], rfl, by decide⟩

/-- The fragments of two tuples of one number, one tuple after the other. -/
def inTurn : List (List Value) :=
  [piece 16 (addressed [97] 5 7) 0, piece 16 (addressed [97] 5 7) 1,
    piece 16 (addressed [99] 6 8) 0, piece 16 (addressed [99] 6 8) 1]

lemma keptApart_inTurn : KeptApart inTurn := by
  intro pre f post s horder hs
  have hlist : ∀ l, (pushAll {} pre).map (·.fragments.toList) = some l →
      s.fragments.toList = l := by
    intro l hl
    rw [hs] at hl
    exact Option.some.inj hl
  have hempty : s.fragments.toList = [] → Undisturbed s f := by
    intro hnil e he
    rw [hnil] at he
    cases he
  simp only [inTurn, cons_eq_append_iff, cons.injEq, nil_eq_append_iff,
    reduceCtorEq, and_false, exists_false, or_false] at horder
  rcases horder with ⟨rfl, rfl, -⟩ | ⟨_, rfl, ⟨rfl, rfl, -⟩ | ⟨_, rfl, ⟨rfl, rfl, -⟩ |
    ⟨_, rfl, rfl, rfl, -⟩⟩⟩
  · exact hempty (hlist [] rfl)
  · intro e he _
    rw [hlist [(1, piece 16 (addressed [97] 5 7) 0)] rfl, mem_singleton] at he
    rw [he]
    rfl
  · exact hempty (hlist [] rfl)
  · intro e he _
    rw [hlist [(1, piece 16 (addressed [99] 6 8) 0)] rfl, mem_singleton] at he
    rw [he]
    rfl

theorem sources_kept_apart_in_turn :
    ∃ s, pushAll {} inTurn = some s ∧
      ∀ u ∈ s.tuples, SameFields (addressed [97] 5 7) u ∨ SameFields (addressed [99] 6 8) u := by
  refine sources_kept_apart (Nat.succ_pos 15) (Nat.succ_pos 15) sendable_addressed_a
    sendable_addressed_c ?_ (fragment_eq_pieces (Nat.succ_pos 15) sendable_addressed_a)
    (fragment_eq_pieces (Nat.succ_pos 15) sendable_addressed_c) (List.Perm.of_eq rfl)
    keptApart_inTurn
  intro hsrc
  simp [addressed, SRC] at hsrc

/-- **Two sources are mixed.** Two tuples of one number, two fragments each, arrive alternately,
each tuple's fragments in order. The first fragment of the second source is taken for a copy; its
second one completes the count, and a tuple comes out with the header and second field of the second
source and the first field of the first. -/
theorem sources_mixed :
    Sendable (addressed [97] 5 7) ∧ Sendable (addressed [99] 6 8) ∧
      (addressed [97] 5 7)[SRC]? ≠ (addressed [99] 6 8)[SRC]? ∧
      ∃ fragments₁ fragments₂ order s, fragment 16 (addressed [97] 5 7) = some fragments₁ ∧
        fragment 16 (addressed [99] 6 8) = some fragments₂ ∧
        order.Perm (fragments₁ ++ fragments₂) ∧ fragments₁.Sublist order ∧
        fragments₂.Sublist order ∧ pushAll {} order = some s ∧ ∃ u ∈ s.tuples,
          ¬ SameFields (addressed [97] 5 7) u ∧ ¬ SameFields (addressed [99] 6 8) u := by
  have hrun : (pushAll {} [piece 16 (addressed [97] 5 7) 0, piece 16 (addressed [99] 6 8) 0,
      piece 16 (addressed [99] 6 8) 1, piece 16 (addressed [97] 5 7) 1]).map (·.tuples) =
        some [addressed [99] 5 8] := rfl
  obtain ⟨s, hs, htuples⟩ := Option.map_eq_some_iff.mp hrun
  refine ⟨sendable_addressed_a, sendable_addressed_c, ?_, _, _, _, s,
    fragment_eq_pieces (Nat.succ_pos 15) sendable_addressed_a,
    fragment_eq_pieces (Nat.succ_pos 15) sendable_addressed_c, ?_, ?_, ?_, hs, addressed [99] 5 8,
    ?_, ?_, ?_⟩
  · intro hsrc
    simp [addressed, SRC] at hsrc
  · have hperm : ([piece 16 (addressed [99] 6 8) 0, piece 16 (addressed [99] 6 8) 1] ++
        [piece 16 (addressed [97] 5 7) 1]).Perm ([piece 16 (addressed [97] 5 7) 1] ++
          [piece 16 (addressed [99] 6 8) 0, piece 16 (addressed [99] 6 8) 1]) :=
      perm_append_comm
    exact hperm.cons _
  · exact (sublist_append_right [_, _] [_]).cons_cons _
  · exact (sublist_append_left [_, _] [_]).cons _
  · rw [htuples]
    exact mem_singleton_self _
  · rintro ⟨hheader, -⟩
    simp [addressed, SEQ] at hheader
  · rintro ⟨-, hpayload⟩
    revert hpayload
    decide

end P2.Net.Defrag
