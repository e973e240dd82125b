import P2.Lib.Runs
import P2.Table.Moves
import Mathlib.Data.List.Induction

/-!
# Counting insertions

A `RefTable` keeps a tuple as long as it was inserted more often than its key was removed, from the
call that installed it on: `refTable_counts`.
-/

namespace P2.Table

open P2.Value P2.Lib List Function UInt32

namespace RefTable

variable {S : Schema} {s s' : RefTable} {t u v : Tuple} {n : ℕ}

/-! ## The tuple with a key and its count -/

def slot (s : RefTable) (t : Tuple) : Option (Tuple × ℕ) :=
  (s.common.primaryIndex.findKey s.common.key t).map fun r => (r.tuple, (s.refCount r.addr).toNat)

def put (t : Tuple) : Option (Tuple × ℕ) → Tuple × ℕ
  | none => (t, 1)
  | some (v, n) => if v.compareTo t = .eq then (v, n + 1) else (t, 1)

def take : Option (Tuple × ℕ) → Option (Tuple × ℕ)
  | none => none
  | some (v, n) => if n = 1 then none else some (v, n - 1)

lemma Ok.slot_of_mem (h : s.Ok S) (hu : Typed S.cols u) {r : Ref}
    (hr : r ∈ s.common.primaryIndex.toList) (hsame : sameKey s.common.key r.tuple u) :
    s.slot u = some (r.tuple, (s.refCount r.addr).toNat) := by
  unfold slot
  rcases hfind : s.common.primaryIndex.findKey s.common.key u with _ | found
  · have hnone := h.common.new_of_findKey hu hfind r hr
    rw [hnone] at hsame
    cases hsame
  · obtain ⟨hfound, hsame'⟩ := h.common.mem_of_findKey hu hfind
    rw [h.common.eq_of_found hfound hr hu hsame' hsame]
    rfl

lemma Ok.slot_eq_none (h : s.Ok S) (hu : Typed S.cols u) :
    s.slot u = none ↔
      ∀ r ∈ s.common.primaryIndex.toList, sameKey s.common.key r.tuple u = false := by
  unfold slot
  rw [Option.map_eq_none_iff]
  refine ⟨Index.findKey_eq_none h.common.sorted h.common.typed (hu.on _), fun hnone => ?_⟩
  rcases hfind : s.common.primaryIndex.findKey s.common.key u with _ | found
  · rfl
  · obtain ⟨hfound, hsame⟩ := h.common.mem_of_findKey hu hfind
    rw [hnone found hfound] at hsame
    cases hsame

lemma Ok.exists_of_slot (h : s.Ok S) (hu : Typed S.cols u) (hslot : s.slot u = some (v, n)) :
    ∃ r ∈ s.common.primaryIndex.toList, sameKey s.common.key r.tuple u ∧ r.tuple = v ∧
      (s.refCount r.addr).toNat = n := by
  obtain ⟨r, hfind, hr⟩ := Option.map_eq_some_iff.mp hslot
  obtain ⟨hmem, hsame⟩ := h.common.mem_of_findKey hu hfind
  cases hr
  exact ⟨r, hmem, hsame, rfl, rfl⟩

lemma Ok.slot_eq_of_sameKey (h : s.Ok S) (ht : Typed S.cols t) (hu : Typed S.cols u)
    (hkey : sameKey s.common.key t u) : s.slot u = s.slot t := by
  rcases hslot : s.slot t with _ | ⟨v, n⟩
  · rw [h.slot_eq_none ht] at hslot
    rw [h.slot_eq_none hu]
    intro r hr
    rw [← sameKey_congr S.lawful ht hu (h.common.typed r hr) hkey]
    exact hslot r hr
  · obtain ⟨r, hr, hsame, rfl, rfl⟩ := h.exists_of_slot ht hslot
    exact h.slot_of_mem hu hr (sameKey_trans S.lawful (h.common.typed r hr) ht hu hsame hkey)

lemma Ok.slot_congr (h : s.Ok S) (h' : s'.Ok S) (hkey : s'.common.key = s.common.key)
    (hu : Typed S.cols u)
    (hmem : ∀ r, sameKey s.common.key r.tuple u →
      (r ∈ s'.common.primaryIndex.toList ↔ r ∈ s.common.primaryIndex.toList))
    (hcount : ∀ r ∈ s.common.primaryIndex.toList, sameKey s.common.key r.tuple u →
      s'.refCount r.addr = s.refCount r.addr) : s'.slot u = s.slot u := by
  rcases hslot : s.slot u with _ | ⟨v, n⟩
  · rw [h.slot_eq_none hu] at hslot
    rw [h'.slot_eq_none hu, hkey]
    intro r hr
    by_contra hsame
    rw [Bool.not_eq_false] at hsame
    rw [hslot r ((hmem r hsame).mp hr)] at hsame
    cases hsame
  · obtain ⟨r, hr, hsame, rfl, rfl⟩ := h.exists_of_slot hu hslot
    rw [h'.slot_of_mem hu ((hmem r hsame).mpr hr) (hkey ▸ hsame), hcount r hr hsame]

lemma Ok.sameKey_eq (h : s.Ok S) {r : Ref} (hr : r ∈ s.common.primaryIndex.toList)
    (ht : Typed S.cols t) (hu : Typed S.cols u) (hsame : sameKey s.common.key r.tuple t) :
    sameKey s.common.key r.tuple u = sameKey s.common.key t u := by
  rw [sameKey_comm, sameKey_comm _ t]
  exact sameKey_congr S.lawful (h.common.typed r hr) ht hu hsame

lemma Ok.slot_insertTuple (h : s.Ok S) (ht : t ∈ S.tuples)
    (hnew : ∀ r ∈ s.common.primaryIndex.toList, sameKey s.common.key r.tuple t = false)
    (hu : Typed S.cols u) :
    (s.insertTuple t).slot u = if sameKey s.common.key t u then some (t, 1) else s.slot u := by
  obtain ⟨hok, -, hperm⟩ := h.insertTuple ht hnew
  split_ifs with hsame
  · have hmem : ⟨s.nextAddr, t⟩ ∈ (s.insertTuple t).common.primaryIndex.toList :=
      hperm.mem_iff.mpr mem_cons_self
    rw [hok.slot_of_mem hu hmem hsame]
    show some (t, (update s.refCount s.nextAddr 1 s.nextAddr).toNat) = _
    rw [update_self]
    rfl
  · apply h.slot_congr hok rfl hu
    · intro r hr
      rw [hperm.mem_iff, mem_cons]
      refine ⟨fun hmem => hmem.resolve_left ?_, Or.inr⟩
      rintro rfl
      exact hsame hr
    · intro r hr _
      exact update_of_ne (h.fresh r hr).ne _ _

lemma Ok.setCount (h : s.Ok S) (a : ℕ) (count : UInt32) : (s.setCount a count).Ok S :=
  ⟨h.common, h.fresh⟩

@[simp] lemma refCount_setCount (a : ℕ) (count : UInt32) :
    (s.setCount a count).refCount a = count :=
  update_self ..

lemma sub_one_eq_zero_iff (count : UInt32) : count - 1 = 0 ↔ count.toNat = 1 := by
  rw [← UInt32.toNat_inj, UInt32.toNat_sub, UInt32.toNat_zero, toNat_one]
  have := count.toNat_lt
  omega

lemma Ok.slot_setCount (h : s.Ok S) {r : Ref} (hr : r ∈ s.common.primaryIndex.toList)
    (count : UInt32) (hu : Typed S.cols u) :
    (s.setCount r.addr count).slot u =
      if sameKey s.common.key r.tuple u then some (r.tuple, count.toNat) else s.slot u := by
  have hok := h.setCount r.addr count
  split_ifs with hsame
  · rw [hok.slot_of_mem hu hr hsame]
    show some (r.tuple, (update s.refCount r.addr count r.addr).toNat) = _
    rw [update_self]
  · apply h.slot_congr hok rfl hu
    · intro x _
      exact Iff.rfl
    · intro x hx hxu
      apply update_of_ne
      intro haddr
      rw [h.common.eq_of_addr hx hr haddr] at hxu
      exact hsame hxu

lemma Ok.slot_removeTuple (h : s.Ok S) (ht : Typed S.cols t) {found : Ref}
    (hfind : s.common.primaryIndex.findKey s.common.key t = some found) (hu : Typed S.cols u) :
    (s.removeTuple t found).slot u =
      if sameKey s.common.key found.tuple u then none else s.slot u := by
  have hok := (h.removeTuple ht hfind).1
  obtain ⟨-, hperm⟩ := h.common.removeFound (ht.on _) hfind
  have hfound : found ∈ s.common.primaryIndex.toList := hperm.mem_iff.mpr mem_cons_self
  split_ifs with hsame
  · rw [hok.slot_eq_none hu]
    intro r hr
    have hkeys := sameKey_congr S.lawful (h.common.typed found hfound) hu (hok.common.typed r hr) hsame
    exact hkeys.symm.trans (h.common.ne_of_perm hperm hr).2
  · apply h.slot_congr hok rfl hu
    · intro r hr
      rw [hperm.mem_iff, mem_cons]
      refine ⟨Or.inr, fun hmem => hmem.resolve_left ?_⟩
      rintro rfl
      exact hsame hr
    · intro r _ _
      rfl

/-- No count is at its greatest value when an equal tuple is inserted. -/
def Spare (s : RefTable) : Op → Prop
  | .insert t => ∀ r ∈ s.common.primaryIndex.toList, r.tuple.compareTo t = .eq →
      (s.refCount r.addr).toNat + 1 < 2 ^ 32
  | _ => True

lemma Ok.slot_insert (h : s.Ok S) (ht : t ∈ S.tuples) (hspare : s.Spare (.insert t))
    (hu : Typed S.cols u) : (s.insert t).2.slot u =
      if sameKey s.common.key t u then some (put t (s.slot t)) else s.slot u := by
  have htyped := S.typed t ht
  unfold RefTable.insert
  rcases hfind : s.common.primaryIndex.findKey s.common.key t with _ | found
  · have hnew := h.common.new_of_findKey htyped hfind
    rw [(h.slot_eq_none htyped).mpr hnew]
    exact h.slot_insertTuple ht hnew hu
  · obtain ⟨hfound, hsame⟩ := h.common.mem_of_findKey htyped hfind
    have hkeys := h.sameKey_eq hfound htyped hu hsame
    rw [h.slot_of_mem htyped hfound hsame]
    by_cases hequal : found.tuple.compareTo t = .eq
    · have hcount : (s.refCount found.addr + 1).toNat = (s.refCount found.addr).toNat + 1 := by
        exact Nat.mod_eq_of_lt (hspare found hfound hequal)
      simp only [put, if_pos hequal]
      rw [h.slot_setCount hfound _ hu, hkeys, hcount]
    · have hok := (h.removeTuple htyped hfind).1
      have hnew := h.common.sameKey_removeFound ht hfind
      have hslot := hok.slot_insertTuple ht hnew hu
      simp only [put, if_neg hequal]
      rw [hslot, h.slot_removeTuple htyped hfind hu, hkeys]
      show (if sameKey s.common.key t u then _ else _) = _
      split_ifs
      · rfl
      · rfl

lemma Ok.slot_remove (h : s.Ok S) (ht : Typed S.cols t)
    (hpos : ∀ v n, s.slot t = some (v, n) → 0 < n) (hu : Typed S.cols u) : (s.remove t).2.slot u =
      if sameKey s.common.key t u then take (s.slot t) else s.slot u := by
  unfold RefTable.remove
  rcases hfind : s.common.primaryIndex.findKey s.common.key t with _ | found
  · have hnone := h.common.new_of_findKey ht hfind
    have hslot := (h.slot_eq_none ht).mpr hnone
    split_ifs with hkey
    · rw [h.slot_eq_of_sameKey ht hu hkey, hslot]
      rfl
    · rfl
  · obtain ⟨hfound, hsame⟩ := h.common.mem_of_findKey ht hfind
    have hkeys := h.sameKey_eq hfound ht hu hsame
    have hslot := h.slot_of_mem ht hfound hsame
    have hone : 0 < (s.refCount found.addr).toNat := hpos _ _ hslot
    have hcount : (s.refCount found.addr - 1).toNat = (s.refCount found.addr).toNat - 1 :=
      UInt32.toNat_sub_of_le _ _ hone
    have hzero := sub_one_eq_zero_iff (s.refCount found.addr)
    simp only [refCount_setCount, hslot, take]
    by_cases hlast : (s.refCount found.addr).toNat = 1
    · rw [if_pos (hzero.mpr hlast)]
      have hok := h.setCount found.addr (s.refCount found.addr - 1)
      rw [hok.slot_removeTuple ht hfind hu, h.slot_setCount hfound _ hu]
      show (if sameKey s.common.key found.tuple u then _ else _) = _
      rw [hkeys]
      split_ifs
      · rfl
      · rfl
    · rw [if_neg (mt hzero.mp hlast), if_neg hlast, h.slot_setCount hfound _ hu, hkeys, hcount]

lemma slot_of_isQuiet {op : Op} (hop : op.isQuiet) (t : Tuple) : (s.step op).slot t = s.slot t := by
  obtain ⟨common, hstep, hsilent⟩ := s.step_of_isQuiet hop
  rw [hstep]
  unfold slot
  rw [hsilent.frame.key, hsilent.frame.primaryIndex]

/-! ## The history of a key -/

section History

variable {key : Key} {ops : List Op} {op : Op} {m : ℤ}

/-- The call installs the tuple: no tuple has its key, or a different one has. -/
def Installs (s : RefTable) (t : Tuple) : Prop :=
  (∀ u ∈ s.common.scan, sameKey s.common.key u t = false) ∨
    ∃ u ∈ s.common.scan, sameKey s.common.key u t ∧ u.compareTo t ≠ .eq

def Op.insertsEqual (t : Tuple) : Op → Bool
  | .insert u => t.compareTo u == .eq
  | _ => false

def Op.removesKey (key : Key) (t : Tuple) : Op → Bool
  | .remove u => sameKey key t u
  | _ => false

/-- One, and the insertions of an equal tuple, less the removals of its key. -/
def tally (key : Key) (t : Tuple) (ops : List Op) : ℤ :=
  1 + ops.countP (Op.insertsEqual t) - ops.countP (Op.removesKey key t)

/-- In the run of a new table the tuple is the last one of its key to be installed, and its count
from that call on is `m`. -/
def Installed (key : Key) (ops : List Op) (t : Tuple) (m : ℤ) : Prop :=
  ∃ before after, ops = before ++ .insert t :: after ∧ ((mk' key).run before).Installs t ∧
    (∀ between u rest, after = between ++ .insert u :: rest → sameKey key t u →
      ¬ ((mk' key).run (before ++ .insert t :: between)).Installs u) ∧
    m = tally key t after

def Op.weight (key : Key) (t : Tuple) (op : Op) : ℤ := tally key t [op] - 1

lemma tally_concat (key : Key) (t : Tuple) (ops : List Op) (op : Op) :
    tally key t (ops ++ [op]) = tally key t ops + op.weight key t := by
  unfold Op.weight tally
  rw [countP_append, countP_append]
  push_cast
  ring

lemma Installs.installed (h : ((mk' key).run ops).Installs t) :
    Installed key (ops ++ [.insert t]) t 1 := by
  refine ⟨ops, [], rfl, h, fun between u rest hnil => ?_, rfl⟩
  exact absurd hnil (by simp)

lemma Installed.concat (h : Installed key ops t m) (op : Op)
    (hop : ∀ u, op = .insert u → sameKey key t u → ¬ ((mk' key).run ops).Installs u) :
    Installed key (ops ++ [op]) t (m + op.weight key t) := by
  obtain ⟨before, after, rfl, hinstalls, hlast, rfl⟩ := h
  refine ⟨before, after ++ [op], by simp, hinstalls, fun between u rest hsplit hkey => ?_,
    (tally_concat key t after op).symm⟩
  rcases concat_eq_iff.mp hsplit with ⟨-, hu, rfl⟩ | ⟨rest', -, hafter⟩
  · exact hop u hu.symm hkey
  · exact hlast between u rest' hafter hkey

lemma Installed.cases_concat (h : Installed key (ops ++ [op]) t m) :
    (op = .insert t ∧ ((mk' key).run ops).Installs t ∧ m = 1) ∨
    ∃ m', Installed key ops t m' ∧ m = m' + op.weight key t ∧
      ∀ u, op = .insert u → sameKey key t u → ¬ ((mk' key).run ops).Installs u := by
  obtain ⟨before, after, hsplit, hinstalls, hlast, rfl⟩ := h
  rcases concat_eq_iff.mp hsplit with ⟨rfl, hop, rfl⟩ | ⟨after', rfl, rfl⟩
  · exact Or.inl ⟨hop.symm, hinstalls, rfl⟩
  · refine Or.inr ⟨_, ⟨before, after', rfl, hinstalls, fun between u rest hafter => ?_, rfl⟩,
      tally_concat key t after' op, ?_⟩
    · apply hlast between u (rest ++ [op])
      rw [hafter]
      simp
    · rintro u rfl
      exact hlast after' u [] rfl

lemma Installed.mem_tuples (h : Installed key ops t m) (hops : ∀ op ∈ ops, op.Within S) :
    t ∈ S.tuples := by
  obtain ⟨before, after, rfl, -⟩ := h
  exact hops (.insert t) (mem_append_right _ mem_cons_self)

/-! ## Weights -/

lemma weight_insert_of_equal (h : t.compareTo u = .eq) : (Op.insert u).weight key t = 1 := by
  unfold Op.weight tally
  simp [Op.insertsEqual, Op.removesKey, h]

lemma weight_insert_of_ne (h : t.compareTo u ≠ .eq) : (Op.insert u).weight key t = 0 := by
  unfold Op.weight tally
  simp [Op.insertsEqual, Op.removesKey, h]

lemma weight_remove (key : Key) (t u : Tuple) :
    (Op.remove u).weight key t = if sameKey key t u then -1 else 0 := by
  unfold Op.weight tally
  cases h : sameKey key t u
  · simp [Op.insertsEqual, Op.removesKey, h]
  · simp [Op.insertsEqual, Op.removesKey, h]

lemma weight_of_isQuiet (hop : op.isQuiet) (key : Key) (t : Tuple) : op.weight key t = 0 := by
  cases op with
  | insert u => cases hop
  | remove u => cases hop
  | _ => rfl

/-! ## The slots of a run -/

/-- The slot of a tuple is what the run says about its key: the last tuple installed, with its
count, or nothing if that count is not positive. -/
def Agrees (key : Key) (ops : List Op) (t : Tuple) : Option (Tuple × ℕ) → Prop
  | none => ∀ w m, Installed key ops w m → sameKey key w t → m ≤ 0
  | some (v, n) => 0 < n ∧ sameKey key v t ∧ Installed key ops v n ∧
      ∀ w m, Installed key ops w m → sameKey key w t → w = v ∧ m = n

def Tallied (S : Schema) (key : Key) (ops : List Op) : Prop :=
  ∀ t, Typed S.cols t → Agrees key ops t (((mk' key).run ops).slot t)

lemma Agrees.concat {slot : Option (Tuple × ℕ)} (h : Agrees key ops t slot)
    (hop : ∀ w m, Installed key ops w m → sameKey key w t →
      op.weight key w = 0 ∧ ∀ u, op = .insert u → sameKey key w u = false)
    (hself : ∀ u, op = .insert u → sameKey key u t = false) : Agrees key (ops ++ [op]) t slot := by
  have hold : ∀ w m, Installed key (ops ++ [op]) w m → sameKey key w t → Installed key ops w m := by
    intro w m hw hkey
    rcases hw.cases_concat with ⟨rfl, -, -⟩ | ⟨m', hw', rfl, -⟩
    · rw [hself w rfl] at hkey
      cases hkey
    · rw [(hop w m' hw' hkey).1, add_zero]
      exact hw'
  rcases slot with _ | ⟨v, n⟩
  · intro w m hw hkey
    exact h w m (hold w m hw hkey) hkey
  · obtain ⟨hpos, hvt, hv, hunique⟩ := h
    obtain ⟨hweight, hother⟩ := hop v n hv hvt
    refine ⟨hpos, hvt, ?_, fun w m hw hkey => hunique w m (hold w m hw hkey) hkey⟩
    have hconcat := hv.concat op fun u hu hsame => by
      rw [hother u hu] at hsame
      cases hsame
    rwa [hweight] at hconcat

lemma Ok.installs_iff (h : s.Ok S) (ht : Typed S.cols t) :
    s.Installs t ↔ ∀ v n, s.slot t = some (v, n) → v.compareTo t ≠ .eq := by
  unfold Installs CommonTable.scan
  rw [forall_mem_map]
  simp only [mem_map]
  constructor
  · rintro (hnone | ⟨u, ⟨r, hr, rfl⟩, hsame, hne⟩) v n hslot
    · rw [(h.slot_eq_none ht).mpr hnone] at hslot
      cases hslot
    · rw [h.slot_of_mem ht hr hsame] at hslot
      cases hslot
      exact hne
  · intro hne
    rcases hslot : s.slot t with _ | ⟨v, n⟩
    · exact Or.inl ((h.slot_eq_none ht).mp hslot)
    · obtain ⟨r, hr, hsame, rfl, -⟩ := h.exists_of_slot ht hslot
      exact Or.inr ⟨r.tuple, ⟨r, hr, rfl⟩, hsame, hne _ _ hslot⟩

lemma agrees_of_installs (hinstalls : ((mk' key).run ops).Installs u) (hkey : sameKey key u t)
    (htrans : ∀ w m, Installed key ops w m → sameKey key w t → sameKey key w u) :
    Agrees key (ops ++ [.insert u]) t (some (u, 1)) := by
  refine ⟨one_pos, hkey, hinstalls.installed, fun w m hw hwt => ?_⟩
  rcases hw.cases_concat with ⟨hinsert, -, rfl⟩ | ⟨m', hw', -, hlast⟩
  · cases hinsert
    exact ⟨rfl, rfl⟩
  · exact absurd hinstalls (hlast u rfl (htrans w m' hw' hwt))

end History

section Step

variable {key : Key} {ops : List Op} {op : Op}
  (hkey : key ≠ []) (hops : ∀ op ∈ ops, op.Within S) (hok : ((mk' key).run ops).Ok S)
  (hskey : ((mk' key).run ops).common.key = key) (h : Tallied S key ops)

include hkey hops hok hskey h

lemma Tallied.insert (ht : t ∈ S.tuples) (hspare : ((mk' key).run ops).Spare (.insert t)) :
    Tallied S key (ops ++ [.insert t]) := by
  intro u hu
  have htyped := S.typed t ht
  have hinstalled : ∀ w m, Installed key ops w m → Typed S.cols w :=
    fun w m hw => S.typed w (hw.mem_tuples hops)
  have hrun : (mk' key).run (ops ++ [.insert t]) = (((mk' key).run ops).insert t).2 := foldl_append
  rw [hrun, hok.slot_insert ht hspare hu, hskey]
  split_ifs with htu
  · have htrans : ∀ w m, Installed key ops w m → sameKey key w u → sameKey key w t :=
      fun w m hw hwu => sameKey_trans S.lawful (hinstalled w m hw) hu htyped hwu (sameKey_symm htu)
    by_cases hinstalls : ((mk' key).run ops).Installs t
    · have hput : put t (((mk' key).run ops).slot t) = (t, 1) := by
        rw [hok.installs_iff htyped] at hinstalls
        rcases hslot : ((mk' key).run ops).slot t with _ | ⟨v, n⟩
        · rfl
        · exact if_neg (hinstalls v n hslot)
      rw [hput]
      exact agrees_of_installs hinstalls htu htrans
    · have hagrees := h t htyped
      have hnot := hinstalls
      rw [hok.installs_iff htyped] at hnot
      push Not at hnot
      obtain ⟨v, n, hslot, hequal⟩ := hnot
      rw [hslot] at hagrees ⊢
      obtain ⟨hpos, hvt, hv, hunique⟩ := hagrees
      have hput : put t (some (v, n)) = (v, n + 1) := if_pos hequal
      rw [hput]
      refine ⟨Nat.succ_pos n, ?_, ?_, fun w m hw hwu => ?_⟩
      · exact sameKey_trans S.lawful (hinstalled v n hv) htyped hu hvt htu
      · have hconcat := hv.concat (.insert t) (by rintro _ ⟨⟩ - ; exact hinstalls)
        rw [weight_insert_of_equal hequal] at hconcat
        exact_mod_cast hconcat
      · rcases hw.cases_concat with ⟨hinsert, hw', -⟩ | ⟨m', hw', rfl, -⟩
        · cases hinsert
          exact absurd hw' hinstalls
        · obtain ⟨rfl, rfl⟩ := hunique w m' hw' (htrans w m' hw' hwu)
          rw [weight_insert_of_equal hequal]
          exact ⟨rfl, rfl⟩
  · apply (h u hu).concat
    · intro w m hw hwu
      have hwt : sameKey key w t = false := by
        rw [sameKey_comm, sameKey_congr S.lawful (hinstalled w m hw) hu htyped hwu]
        exact Bool.eq_false_iff.mpr htu
      refine ⟨weight_insert_of_ne fun hequal => ?_, ?_⟩
      · rw [sameKey_of_compareTo_eq S.lawful hkey (hinstalled w m hw) htyped hequal] at hwt
        cases hwt
      · rintro _ ⟨⟩
        exact hwt
    · rintro _ ⟨⟩
      exact Bool.eq_false_iff.mpr htu

omit hkey in
lemma Tallied.remove (ht : Typed S.cols t) : Tallied S key (ops ++ [.remove t]) := by
  intro u hu
  have hinstalled : ∀ w m, Installed key ops w m → Typed S.cols w :=
    fun w m hw => S.typed w (hw.mem_tuples hops)
  have hrun : (mk' key).run (ops ++ [.remove t]) = (((mk' key).run ops).remove t).2 :=
    foldl_append
  have hagrees := h t ht
  have hpos : ∀ v n, ((mk' key).run ops).slot t = some (v, n) → 0 < n := by
    intro v n hslot
    rw [hslot] at hagrees
    exact hagrees.1
  rw [hrun, hok.slot_remove ht hpos hu, hskey]
  split_ifs with htu
  · have hless : ∀ w m, Installed key (ops ++ [.remove t]) w m → sameKey key w u →
        sameKey key w t ∧ ∃ m', Installed key ops w m' ∧ m = m' - 1 := by
      intro w m hw hwu
      rcases hw.cases_concat with ⟨hinsert, -⟩ | ⟨m', hw', rfl, -⟩
      · cases hinsert
      · have hwt : sameKey key w t :=
          sameKey_trans S.lawful (hinstalled w m' hw') hu ht hwu (sameKey_symm htu)
        rw [weight_remove, if_pos hwt]
        exact ⟨hwt, m', hw', rfl⟩
    rcases hslot : ((mk' key).run ops).slot t with _ | ⟨v, n⟩
    · rw [hslot] at hagrees
      intro w m hw hwu
      obtain ⟨hwt, m', hw', rfl⟩ := hless w m hw hwu
      have hle := hagrees w m' hw' hwt
      omega
    · rw [hslot] at hagrees
      obtain ⟨hn, hvt, hv, hunique⟩ := hagrees
      simp only [take]
      split_ifs with hone
      · intro w m hw hwu
        obtain ⟨hwt, m', hw', rfl⟩ := hless w m hw hwu
        have hm := (hunique w m' hw' hwt).2
        omega
      · have hcast : ((n - 1 : ℕ) : ℤ) = n + -1 := by omega
        refine ⟨by omega, ?_, ?_, fun w m hw hwu => ?_⟩
        · exact sameKey_trans S.lawful (hinstalled v n hv) ht hu hvt htu
        · have hconcat := hv.concat (.remove t) (by rintro _ ⟨⟩)
          rw [weight_remove, if_pos hvt] at hconcat
          rwa [hcast]
        · obtain ⟨hwt, m', hw', rfl⟩ := hless w m hw hwu
          obtain ⟨rfl, rfl⟩ := hunique w m' hw' hwt
          exact ⟨rfl, hcast.symm⟩
  · apply (h u hu).concat
    · intro w m hw hwu
      refine ⟨?_, by rintro _ ⟨⟩⟩
      rw [weight_remove, if_neg]
      intro hwt
      exact htu (sameKey_trans S.lawful ht (hinstalled w m hw) hu (sameKey_symm hwt) hwu)
    · rintro _ ⟨⟩

omit hkey hops hok hskey in
lemma Tallied.quiet (hop : op.isQuiet) : Tallied S key (ops ++ [op]) := by
  intro u hu
  have hrun : (mk' key).run (ops ++ [op]) = ((mk' key).run ops).step op := foldl_append
  rw [hrun, slot_of_isQuiet hop]
  have hnot : ∀ t, op ≠ .insert t := by
    rintro t rfl
    cases hop
  apply (h u hu).concat
  · intro w m _ _
    exact ⟨weight_of_isQuiet hop key w, fun t ht => absurd ht (hnot t)⟩
  · intro t ht
    exact absurd ht (hnot t)

lemma Tallied.step (hop : op.Within S) (hspare : ((mk' key).run ops).Spare op) :
    Tallied S key (ops ++ [op]) := by
  rcases op.cases with ⟨t, rfl⟩ | ⟨t, rfl⟩ | hquiet
  · exact h.insert hkey hops hok hskey hop hspare
  · exact h.remove hops hok hskey hop
  · exact h.quiet hquiet

end Step

/-! ## Whole runs -/

/-- Every call is about tuples of the schema, and finds no count at its greatest value. -/
def CountedRun (S : Schema) (key : Key) (ops : List Op) : Prop :=
  Throughout step (fun s op => op.Within S ∧ s.Spare op) (mk' key) ops

lemma CountedRun.within {key : Key} {ops : List Op} (h : CountedRun S key ops) :
    ∀ op ∈ ops, op.Within S := by
  intro op hop
  obtain ⟨before, after, rfl⟩ := append_of_mem hop
  exact (throughout_append.mp h).2.1.1

lemma key_run {key : Key} {ops : List Op} (hops : ∀ op ∈ ops, op.Within S) :
    ((mk' key).run ops).common.key = key := by
  have hmoves := ((ok_mk' S key).run hops).2
  exact ((CommonTable.ok_mk' S key).moves_induction (P := fun s => s.key = key) hmoves
    (fun _ hs hmove => hmove.key_eq.trans hs) rfl).2

lemma tallied_run {key : Key} (hkey : key ≠ []) {ops : List Op} (hops : CountedRun S key ops) :
    Tallied S key ops := by
  -- on the calls from the last one: each is judged in the state that the others have left
  induction ops using reverseRecOn with
  | nil =>
    intro t _ w m hw
    obtain ⟨before, after, hnil, -⟩ := hw
    exact absurd hnil (by simp)
  | append_singleton ops op ih =>
    obtain ⟨hbefore, ⟨hwithin, hspare⟩, -⟩ := throughout_append.mp hops
    have hall := CountedRun.within hbefore
    exact (ih hbefore).step hkey hall ((ok_mk' S key).run hall).1 (key_run hall) hwithin hspare

lemma Ok.insert_fst_iff (h : s.Ok S) (ht : Typed S.cols t) :
    (s.insert t).1 = true ↔ s.Installs t := by
  rw [h.installs_iff ht]
  unfold RefTable.insert slot
  rcases s.common.primaryIndex.findKey s.common.key t with _ | found
  · simp
  · by_cases hequal : found.tuple.compareTo t = .eq
    · simp [hequal]
    · simp [hequal]

lemma remove_fst_iff : (s.remove t).1 = true ↔ ∃ v, s.slot t = some (v, 1) := by
  unfold RefTable.remove slot
  rcases s.common.primaryIndex.findKey s.common.key t with _ | found
  · simp
  · by_cases hlast : (s.refCount found.addr).toNat = 1
    · simp [sub_one_eq_zero_iff, hlast]
    · simp [sub_one_eq_zero_iff, hlast]

lemma mem_scan_iff {key : Key} (hkey : key ≠ []) {ops : List Op} (hops : CountedRun S key ops)
    (t : Tuple) :
    t ∈ ((mk' key).run ops).common.scan ↔ ∃ m, 0 < m ∧ Installed key ops t m := by
  have hwithin := hops.within
  have hok := ((ok_mk' S key).run hwithin).1
  have htallied := tallied_run hkey hops
  constructor
  · intro ht
    obtain ⟨r, hr, rfl⟩ := mem_map.mp ht
    have htyped := hok.common.typed r hr
    have hagrees := htallied r.tuple htyped
    rw [hok.slot_of_mem htyped hr (sameKey_refl S.lawful htyped _)] at hagrees
    obtain ⟨hpos, -, hinstalled, -⟩ := hagrees
    exact ⟨_, Int.natCast_pos.mpr hpos, hinstalled⟩
  · rintro ⟨m, hm, hinstalled⟩
    have htyped := S.typed t (hinstalled.mem_tuples hwithin)
    have hself := sameKey_refl S.lawful htyped key
    have hagrees := htallied t htyped
    rcases hslot : ((mk' key).run ops).slot t with _ | ⟨v, n⟩
    · rw [hslot] at hagrees
      have hle := hagrees t m hinstalled hself
      omega
    · rw [hslot] at hagrees
      obtain ⟨-, -, -, hunique⟩ := hagrees
      obtain ⟨rfl, -⟩ := hunique t m hinstalled hself
      obtain ⟨r, hr, -, htuple, -⟩ := hok.exists_of_slot htyped hslot
      exact mem_map.mpr ⟨r, hr, htuple⟩

lemma remove_fst_iff_installed {key : Key} (hkey : key ≠ []) {ops : List Op}
    (hops : CountedRun S key ops) (ht : Typed S.cols t) :
    (((mk' key).run ops).remove t).1 = true ↔
      ∃ u, sameKey key u t ∧ Installed key (ops ++ [.remove t]) u 0 := by
  have hagrees := tallied_run hkey hops t ht
  rw [remove_fst_iff]
  constructor
  · rintro ⟨v, hslot⟩
    rw [hslot] at hagrees
    obtain ⟨-, hvt, hinstalled, -⟩ := hagrees
    have hconcat := hinstalled.concat (.remove t) (by rintro _ ⟨⟩)
    rw [weight_remove, if_pos hvt] at hconcat
    exact ⟨v, hvt, hconcat⟩
  · rintro ⟨u, hut, hinstalled⟩
    rcases hinstalled.cases_concat with ⟨hinsert, -⟩ | ⟨m, hu, hm, -⟩
    · cases hinsert
    · rw [weight_remove, if_pos hut] at hm
      rcases hslot : ((mk' key).run ops).slot t with _ | ⟨v, n⟩
      · rw [hslot] at hagrees
        have hle := hagrees u m hu hut
        omega
      · rw [hslot] at hagrees
        obtain ⟨-, -, -, hunique⟩ := hagrees
        obtain ⟨rfl, rfl⟩ := hunique u m hu hut
        have hn : n = 1 := by omega
        rw [hn]
        exact ⟨u, rfl⟩

/-- **A `RefTable` counts references.** In every run of a table whose primary key is not empty: the
live tuples are those installed with a positive count; `insert` returns true when it installs its
tuple, and `remove` when a count reaches zero; and every secondary index holds the live tuples.
Hyps: `hops` says that the values of each column are ordered, and that no count overflows -/
theorem refTable_counts (S : Schema) (key : Key) (hkey : key ≠ []) (ops : List Op)
    (hops : CountedRun S key ops) :
    (∀ t, t ∈ ((mk' key).run ops).common.scan ↔ ∃ m, 0 < m ∧ Installed key ops t m) ∧
    (∀ before t after, ops = before ++ .insert t :: after →
      ((((mk' key).run before).insert t).1 = true ↔ ((mk' key).run before).Installs t)) ∧
    (∀ before t after, ops = before ++ .remove t :: after →
      ((((mk' key).run before).remove t).1 = true ↔
        ∃ u, sameKey key u t ∧ Installed key (before ++ [.remove t]) u 0)) ∧
    ∀ ix ∈ ((mk' key).run ops).common.indices,
      (ix.2.toList.map (·.tuple)).Perm ((mk' key).run ops).common.scan := by
  refine ⟨mem_scan_iff hkey hops, ?_, ?_, ?_⟩
  · rintro before t after rfl
    obtain ⟨hbefore, ⟨ht, -⟩, -⟩ := throughout_append.mp hops
    have hok := ((ok_mk' S key).run (CountedRun.within hbefore)).1
    exact hok.insert_fst_iff (S.typed t ht)
  · rintro before t after rfl
    obtain ⟨hbefore, ⟨ht, -⟩, -⟩ := throughout_append.mp hops
    exact remove_fst_iff_installed hkey hbefore ht
  · intro ix hix
    have hok := ((ok_mk' S key).run hops.within).1
    exact (hok.common.indexed ix hix).2.map _

/-- A row is inserted twice and removed twice, another one is replaced; with a secondary index. -/
def countedOps : List Op :=
  [.insert (Table2.row 11), .secondaryIndex [1], .insert (Table2.row 11), .insert (Table2.row 21),
    .remove (Table2.row 11), .insert (Table2.row 22), .remove (Table2.row 19)]

lemma countedRun_countedOps : CountedRun Table2.rows [0] countedOps := by
  have hrow := Table2.row_mem_rows
  refine ⟨⟨hrow 11, ?_⟩, ⟨trivial, trivial⟩, ⟨hrow 11, ?_⟩, ⟨hrow 21, ?_⟩,
    ⟨Table2.rows.typed _ (hrow 11), trivial⟩, ⟨hrow 22, ?_⟩,
    ⟨Table2.rows.typed _ (hrow 19), trivial⟩, trivial⟩
  · exact forall_mem_nil _
  all_goals
    unfold Spare
    decide

theorem refTable_counts_countedOps :
    (∀ t, t ∈ ((mk' [0]).run countedOps).common.scan ↔ ∃ m, 0 < m ∧ Installed [0] countedOps t m) ∧
      ((mk' [0]).run countedOps).common.scan = [Table2.row 22] :=
  ⟨(refTable_counts Table2.rows [0] (by decide) countedOps countedRun_countedOps).1, rfl⟩

/-! ## With values that do not compare lawfully, and with many insertions -/

def single (n : ℕ) (v : Value) : Tuple := { ID := n, fields := [v] }

lemma run_replicate_insert (found : Ref)
    (hfind : s.common.primaryIndex.findKey s.common.key t = some found)
    (hequal : found.tuple.compareTo t = .eq) (n : ℕ) :
    s.run (replicate n (.insert t)) =
      s.setCount found.addr (s.refCount found.addr + ofNat n) := by
  induction n generalizing s with
  | zero =>
    show s = { s with refCount := update s.refCount found.addr (_ + 0) }
    rw [UInt32.add_zero, update_eq_self]
  | succ n ih =>
    have hinsert : s.step (.insert t) = s.setCount found.addr (s.refCount found.addr + 1) := by
      unfold step RefTable.insert
      simp [hfind, if_pos hequal]
    show (s.step (.insert t)).run (replicate n (.insert t)) = _
    rw [hinsert, ih (s := s.setCount found.addr _) hfind, refCount_setCount]
    unfold setCount
    simp only [update_idem]
    rw [ofNat_add, UInt32.add_assoc, UInt32.add_comm (ofNat n)]
    rfl

lemma run_replicate_row (n : ℕ) :
    (mk' [0]).run (replicate (n + 1) (.insert (Table2.row 11))) =
      ((mk' [0]).insertTuple (Table2.row 11)).setCount 0 (1 + ofNat n) := by
  exact run_replicate_insert (s := (mk' [0]).insertTuple (Table2.row 11)) ⟨0, Table2.row 11⟩ rfl
    rfl n

/-- The string and the list are each less than the other, so the list is not found again and
outlives its removal. And a row inserted `2 ^ 32 + 1` times leaves with one removal. -/
theorem refTable_miscounts :
    (∃ t ops, ops = [.insert (single 1 (.str [97])), .insert t, .remove t] ∧
      t ∈ ((mk' [0]).run ops).common.scan ∧ ¬ ∃ m, 0 < m ∧ Installed [0] ops t m) ∧
    ((mk' [0]).run (replicate (2 ^ 32 + 1) (.insert (Table2.row 11)) ++
      [.remove (Table2.row 11)])).common.scan = [] := by
  refine ⟨⟨single 2 (.list []), _, rfl, ?_, ?_⟩, ?_⟩
  · exact mem_cons_self
  · rintro ⟨m, hm, before, after, hsplit, -, -, rfl⟩
    -- the list is inserted by the second call only, and then removed
    have hafter : after = [.remove (single 2 (.list []))] := by
      rcases before with _ | ⟨first, _ | ⟨second, _ | ⟨third, before⟩⟩⟩
      · have hID := congrArg Tuple.ID (Op.insert.inj (List.cons.inj hsplit).1)
        cases hID
      · exact (List.cons.inj (List.cons.inj hsplit).2).2.symm
      · cases (List.cons.inj (List.cons.inj (List.cons.inj hsplit).2).2).1
      · have hlength := congrArg List.length hsplit
        simp at hlength
    rw [hafter] at hm
    exact absurd hm (by decide)
  · have hrun := run_replicate_row (2 ^ 32)
    unfold run at hrun ⊢
    rw [foldl_append, hrun]
    rfl

end RefTable

end P2.Table
