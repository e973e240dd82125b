import P2.Net.CumulativeAck
import Mathlib.Data.List.Sort

/-!
# The confirmation record of a connection

What `confirm` has made of the numbers that came: `record_exact`.
-/

namespace P2.Net.CumulativeAck

open P2.Lib Connection List Int64
open Int64 (le_refl not_lt le_of_lt le_trans not_le lt_trans)

def Connection.confirmAll (seqs : List Int64) (c : Connection) : Connection :=
  seqs.foldl (fun c seq => c.confirm seq) c

/-- The connection records the numbers above `start` of a set: all up to the cumulative number are in
the set, the next one is not, and the queue holds those beyond in increasing order. -/
structure Record (start : Int64) (S : Set Int64) (c : Connection) : Prop where
  start_le : start ≤ c.cumSeq
  covered : ∀ n, start < n → n ≤ c.cumSeq → n ∈ S
  greatest : c.cumSeq ≠ Int64.maxValue → c.cumSeq + 1 ∉ S
  queued : ∀ n, n ∈ c.queue ↔ n ∈ S ∧ c.cumSeq < n
  sorted : c.queue.Pairwise (· < ·)

variable {start seq n cum : Int64} {S : Set Int64} {c c' : Connection} {queue : List Int64}

/-! ## The order of numbers -/

lemma ne_maxValue_of_lt (h : cum < n) : cum ≠ maxValue := by
  rintro rfl
  rw [lt_iff_toInt_lt] at h
  have hle : n.toInt ≤ maxValue.toInt := toInt_le n
  omega

lemma le_add_one_iff (hcum : cum ≠ maxValue) : n ≤ cum + 1 ↔ n ≤ cum ∨ n = cum + 1 := by
  rw [le_iff_toInt_le, le_iff_toInt_le, ← toInt_inj, Numbered.toInt_add_one hcum]
  omega

lemma add_one_le_iff (hcum : cum ≠ maxValue) : cum + 1 ≤ n ↔ cum < n := by
  rw [le_iff_toInt_le, lt_iff_toInt_lt, Numbered.toInt_add_one hcum]
  omega

lemma ne_maxValue_of_not_lt (h : ¬ cum + 1 < cum) : cum ≠ maxValue := by
  rintro rfl
  exact h (by decide)

/-! ## The loops -/

/-- The queue that `confirm` hands to its last two loops: sorted, and not below the cumulative
number. -/
def Above (cum : Int64) (queue : List Int64) : Prop :=
  queue.Pairwise (· < ·) ∧ ∀ q ∈ queue, cum ≤ q

lemma advance_spec (h : Above cum queue) :
    cum ≤ advance queue cum ∧
    (∀ n, cum < n → n ≤ advance queue cum → n ∈ queue) ∧
    (advance queue cum ≠ maxValue → advance queue cum + 1 ∉ queue) := by
  obtain ⟨hsorted, hle⟩ := h
  fun_induction advance queue cum with
  | case1 cum =>
    refine ⟨le_refl cum, fun n hlt hle => ?_, fun _ => not_mem_nil⟩
    exact absurd hlt (not_lt.mpr hle)
  | case2 queue cum ih =>
    -- the next number is there
    rw [pairwise_cons] at hsorted
    rw [forall_mem_cons] at hle
    have hcum : cum ≠ maxValue := ne_maxValue_of_not_lt (not_lt.mpr hle.1)
    obtain ⟨hstart, hcovered, hstops⟩ := ih hsorted.2 fun r hr => le_of_lt (hsorted.1 r hr)
    refine ⟨le_trans (le_of_lt ((add_one_le_iff hcum).mp (le_refl _))) hstart,
      fun n hlt hn => ?_, fun hmax => ?_⟩
    · by_cases hq : n = cum + 1
      · rw [hq]
        exact mem_cons_self
      · have hge : cum + 1 ≤ n := (add_one_le_iff hcum).mpr hlt
        refine mem_cons_of_mem _ (hcovered n ?_ hn)
        exact Int64.lt_of_le_of_ne hge (Ne.symm hq)
    · rw [mem_cons, not_or]
      refine ⟨fun heq => ?_, hstops hmax⟩
      have hlt := (add_one_le_iff hmax).mp (Int64.le_of_eq heq)
      exact absurd hlt (not_lt.mpr hstart)
  | case3 q queue cum hnext hgap =>
    -- a gap
    refine ⟨le_refl cum, fun n hlt hn => absurd hlt (not_lt.mpr hn), fun hmax => ?_⟩
    rw [mem_cons, not_or]
    refine ⟨hnext, fun hmem => ?_⟩
    have hlt := (pairwise_cons.mp hsorted).1 _ hmem
    exact absurd ((add_one_le_iff hmax).mpr hgap) (not_le.mpr hlt)
  | case4 q queue cum _ hgap ih =>
    -- the number is the cumulative one
    rw [forall_mem_cons] at hle
    have hq : q = cum := Int64.le_antisymm (not_lt.mp hgap) hle.1
    obtain ⟨hstart, hcovered, hstops⟩ := ih (pairwise_cons.mp hsorted).2 hle.2
    refine ⟨hstart, fun n hlt hn => mem_cons_of_mem q (hcovered n hlt hn), fun hmax => ?_⟩
    rw [mem_cons, not_or]
    refine ⟨fun heq => ?_, hstops hmax⟩
    rw [hq] at heq
    have hlt := (add_one_le_iff hmax).mp (Int64.le_of_eq heq)
    exact absurd hlt (not_lt.mpr hstart)

lemma place_spec (seq : Int64) (hsorted : queue.Pairwise (· < ·)) :
    (place seq queue = none → seq ∈ queue) ∧
    ∀ queue', place seq queue = some queue' →
      queue'.Pairwise (· < ·) ∧ ∀ n, n ∈ queue' ↔ n = seq ∨ n ∈ queue := by
  refine ⟨fun hnone => ?_, fun queue' hplace =>
    ⟨Numbered.pairwise_place hplace hsorted, Numbered.mem_place hplace⟩⟩
  obtain ⟨q, hq, rfl⟩ := Numbered.exists_of_place_eq_none hnone
  exact hq

/-! ## One call -/

lemma record_settle (hstart : start ≤ c.cumSeq)
    (hcovered : ∀ n, start < n → n ≤ c.cumSeq → n ∈ S) (habove : Above c.cumSeq c.queue)
    (hqueued : ∀ n, c.cumSeq < n → (n ∈ c.queue ↔ n ∈ S)) : Record start S c.settle := by
  obtain ⟨hle, hmoved, hstops⟩ := advance_spec habove
  refine ⟨le_trans hstart hle, fun n hn hnle => ?_, fun hmax hmem => ?_, fun n => ?_, ?_⟩
  · by_cases hold : n ≤ c.cumSeq
    · exact hcovered n hn hold
    · have hlt := not_le.mp hold
      exact (hqueued n hlt).mp (hmoved n hlt hnle)
  · have hlt : c.cumSeq < advance c.queue c.cumSeq + 1 :=
      Int64.lt_of_le_of_lt hle ((add_one_le_iff hmax).mp (le_refl _))
    exact hstops hmax ((hqueued _ hlt).mpr hmem)
  · show n ∈ c.queue.filter _ ↔ n ∈ S ∧ advance c.queue c.cumSeq < n
    rw [mem_filter, decide_eq_true_eq, not_le]
    refine and_congr_left fun hlt => ?_
    exact hqueued n (Int64.lt_of_le_of_lt hle hlt)
  · exact habove.1.filter _

lemma Record.confirm (h : Record start S c) (seq : Int64) :
    Record start (insert seq S) (c.confirm seq) := by
  have hcovered : ∀ n, start < n → n ≤ c.cumSeq → n ∈ insert seq S :=
    fun n hn hle => Set.mem_insert_of_mem seq (h.covered n hn hle)
  have habove : ∀ q ∈ c.queue, c.cumSeq < q := fun q hq => ((h.queued q).mp hq).2
  have hother : ∀ n, c.cumSeq < n → n ≠ seq → (n ∈ c.queue ↔ n ∈ insert seq S) := by
    intro n hn hne
    rw [h.queued, Set.mem_insert_iff, or_iff_right hne, and_iff_left hn]
  unfold Connection.confirm
  split_ifs with hlt hnext
  · -- the number is covered already
    refine record_settle h.start_le hcovered
      ⟨h.sorted, fun q hq => le_of_lt (habove q hq)⟩ fun n hn => hother n hn ?_
    rintro rfl
    exact Int64.lt_irrefl (lt_trans hlt hn)
  · -- the number is the next one
    have hcum : c.cumSeq ≠ maxValue := by
      apply ne_maxValue_of_not_lt
      rw [hnext]
      exact hlt
    have hself : c.cumSeq < c.cumSeq + 1 := (add_one_le_iff hcum).mp (le_refl _)
    apply record_settle
    · exact le_trans h.start_le (le_of_lt hself)
    · intro n hn hle
      rcases (le_add_one_iff hcum).mp hle with hle | heq
      · exact hcovered n hn hle
      · rw [heq, hnext]
        exact Set.mem_insert seq S
    · exact ⟨h.sorted, fun q hq => (add_one_le_iff hcum).mpr (habove q hq)⟩
    · intro n hn
      refine hother n (lt_trans hself hn) ?_
      rintro rfl
      rw [hnext] at hn
      exact Int64.lt_irrefl hn
  · -- the number waits, or waits already
    obtain ⟨hnone, hsome⟩ := place_spec seq h.sorted
    rcases hplace : place seq c.queue with _ | queue
    · have hS : insert seq S = S := Set.insert_eq_of_mem ((h.queued seq).mp (hnone hplace)).1
      rw [hS]
      exact h
    · obtain ⟨hsorted, hmem⟩ := hsome queue hplace
      refine record_settle h.start_le hcovered ⟨hsorted, fun q hq => ?_⟩ fun n hn => ?_
      · rcases (hmem q).mp hq with rfl | hq
        · exact not_lt.mp hlt
        · exact le_of_lt (habove q hq)
      · rw [hmem, h.queued, Set.mem_insert_iff, and_iff_left hn]

/-! ## Whole runs -/

lemma Record.confirmAll (h : Record start S c) (seqs : List Int64) :
    Record start (S ∪ {n | n ∈ seqs}) (c.confirmAll seqs) := by
  induction seqs generalizing S c with
  | nil =>
    have hS : S ∪ {n | n ∈ ([] : List Int64)} = S := by simp
    rw [hS]
    exact h
  | cons seq seqs ih =>
    have hS : S ∪ {n | n ∈ seq :: seqs} = insert seq S ∪ {n | n ∈ seqs} := by
      ext n
      simp [or_assoc, or_left_comm]
    rw [hS]
    exact ih (h.confirm seq)

lemma record_start (start : Int64) (tcb : Option ℕ) :
    Record start ∅ { tcb := tcb, cumSeq := start, queue := [] } := by
  refine ⟨le_refl start, fun n hlt hle => ?_, fun _ => Set.notMem_empty _, fun n => ?_,
    List.Pairwise.nil⟩
  · exact absurd hlt (not_lt.mpr hle)
  · simp

lemma connection_ext (htcb : c.tcb = c'.tcb) (hcum : c.cumSeq = c'.cumSeq)
    (hqueue : c.queue = c'.queue) : c = c' := by
  obtain ⟨tcb, cumSeq, queue⟩ := c
  cases htcb
  cases hcum
  cases hqueue
  rfl

lemma tcb_confirm (seq : Int64) (c : Connection) : (c.confirm seq).tcb = c.tcb := by
  unfold Connection.confirm
  split_ifs
  · rfl
  · rfl
  · split <;> rfl

lemma tcb_confirmAll (seqs : List Int64) (c : Connection) : (c.confirmAll seqs).tcb = c.tcb := by
  induction seqs generalizing c with
  | nil => rfl
  | cons seq seqs ih => exact (ih (c.confirm seq)).trans (tcb_confirm seq c)

lemma Record.cumSeq_le (h : Record start S c) (h' : Record start S c') :
    c'.cumSeq ≤ c.cumSeq := by
  rw [← not_lt]
  intro hlt
  have hmax := ne_maxValue_of_lt hlt
  have hself : c.cumSeq < c.cumSeq + 1 := (add_one_le_iff hmax).mp (le_refl _)
  refine h.greatest hmax (h'.covered _ ?_ ((add_one_le_iff hmax).mpr hlt))
  exact Int64.lt_of_le_of_lt h.start_le hself

lemma Record.unique (h : Record start S c) (h' : Record start S c') :
    c.cumSeq = c'.cumSeq ∧ c.queue = c'.queue := by
  have hcum := Int64.le_antisymm (h'.cumSeq_le h) (h.cumSeq_le h')
  refine ⟨hcum, h.sorted.eq_of_mem_iff h'.sorted fun n => ?_⟩
  rw [h.queued, h'.queued, hcum]

/-- **The confirmation record is exact.** After any calls from an empty queue: the cumulative number
is the greatest one from `start` on up to which all were confirmed, the queue holds the confirmed
ones beyond it in increasing order, and other calls with the same numbers lead to the same state. -/
theorem record_exact (start : Int64) (tcb : Option ℕ) (seqs : List Int64) :
    let c : Connection := Connection.confirmAll seqs { tcb := tcb, cumSeq := start, queue := [] }
    (start ≤ c.cumSeq ∧ (∀ n, start < n → n ≤ c.cumSeq → n ∈ seqs) ∧
      ∀ m, c.cumSeq < m → ¬ ∀ n, start < n → n ≤ m → n ∈ seqs) ∧
    ((∀ n, n ∈ c.queue ↔ n ∈ seqs ∧ c.cumSeq < n) ∧ c.queue.Pairwise (· < ·)) ∧
    ∀ seqs', (∀ n, n ∈ seqs' ↔ n ∈ seqs) →
      Connection.confirmAll seqs' { tcb := tcb, cumSeq := start, queue := [] } = c := by
  intro c
  have hrecord : Record start {n | n ∈ seqs} c := by
    have hall := (record_start start tcb).confirmAll seqs
    rwa [Set.empty_union] at hall
  refine ⟨⟨hrecord.start_le, hrecord.covered, fun m hm hall => ?_⟩,
    ⟨hrecord.queued, hrecord.sorted⟩, fun seqs' hseqs' => ?_⟩
  · have hmax := ne_maxValue_of_lt hm
    have hself : c.cumSeq < c.cumSeq + 1 := (add_one_le_iff hmax).mp (Int64.le_refl _)
    refine hrecord.greatest hmax (hall _ ?_ ((add_one_le_iff hmax).mpr hm))
    exact Int64.lt_of_le_of_lt hrecord.start_le hself
  · have hrecord' := (record_start start tcb).confirmAll seqs'
    have hS : ∅ ∪ {n | n ∈ seqs'} = {n | n ∈ seqs} := by
      simp [hseqs']
    rw [hS] at hrecord'
    obtain ⟨hcum, hqueue⟩ := hrecord'.unique hrecord
    have htcb := (tcb_confirmAll seqs' ⟨tcb, start, []⟩).trans
      (tcb_confirmAll seqs ⟨tcb, start, []⟩).symm
    exact connection_ext htcb hcum hqueue

end P2.Net.CumulativeAck
