import P2.Planner.Eca
import P2.Planner.JoinsIff
import P2.Table.RefCount

/-!
# Views are exact

The tables of a view count references, and so does the table of its head. A change of a body table
waits as an event; when it is evaluated, its delta rules join it with the rows that the other tables
have then, and add to the head or take away from it. The count of a head tuple is the number of
combinations that derive it, as long as each event meets the other tables as they were when it came,
and no combination takes its tuple twice: `view_exact`, `self_join_exact`.
-/

namespace P2.Planner.Eca

open P2.Overlog P2.Lib P2.Table P2.Value List Function

/-! ## Tables and waiting events -/

/-- How a rule is read: the fields of the head that rows of its predicates derive, if they match. -/
structure Reading where
  /-- The fields behind the name, for a head, the terms that are not predicates, and the rows. -/
  head : Functor → List Term → List (Functor × Tuple) → Option (List Value)
  order : ∀ f terms c c', c.Perm c' → head f terms c = head f terms c'

/-- The tables of a view and its head, and the events that wait. -/
structure State where
  table : Name → RefTable
  head : RefTable
  queue : Name → List (Event × Tuple) := fun _ => []
  nextID : ℕ := 0

def rowsOf (D : Name → List Tuple) (f : Functor) : List (Functor × Tuple) := (D f.name).map (f, ·)

def State.contents (s : State) (name : Name) : List Tuple := (s.table name).common.scan

def notices (table : RefTable) : RefTable.Op → List (Event × Tuple)
  | .insert t =>
    match table.common.primaryIndex.findKey table.common.key t with
    | none => [(.INSERT, t)]
    | some found =>
      if found.tuple.compareTo t = .eq then [] else [(.DELETE, found.tuple), (.INSERT, t)]
  | .remove t =>
    match table.common.primaryIndex.findKey table.common.key t with
    | none => []
    | some found => if table.refCount found.addr - 1 = 0 then [(.DELETE, found.tuple)] else []
  | _ => []

def headTuple (name : Name) (ID : ℕ) (fields : List Value) : Tuple :=
  { ID := ID, fields := .str name :: fields }

/-- What a rule derives from an event: its tuple joined with the rows of the other predicates. -/
def EcaRule.derive (reading : Reading) (D : Name → List Tuple) (t : Tuple) (r : EcaRule) :
    List ((Action × Functor) × List Value) :=
  ((r.probeTerms.map (rowsOf D)).sections.filterMap fun c =>
    reading.head r.action.2 r.selectAssignTerms ((r.event.2, t) :: c)).map (r.action, ·)

def Action.op : Action → Tuple → Option RefTable.Op
  | .ADD, t => some (.insert t)
  | .DELETE, t => some (.remove t)
  | _, _ => none

def headOps (reading : Reading) (rules : List EcaRule) (s : State) (name : Name)
    (e : Event × Tuple) : List RefTable.Op :=
  (((rules.filter fun r => r.event.1 = e.1 ∧ r.event.2.name = name).flatMap
    (·.derive reading s.contents e.2)).zipIdx s.nextID).filterMap
      fun x => x.1.1.1.op (headTuple x.1.1.2.name x.2 x.1.2)

/-- A call to a body table, or the evaluation of the first event of its queue. -/
inductive Step where
  | change (name : Name) (op : RefTable.Op)
  | evaluate (name : Name)

def State.step (reading : Reading) (rules : List EcaRule) (s : State) : Step → State
  | .change name op =>
    { s with
      table := Function.update s.table name ((s.table name).step op)
      queue := Function.update s.queue name (s.queue name ++ notices (s.table name) op) }
  | .evaluate name =>
    match s.queue name with
    | [] => s
    | e :: rest =>
      let ops := headOps reading rules s name e
      { s with
        head := s.head.run ops
        queue := Function.update s.queue name rest
        nextID := s.nextID + ops.length }

/-! ## Views -/

/-- A local view over tables that do not expire, the key of its head with all fields. -/
structure View where
  rule : Rule
  tables : Tables
  text : Expr → Name
  reading : Reading
  key : Key
  keys : Name → Key
  hard : softStateRule tables rule = false
  isLocal : ∀ f ∈ rule.functors, localHead rule f
  nonempty : rule.functors ≠ []
  apart : ∀ f ∈ rule.functors, f.name ≠ rule.head.name
  arity : ∀ c fields, reading.head rule.head (otherTerms rule) c = some fields →
    fields.length = rule.head.args.length
  mem_key : ∀ i, i ∈ key ↔ 1 ≤ i ∧ i ≤ rule.head.args.length

namespace View

variable (v : View)

def rules : List EcaRule := rewriteViewRule v.text v.tables v.rule []

def init : State where
  table name := RefTable.mk' (v.keys name)
  head := RefTable.mk' v.key

abbrev step : State → Step → State := State.step v.reading v.rules

def derived (c : List (Functor × Tuple)) : Option (List Value) :=
  v.reading.head v.rule.head (otherTerms v.rule) c

def offers (D : Name → List Tuple) : List (List (Functor × Tuple)) :=
  v.rule.functors.map (rowsOf D)

/-- **The head table holds what the rows derive**, up to equality of tuples. -/
def Exact (s : State) : Prop :=
  (∀ t ∈ s.head.common.scan, ∃ c ∈ (v.offers s.contents).sections, ∃ fields,
    v.derived c = some fields ∧ (headTuple v.rule.head.name 0 fields).compareTo t = .eq) ∧
  ∀ c ∈ (v.offers s.contents).sections, ∀ fields, v.derived c = some fields →
    ∃ t ∈ s.head.common.scan, (headTuple v.rule.head.name 0 fields).compareTo t = .eq

/-- No combination that derives something takes a tuple for two predicates of a table. -/
def TakenOnce (name : Name) (t : Tuple) (D : Name → List Tuple) : Prop :=
  Lib.Once (fun c => (v.derived c).isSome) (fun x => x.1.name = name ∧ x.2 = t) (v.offers D)

end View

/-- The columns of the tables, within which values compare lawfully, and the tuples. -/
structure Columns (v : View) where
  head : Schema
  body : Name → Schema
  form : ∀ t ∈ head.tuples, ∃ fields, t.fields = .str v.rule.head.name :: fields ∧
    fields.length = v.rule.head.args.length
  typed : ∀ c fields, (∀ x ∈ c, x.2 ∈ (body x.1.name).tuples) → v.derived c = some fields →
    Typed head.cols (headTuple v.rule.head.name 0 fields)

/-- Base tuples are inserted and removed, any number of times, no insertion replaces a tuple by one with
other fields (as keys that cover all fields have it), and no count of the head overflows. -/
def Columns.Admits {v : View} (d : Columns v) (s : State) : Step → Prop
  | .change name op => (∃ f ∈ v.rule.functors, f.name = name) ∧ op.Within (d.body name) ∧
      ((∃ t, op = .insert t ∧ ∀ found ∈ (s.table name).slot t, found.1.compareTo t = .eq) ∨
        ∃ t, op = .remove t)
  | .evaluate name => ∀ e rest, s.queue name = e :: rest →
      Throughout RefTable.step (fun table op => op.Within d.head ∧ table.Spare op) s.head
        (headOps v.reading v.rules s name e)

/-! ## Counting in the head table -/

namespace View

variable {v : View} {d : Columns v} {s : RefTable} {t u : Tuple}

lemma compareElements_of_forall₂ {as bs : List Value}
    (h : Forall₂ (fun a b => compareTo a b = .eq) as bs) : compareElements as bs = .eq := by
  induction h with
  | nil => rfl
  | cons hab _ ih => rw [compareElements, hab, ih]; rfl

lemma key_ne_nil (v : View) : v.key ≠ [] := by
  obtain ⟨f, hf⟩ := exists_mem_of_ne_nil _ v.nonempty
  have hlocal := v.isLocal f hf
  unfold localHead at hlocal
  rw [Bool.and_eq_true, decide_eq_true_eq] at hlocal
  have hargs : 1 ≤ v.rule.head.args.length := by
    by_contra hnone
    have hnil : v.rule.head.args = [] := length_eq_zero_iff.mp (by omega)
    exact hlocal.1 (by rw [Functor.getlocspec, hnil]; rfl)
  exact ne_nil_of_mem ((v.mem_key 1).mpr ⟨le_rfl, hargs⟩)

def Formed (v : View) (t : Tuple) : Prop :=
  ∃ fields, t.fields = .str v.rule.head.name :: fields ∧ fields.length = v.rule.head.args.length

lemma compareTo_of_sameKey (d : Columns v) (ht : v.Formed t) (hu : v.Formed u)
    (htyped : Typed d.head.cols t) (hutyped : Typed d.head.cols u) (h : sameKey v.key t u) :
    t.compareTo u = .eq := by
  obtain ⟨as, htf, hta⟩ := ht
  obtain ⟨bs, huf, hub⟩ := hu
  have hfields : ∀ w : Tuple, ∀ fields, w.fields = .str v.rule.head.name :: fields →
      fields.length = v.rule.head.args.length → HasFields v.key w := by
    intro w fields hw hlength i hi
    have hi' := (v.mem_key i).mp hi
    rw [hw, length_cons]
    omega
  rw [sameKey_iff d.head.lawful v.key_ne_nil (htyped.on _) (hutyped.on _) (hfields t as htf hta)
    (hfields u bs huf hub)] at h
  have hall : Forall₂ (fun a b => compareTo a b = .eq) t.fields u.fields := by
    rw [forall₂_iff_get]
    refine ⟨by rw [htf, huf, length_cons, length_cons, hta, hub], fun i hi hj => ?_⟩
    have ha : t.fields[i]? = some (t.fields.get ⟨i, hi⟩) := List.getElem?_eq_getElem hi
    have hb : u.fields[i]? = some (u.fields.get ⟨i, hj⟩) := List.getElem?_eq_getElem hj
    by_cases hzero : i = 0
    · -- the names
      subst hzero
      have hname : u.fields.get ⟨0, hj⟩ = t.fields.get ⟨0, hi⟩ := by
        simp [htf, huf]
      rw [hname]
      exact (d.head.lawful 0).refl _ (htyped 0 _ ha)
    · refine h i ((v.mem_key i).mpr ⟨by omega, ?_⟩) _ _ ha hb
      rw [htf, length_cons] at hi
      omega
  unfold Tuple.compareTo
  rw [compareElements_of_forall₂ hall, hall.length_eq, Ordering.then_eq_eq]
  exact ⟨Nat.compare_eq_eq.mpr rfl, rfl⟩

def count (s : RefTable) (u : Tuple) : ℕ := ((s.slot u).map Prod.snd).getD 0

structure HeadOk (d : Columns v) (s : RefTable) : Prop where
  ok : s.Ok d.head
  key : s.common.key = v.key
  pos : ∀ u, Typed d.head.cols u → ∀ w n, s.slot u = some (w, n) → 0 < n

lemma HeadOk.insert (h : HeadOk d s) (ht : t ∈ d.head.tuples) (hspare : s.Spare (.insert t)) :
    HeadOk d (s.insert t).2 ∧ ∀ u, Typed d.head.cols u →
      count (s.insert t).2 u = count s u + if sameKey v.key t u then 1 else 0 := by
  have hslot := fun u hu => h.ok.slot_insert (u := u) ht hspare hu
  rw [h.key] at hslot
  have hput : RefTable.put t (s.slot t) = ((RefTable.put t (s.slot t)).1, count s t + 1) := by
    rcases hfind : s.slot t with _ | ⟨w, n⟩
    · simp [RefTable.put, count, hfind]
    · obtain ⟨r, hr, hsame, rfl, -⟩ := h.ok.exists_of_slot (d.head.typed t ht) hfind
      have hmem := h.ok.common.stored r hr
      rw [h.key] at hsame
      have hequal := compareTo_of_sameKey d (d.form _ hmem) (d.form t ht) (d.head.typed _ hmem)
        (d.head.typed t ht) hsame
      simp [RefTable.put, count, hfind, hequal]
  have hkey : ((s.insert t).2).common.key = s.common.key := by
    unfold RefTable.insert
    split
    · rfl
    · split_ifs
      · rfl
      · rfl
  refine ⟨⟨(h.ok.insert ht).1, hkey.trans h.key, ?_⟩, ?_⟩
  · intro u hu w n hw
    rw [hslot u hu] at hw
    split_ifs at hw with hsame
    · rw [hput] at hw
      cases hw
      omega
    · exact h.pos u hu w n hw
  · intro u hu
    have hother := fun hsame => h.ok.slot_eq_of_sameKey (d.head.typed t ht) hu (h.key ▸ hsame)
    unfold count
    rw [hslot u hu]
    split_ifs with hsame
    · rw [hput, hother hsame]
      rfl
    · rfl

lemma HeadOk.remove (h : HeadOk d s) (ht : Typed d.head.cols t) :
    HeadOk d (s.remove t).2 ∧ ∀ u, Typed d.head.cols u →
      count (s.remove t).2 u = count s u - if sameKey v.key t u then 1 else 0 := by
  have hslot := fun u hu => h.ok.slot_remove (u := u) ht (h.pos t ht) hu
  rw [h.key] at hslot
  obtain ⟨hok, hshrinks⟩ := h.ok.remove ht
  refine ⟨⟨hok, hshrinks.key_eq.trans h.key, ?_⟩, ?_⟩
  · intro u hu w n hw
    rw [hslot u hu] at hw
    split_ifs at hw with hsame
    · rcases hfind : s.slot t with _ | ⟨w', m⟩
      · rw [hfind] at hw
        cases hw
      · have hm := h.pos t ht w' m hfind
        rw [hfind] at hw
        simp only [RefTable.take] at hw
        split_ifs at hw with hone
        cases hw
        omega
    · exact h.pos u hu w n hw
  · intro u hu
    have hother := fun hsame => h.ok.slot_eq_of_sameKey ht hu (h.key ▸ hsame)
    unfold count
    rw [hslot u hu]
    split_ifs with hsame
    · rw [hother hsame]
      rcases hfind : s.slot t with _ | ⟨w, n⟩
      · rfl
      · simp only [RefTable.take]
        split_ifs with hone
        · rw [hone]
          rfl
        · rfl
    · rfl

abbrev Counted (d : Columns v) (s : RefTable) (op : RefTable.Op) : Prop := op.Within d.head ∧ s.Spare op

lemma HeadOk.inserts {ts : List Tuple} (h : HeadOk d s)
    (hts : Throughout RefTable.step (Counted d) s (ts.map .insert)) :
    HeadOk d (s.run (ts.map .insert)) ∧ ∀ u, Typed d.head.cols u →
      count (s.run (ts.map .insert)) u = count s u + ts.countP (sameKey v.key · u) := by
  induction ts generalizing s with
  | nil => exact ⟨h, fun _ _ => rfl⟩
  | cons t ts ih =>
    obtain ⟨⟨ht, hspare⟩, hts⟩ := hts
    obtain ⟨hok, hcount⟩ := h.insert ht hspare
    obtain ⟨hok', hcount'⟩ := ih hok hts
    refine ⟨hok', fun u hu => ?_⟩
    rw [countP_cons, ← Nat.add_assoc, Nat.add_right_comm, ← hcount u hu]
    exact hcount' u hu

lemma HeadOk.removes {ts : List Tuple} (h : HeadOk d s)
    (hts : Throughout RefTable.step (Counted d) s (ts.map .remove)) :
    HeadOk d (s.run (ts.map .remove)) ∧ ∀ u, Typed d.head.cols u →
      count (s.run (ts.map .remove)) u = count s u - ts.countP (sameKey v.key · u) := by
  induction ts generalizing s with
  | nil => exact ⟨h, fun _ _ => rfl⟩
  | cons t ts ih =>
    obtain ⟨⟨ht, -⟩, hts⟩ := hts
    obtain ⟨hok, hcount⟩ := h.remove ht
    obtain ⟨hok', hcount'⟩ := ih hok hts
    refine ⟨hok', fun u hu => ?_⟩
    rw [countP_cons, Nat.add_comm, Nat.sub_add_eq, ← hcount u hu]
    exact hcount' u hu

/-! ## Changes of body tables -/

def Tells : Event × Tuple → List Tuple → List Tuple → Prop
  | (.INSERT, t), old, new => new.Perm (t :: old)
  | (.DELETE, t), old, new => old.Perm (t :: new)
  | _, _, _ => False

/-- The events that a call gives notice of say how it changes the rows. A tuple that is inserted again,
or removed and still counted, changes nothing. -/
def Noticed (s : RefTable) (op : RefTable.Op) : Prop :=
  notices s op = [] ∧ (s.step op).common.scan = s.common.scan ∨
    ∃ e, notices s op = [e] ∧ Tells e s.common.scan (s.step op).common.scan

lemma noticed_insert {S : Schema} (h : s.Ok S) (ht : t ∈ S.tuples)
    (hsame : ∀ found ∈ s.slot t, found.1.compareTo t = .eq) : Noticed s (.insert t) := by
  rcases hfind : s.common.primaryIndex.findKey s.common.key t with _ | found
  · have hnew := (h.slot_eq_none (S.typed t ht)).mp (Option.map_eq_none_iff.mpr hfind)
    obtain ⟨-, -, hperm⟩ := h.insertTuple ht hnew
    have hstep : s.step (.insert t) = s.insertTuple t := by
      simp [RefTable.step, RefTable.insert, hfind]
    refine Or.inr ⟨(.INSERT, t), by simp only [notices, hfind], ?_⟩
    rw [hstep]
    exact hperm.map _
  · have hequal : found.tuple.compareTo t = .eq := hsame _ (Option.map_eq_some_iff.mpr ⟨_, hfind, rfl⟩)
    have hstep : s.step (.insert t) = s.setCount found.addr (s.refCount found.addr + 1) := by
      simp [RefTable.step, RefTable.insert, hfind, hequal]
    refine Or.inl ⟨by simp only [notices, hfind, hequal, if_true], ?_⟩
    rw [hstep]
    rfl

lemma noticed_remove {S : Schema} (h : s.Ok S) (ht : Typed S.cols t) : Noticed s (.remove t) := by
  rcases hfind : s.common.primaryIndex.findKey s.common.key t with _ | found
  · have hstep : s.step (.remove t) = s := by
      simp [RefTable.step, RefTable.remove, hfind]
    exact Or.inl ⟨by simp only [notices, hfind], by rw [hstep]⟩
  · obtain ⟨-, hperm⟩ := h.common.removeFound (ht.on _) hfind
    by_cases hzero : s.refCount found.addr - 1 = 0
    · have hstep : s.step (.remove t) =
          (s.setCount found.addr (s.refCount found.addr - 1)).removeTuple t found := by
        simp [RefTable.step, RefTable.remove, hfind, hzero]
      refine Or.inr ⟨(.DELETE, found.tuple), by simp only [notices, hfind, hzero, if_true], ?_⟩
      rw [hstep]
      exact hperm.map _
    · have hstep : s.step (.remove t) = s.setCount found.addr (s.refCount found.addr - 1) := by
        simp [RefTable.step, RefTable.remove, hfind, hzero]
      refine Or.inl ⟨by simp only [notices, hfind, hzero, if_false], ?_⟩
      rw [hstep]
      rfl

lemma noticed_change {S : Schema} (h : s.Ok S) {op : RefTable.Op} (hop : op.Within S)
    (hallowed : (∃ t, op = .insert t ∧ ∀ found ∈ s.slot t, found.1.compareTo t = .eq) ∨
      ∃ t, op = .remove t) : (s.step op).Ok S ∧ Noticed s op := by
  rcases hallowed with ⟨t, rfl, hsame⟩ | ⟨t, rfl⟩
  · exact ⟨(h.insert hop).1, noticed_insert h hop hsame⟩
  · exact ⟨(h.remove hop).1, noticed_remove h hop⟩

/-! ## Rows to which the waiting events are still to be applied -/

variable {T : Name} {D D' D₀ D₁ : Name → List Tuple} {e : Event × Tuple} {q : List (Event × Tuple)}

/-- Two predicates of the body are not both of the table. -/
def Single (v : View) (T : Name) : Prop :=
  v.rule.functors.Pairwise fun f g => ¬ (f.name = T ∧ g.name = T)

/-- A tuple more in a table, and no combination takes it twice. -/
def Grows (v : View) (T : Name) (t : Tuple) (D D' : Name → List Tuple) : Prop :=
  (∀ name, (D' name).Perm (if name = T then t :: D name else D name)) ∧ v.TakenOnce T t D'

def Advances (v : View) (T : Name) (D₀ D₁ : Name → List Tuple) : Event × Tuple → Prop
  | (.INSERT, t) => v.Grows T t D₀ D₁
  | (.DELETE, t) => v.Grows T t D₁ D₀
  | _ => False

/-- The events of the queue of a table lead from some rows to those of the tables. Where more than
one waits, the table is that of one predicate. -/
def Replay (v : View) (T : Name) (D : Name → List Tuple) :
    (Name → List Tuple) → List (Event × Tuple) → Prop
  | D₀, [] => ∀ name, (D₀ name).Perm (D name)
  | D₀, e :: q => (v.Single T ∨ q = []) ∧ ∃ D₁, v.Advances T D₀ D₁ e ∧ Replay v T D D₁ q

lemma forall₂_offers (h : ∀ name, (D name).Perm (D' name)) :
    Forall₂ Perm (v.offers D) (v.offers D') := by
  unfold offers
  rw [forall₂_map_left_iff, forall₂_map_right_iff, forall₂_same]
  exact fun f _ => (h f.name).map _

lemma TakenOnce.congr (h : v.TakenOnce T t D) (hperm : ∀ name, (D name).Perm (D' name)) :
    v.TakenOnce T t D' := by
  intro c hc
  apply h c
  rw [mem_sections] at hc ⊢
  unfold offers at hc ⊢
  rw [forall₂_map_right_iff] at hc ⊢
  exact hc.imp fun x f hx => ((hperm f.name).map (f, ·)).mem_iff.mpr hx

lemma Single.takenOnce (h : v.Single T) (t : Tuple) (D : Name → List Tuple) :
    v.TakenOnce T t D := by
  intro c hc _
  have hfunctors : Forall₂ (· = ·) (c.map Prod.fst) v.rule.functors := by
    rw [mem_sections, offers, forall₂_map_right_iff] at hc
    rw [forall₂_map_left_iff]
    refine hc.imp fun x f hx => ?_
    obtain ⟨t, -, rfl⟩ := mem_map.mp hx
    rfl
  rw [forall₂_eq_eq_eq] at hfunctors
  unfold Single at h
  rw [← hfunctors, pairwise_map] at h
  exact h.imp fun hne hxy => hne ⟨hxy.1.1, hxy.2.1⟩

lemma Advances.congr (h : v.Advances T D D₁ e) (hperm : ∀ name, (D₀ name).Perm (D name)) :
    v.Advances T D₀ D₁ e := by
  obtain ⟨kind, t⟩ := e
  have hif : ∀ name, (if name = T then t :: D name else D name).Perm
      (if name = T then t :: D₀ name else D₀ name) := by
    intro name
    split_ifs
    · exact (hperm name).symm.cons t
    · exact (hperm name).symm
  cases kind with
  | INSERT => exact ⟨fun name => (h.1 name).trans (hif name), h.2⟩
  | DELETE => exact ⟨fun name => (hperm name).trans (h.1 name), h.2.congr fun name => (hperm name).symm⟩
  | RECV => exact h
  | REFRESH => exact h

lemma Advances.off (h : v.Advances T D₀ D₁ e) {name : Name} (hname : name ≠ T) :
    (D₀ name).Perm (D₁ name) := by
  obtain ⟨kind, t⟩ := e
  cases kind with
  | INSERT => simpa only [if_neg hname] using (h.1 name).symm
  | DELETE => simpa only [if_neg hname] using h.1 name
  | RECV => exact h.elim
  | REFRESH => exact h.elim

lemma Replay.off (h : v.Replay T D D₀ q) {name : Name} (hname : name ≠ T) :
    (D₀ name).Perm (D name) := by
  induction q generalizing D₀ with
  | nil => exact h name
  | cons e q ih =>
    obtain ⟨-, D₁, hadv, hrest⟩ := h
    exact (hadv.off hname).trans (ih hrest)

lemma Replay.concat (h : v.Replay T D D₀ q) (hq : v.Single T ∨ q = [])
    (hadv : v.Advances T D D' e) : v.Replay T D' D₀ (q ++ [e]) := by
  induction q generalizing D₀ with
  | nil => exact ⟨Or.inr rfl, D', hadv.congr h, fun _ => Perm.refl _⟩
  | cons e' q ih =>
    obtain ⟨-, D₁, hadv', hrest⟩ := h
    have hsingle : v.Single T := hq.resolve_right (cons_ne_nil _ _)
    exact ⟨Or.inl hsingle, D₁, hadv', ih hrest (Or.inl hsingle)⟩

/-! ## Evaluating an event -/

def derives (v : View) (u : Tuple) (c : List (Functor × Tuple)) : Bool :=
  ((v.derived c).map fun fields => sameKey v.key (headTuple v.rule.head.name 0 fields) u).getD false

lemma unordered_derives (v : View) (u : Tuple) : Unordered (v.derives u) := by
  intro c c' hperm
  unfold derives derived
  rw [v.reading.order _ _ c c' hperm]

lemma isSome_of_derives {c : List (Functor × Tuple)} (h : v.derives u c = true) :
    (v.derived c).isSome := by
  unfold derives at h
  rcases hc : v.derived c with _ | fields
  · rw [hc] at h
    cases h
  · rfl

def ofTable (T : Name) (f : Functor) : Bool := f.name = T

/-- The predicates of a table, each with the others of the body. -/
def turnsOf (v : View) (T : Name) : List (Functor × List Functor) :=
  (turns v.rule.functors).filter fun x => ofTable T x.1

/-- The number of combinations with a tuple that the delta rules of its table find. -/
def found (v : View) (u : Tuple) (T : Name) (t : Tuple) (D : Name → List Tuple) : ℕ :=
  gained (v.derives u) (·, t) ((v.turnsOf T).map fun x => (x.1, x.2.map (rowsOf D)))

/-- **What the delta rules find is what the tuple adds**, whether they see the other predicates with
the tuple or without it. -/
lemma Grows.number_eq (h : v.Grows T t D D')
    (hsee : (∀ x ∈ v.turnsOf T, ∀ f ∈ x.2, (D₀ f.name).Perm (D f.name)) ∨
      ∀ x ∈ v.turnsOf T, ∀ f ∈ x.2, (D₀ f.name).Perm (D' f.name)) (u : Tuple) :
    number (v.derives u) (v.offers D') = number (v.derives u) (v.offers D) + v.found u T t D₀ := by
  obtain ⟨hperm, honce⟩ := h
  have hrows : ∀ f, (rowsOf D' f).Perm (grown (ofTable T) (·, t) (rowsOf D) f) := by
    intro f
    refine ((hperm f.name).map _).trans ?_
    unfold grown ofTable
    simp only [decide_eq_true_eq]
    split_ifs
    · exact Perm.refl _
    · exact Perm.refl _
  have hoffers : Forall₂ Perm (v.offers D')
      (v.rule.functors.map (grown (ofTable T) (·, t) (rowsOf D))) := by
    unfold offers
    rw [forall₂_map_left_iff, forall₂_map_right_iff, forall₂_same]
    exact fun f _ => hrows f
  have honce' : Lib.Once (v.derives u) (fun x => x.1.name = T ∧ x.2 = t)
      (v.rule.functors.map (grown (ofTable T) (·, t) (rowsOf D))) := by
    intro c hc hderives
    refine honce c ?_ (isSome_of_derives hderives)
    rw [mem_sections, forall₂_map_right_iff] at hc
    rw [mem_sections, offers, forall₂_map_right_iff]
    exact hc.imp fun x f hx => (hrows f).mem_iff.mpr hx
  have hgrow := fun H hH => number_grow (H := H) (v.unordered_derives u)
    (fun f hf => ⟨of_decide_eq_true hf, rfl⟩) hH honce'
  rw [number_congr hoffers]
  unfold found
  rcases hsee with hsee | hsee
  · have hsame := gained_congr (v.derives u) (·, t) (D := rowsOf D₀) (E := rowsOf D)
      fun x hx f hf => (hsee x hx f hf).map (f, ·)
    rw [hgrow (rowsOf D) fun _ => Or.inl rfl, hsame]
    rfl
  · have hsame := gained_congr (v.derives u) (·, t) (D := rowsOf D₀)
      (E := grown (ofTable T) (·, t) (rowsOf D))
      fun x hx f hf => ((hsee x hx f hf).map (f, ·)).trans (hrows f)
    rw [hgrow _ fun _ => Or.inr rfl, hsame]
    rfl

/-- The fields of the head tuples that the delta rules of a table derive from a tuple. -/
def deltas (v : View) (T : Name) (t : Tuple) (D : Name → List Tuple) : List (List Value) :=
  (v.turnsOf T).flatMap fun x =>
    (x.2.map (rowsOf D)).sections.filterMap fun c => v.derived ((x.1, t) :: c)

lemma countP_deltas (v : View) (u : Tuple) (T : Name) (t : Tuple) (D : Name → List Tuple) :
    (v.deltas T t D).countP (fun fields =>
      sameKey v.key (headTuple v.rule.head.name 0 fields) u) = v.found u T t D := by
  unfold deltas found
  induction v.turnsOf T with
  | nil => rfl
  | cons x l ih =>
    rw [flatMap_cons, countP_append, ih, countP_filterMap, map_cons, gained, number_singleton_cons]
    rfl

def Distinct (v : View) : Prop :=
  ((allViewRules v.tables v.rule).map (·.toRuleString v.text)).Nodup

lemma headOps_eq (hv : v.Distinct) (s : State) (T : Name) (t : Tuple) {kind : Event}
    {action : Action} (op : Tuple → RefTable.Op)
    (h : kind = .INSERT ∧ action = .ADD ∨ kind = .DELETE ∧ action = .DELETE)
    (hop : ∀ t, action.op t = some (op t)) :
    headOps v.reading v.rules s T (kind, t) = (((v.deltas T t s.contents).zipIdx s.nextID).map
      fun x => headTuple v.rule.head.name x.2 x.1).map op := by
  have hderive : (v.rules.filter fun r => r.event.1 = kind ∧ r.event.2.name = T).flatMap
      (·.derive v.reading s.contents t) =
        (v.deltas T t s.contents).map ((action, v.rule.head), ·) := by
    -- the rules matter by their bodies only
    let pick := fun b : (Event × Functor) × (Action × Functor) × List Functor × List Term =>
      decide (b.1.1 = kind ∧ b.1.2.name = T)
    let fire := fun b : (Event × Functor) × (Action × Functor) × List Functor × List Term =>
      ((b.2.2.1.map (rowsOf s.contents)).sections.filterMap fun c =>
        v.reading.head b.2.1.2 b.2.2.2 ((b.1.2, t) :: c)).map (b.2.1, ·)
    have hbodies : (v.rules.filter fun r => r.event.1 = kind ∧ r.event.2.name = T).flatMap
        (·.derive v.reading s.contents t) = ((v.rules.map (·.body)).filter pick).flatMap fire := by
      rw [filter_map, flatMap_map]
      rfl
    rw [hbodies, rules, rewriteViewRule_of_nodup v.hard v.isLocal hv]
    unfold deltas turnsOf
    induction turns v.rule.functors with
    | nil => rfl
    | cons x l ih =>
      rw [flatMap_cons, filter_append, flatMap_append, ih]
      by_cases hx : x.1.name = T
      · rcases h with ⟨rfl, rfl⟩ | ⟨rfl, rfl⟩
        · simp [pick, fire, ofTable, deltaBody, hx, derived]
        · simp [pick, fire, ofTable, deltaBody, hx, derived]
      · simp [pick, ofTable, deltaBody, hx]
  unfold headOps
  rw [hderive, zipIdx_map, filterMap_map, map_map]
  simp only [comp_def, Prod.map_fst, Prod.map_snd, hop, filterMap_eq_map']
  rfl

lemma fieldsLt_congr {t t' u u' : Tuple} (ht : t.fields = t'.fields) (hu : u.fields = u'.fields)
    (key : Key) : fieldsLt key t u = fieldsLt key t' u' := by
  induction key with
  | nil => rfl
  | cons i key ih => simp [fieldsLt, ht, hu, ih]

lemma countP_headTuple (v : View) (u : Tuple) (fields : List (List Value)) (ID : ℕ) :
    ((fields.zipIdx ID).map fun x => headTuple v.rule.head.name x.2 x.1).countP
        (sameKey v.key · u) =
      fields.countP fun fields => sameKey v.key (headTuple v.rule.head.name 0 fields) u := by
  have hsame : ∀ x : List Value × ℕ, sameKey v.key (headTuple v.rule.head.name x.2 x.1) u =
      sameKey v.key (headTuple v.rule.head.name 0 x.1) u := by
    intro x
    unfold sameKey keyedLt
    rw [if_neg v.key_ne_nil, if_neg v.key_ne_nil, if_neg v.key_ne_nil, if_neg v.key_ne_nil]
    have hfields : (headTuple v.rule.head.name x.2 x.1).fields =
        (headTuple v.rule.head.name 0 x.1).fields := rfl
    rw [fieldsLt_congr hfields rfl, fieldsLt_congr rfl hfields]
  rw [countP_map]
  conv_rhs => rw [← zipIdx_map_fst (l := fields) (i := ID), countP_map]
  exact congrArg (countP · _) (funext hsame)

lemma HeadOk.evaluate (hv : v.Distinct) {s : State} (h : HeadOk d s.head)
    (hcount : ∀ u, Typed d.head.cols u →
      count s.head u = number (v.derives u) (v.offers D₀)) (hadv : v.Advances T D₀ D₁ e)
    (hsee : ∀ x ∈ v.turnsOf T, ∀ f ∈ x.2, (s.contents f.name).Perm (D₁ f.name))
    (hops : Throughout RefTable.step (Counted d) s.head (headOps v.reading v.rules s T e)) :
    HeadOk d (s.head.run (headOps v.reading v.rules s T e)) ∧ ∀ u, Typed d.head.cols u →
      count (s.head.run (headOps v.reading v.rules s T e)) u =
        number (v.derives u) (v.offers D₁) := by
  obtain ⟨kind, t⟩ := e
  cases kind with
  | INSERT =>
    have heq := headOps_eq hv s T t .insert (Or.inl ⟨rfl, rfl⟩) fun _ => rfl
    rw [heq] at hops ⊢
    obtain ⟨hok, hrun⟩ := h.inserts hops
    refine ⟨hok, fun u hu => ?_⟩
    rw [hrun u hu, hcount u hu, countP_headTuple, countP_deltas]
    exact (Grows.number_eq hadv (Or.inr hsee) u).symm
  | DELETE =>
    have heq := headOps_eq hv s T t .remove (Or.inr ⟨rfl, rfl⟩) fun _ => rfl
    rw [heq] at hops ⊢
    obtain ⟨hok, hrun⟩ := h.removes hops
    refine ⟨hok, fun u hu => ?_⟩
    rw [hrun u hu, hcount u hu, countP_headTuple, countP_deltas,
      Grows.number_eq hadv (Or.inl hsee) u, Nat.add_sub_cancel]
  | RECV => exact hadv.elim
  | REFRESH => exact hadv.elim

/-! ## The invariant -/

/-- The counts of the head are those of rows to which the events of one queue are still to be
applied. -/
structure Inv (d : Columns v) (s : State) : Prop where
  base : ∀ name, (s.table name).Ok (d.body name)
  head : HeadOk d s.head
  pending : ∃ T D, (∀ name, name ≠ T → s.queue name = []) ∧ v.Replay T s.contents D (s.queue T) ∧
    ∀ u, Typed d.head.cols u → count s.head u = number (v.derives u) (v.offers D)

lemma Inv.init (d : Columns v) : Inv d v.init := by
  refine ⟨fun name => RefTable.ok_mk' _ _,
    ⟨RefTable.ok_mk' _ _, rfl, fun u _ w n hw => by cases hw⟩, [], fun _ => [], fun _ _ => rfl,
    fun _ => Perm.refl _, fun u _ => ?_⟩
  obtain ⟨f, fs, hfs⟩ := exists_cons_of_ne_nil v.nonempty
  unfold offers
  rw [hfs]
  exact number_nil_cons.symm

/-- No other table has waiting events; and the table is that of one predicate, or has none itself
and no combination takes the tuple twice. -/
def Calm (v : View) (s : State) : Step → Prop
  | .change name op => (∀ other, other ≠ name → s.queue other = []) ∧
      (v.Single name ∨ s.queue name = [] ∧ ∀ e ∈ notices (s.table name) op,
        v.TakenOnce name e.2 s.contents ∧
          v.TakenOnce name e.2 (v.step s (.change name op)).contents)
  | .evaluate _ => True

lemma contents_change (v : View) (s : State) (name : Name) (op : RefTable.Op) :
    (v.step s (.change name op)).contents =
      update s.contents name ((s.table name).step op).common.scan := by
  funext n
  show (update s.table name _ n).common.scan = _
  rw [update_apply, update_apply]
  split_ifs
  · rfl
  · rfl

lemma advances_update {rows : List Tuple} (h : Tells e (D T) rows)
    (honce : v.TakenOnce T e.2 D ∧ v.TakenOnce T e.2 (update D T rows)) :
    v.Advances T D (update D T rows) e := by
  obtain ⟨kind, t⟩ := e
  cases kind with
  | INSERT =>
    refine ⟨fun n => ?_, honce.2⟩
    rw [update_apply]
    split_ifs with hn
    · rw [hn]
      exact h
    · exact Perm.refl _
  | DELETE =>
    refine ⟨fun n => ?_, honce.1⟩
    rw [update_apply]
    split_ifs with hn
    · rw [hn]
      exact h
    · exact Perm.refl _
  | RECV => exact h.elim
  | REFRESH => exact h.elim

/-- Where the queues of the other tables are empty, the queue of this one is what is still to be
applied. -/
lemma Inv.replay {s : State} (h : Inv d s) {name : Name}
    (hothers : ∀ other, other ≠ name → s.queue other = []) :
    ∃ D, v.Replay name s.contents D (s.queue name) ∧
      ∀ u, Typed d.head.cols u → count s.head u = number (v.derives u) (v.offers D) := by
  obtain ⟨T, D, hqueues, hreplay, hcount⟩ := h.pending
  refine ⟨D, ?_, hcount⟩
  by_cases hT : T = name
  · exact hT ▸ hreplay
  · rw [hothers T hT] at hreplay
    rw [hqueues name (Ne.symm hT)]
    exact hreplay

lemma Inv.change {s : State} (h : Inv d s) {name : Name} {op : RefTable.Op}
    (hadmits : d.Admits s (.change name op)) (hcalm : v.Calm s (.change name op)) :
    Inv d (v.step s (.change name op)) := by
  obtain ⟨-, hwithin, hallowed⟩ := hadmits
  obtain ⟨hothers, hready⟩ := hcalm
  rw [contents_change] at hready
  obtain ⟨hok, hnoticed⟩ := noticed_change (h.base name) hwithin hallowed
  have hbase : ∀ n, ((v.step s (.change name op)).table n).Ok (d.body n) := by
    intro n
    show (update s.table name _ n).Ok _
    rw [update_apply]
    split_ifs with hn
    · rw [hn]
      exact hok
    · exact h.base n
  obtain ⟨hnotices, hscan⟩ | ⟨e, hnotices, htells⟩ := hnoticed
  · -- nothing has changed, and no event waits that did not wait before
    refine ⟨hbase, h.head, ?_⟩
    have hqueue : (v.step s (.change name op)).queue = s.queue := by
      show update s.queue name (s.queue name ++ notices _ _) = _
      rw [hnotices, append_nil, update_eq_self]
    have hsame : update s.contents name (s.table name).common.scan = s.contents := update_eq_self _ _
    rw [hqueue, contents_change, hscan, hsame]
    exact h.pending
  obtain ⟨D, hreplay, hcount⟩ := h.replay hothers
  have hadv : v.Advances name s.contents (v.step s (.change name op)).contents e := by
    rw [contents_change]
    refine advances_update htells ?_
    rcases hready with hsingle | ⟨-, honce⟩
    · exact ⟨hsingle.takenOnce e.2 _, hsingle.takenOnce e.2 _⟩
    · exact honce e (by rw [hnotices]; exact mem_singleton_self e)
  refine ⟨hbase, h.head, name, D, fun n hn => ?_, ?_, hcount⟩
  · exact (update_of_ne hn _ _).trans (hothers n hn)
  · show v.Replay name _ D (update s.queue name _ name)
    rw [update_self, hnotices]
    exact hreplay.concat (hready.imp_right And.left) hadv

lemma turnsOf_ne (h : v.Single T) {x : Functor × List Functor} (hx : x ∈ v.turnsOf T)
    {f : Functor} (hf : f ∈ x.2) : f.name ≠ T := by
  obtain ⟨hx, hname⟩ := mem_filter.mp hx
  have hpair := ((turns_perm hx).pairwise_iff fun hne hxy => hne hxy.symm).mpr h
  exact fun hfT => (pairwise_cons.mp hpair).1 f hf ⟨of_decide_eq_true hname, hfT⟩

lemma Inv.evaluate (hv : v.Distinct) {s : State} (h : Inv d s) {name : Name}
    (hadmits : d.Admits s (.evaluate name)) : Inv d (v.step s (.evaluate name)) := by
  rcases hqueue : s.queue name with _ | ⟨e, rest⟩
  · have hstep : v.step s (.evaluate name) = s := by
      simp [State.step, hqueue]
    rw [hstep]
    exact h
  · have hstep : v.step s (.evaluate name) =
        { s with
          head := s.head.run (headOps v.reading v.rules s name e)
          queue := update s.queue name rest
          nextID := s.nextID + (headOps v.reading v.rules s name e).length } := by
      simp [State.step, hqueue]
    obtain ⟨T, D, hqueues, hreplay, hcount⟩ := h.pending
    have hT : T = name := by
      by_contra hne
      rw [hqueues name (Ne.symm hne)] at hqueue
      cases hqueue
    subst hT
    rw [hqueue] at hreplay
    obtain ⟨hsingle, D₁, hadv, hrest⟩ := hreplay
    have hsee : ∀ x ∈ v.turnsOf T, ∀ f ∈ x.2, (s.contents f.name).Perm (D₁ f.name) := by
      intro x hx f hf
      rcases hsingle with hsingle | rfl
      · exact (hrest.off (turnsOf_ne hsingle hx hf)).symm
      · exact (hrest f.name).symm
    obtain ⟨hok, hcount'⟩ := h.head.evaluate hv hcount hadv hsee (hadmits e rest hqueue)
    rw [hstep]
    refine ⟨h.base, hok, T, D₁, fun n hn => ?_, ?_, hcount'⟩
    · exact (update_of_ne hn _ _).trans (hqueues n hn)
    · show v.Replay T s.contents D₁ (update s.queue T rest T)
      rw [update_self]
      exact hrest

lemma Inv.run (hv : v.Distinct) {s : State} (h : Inv d s) {steps : List Step}
    (hsteps : Throughout v.step (fun s x => d.Admits s x ∧ v.Calm s x) s steps) :
    Inv d (steps.foldl v.step s) := by
  refine hsteps.foldl (Inv d) (fun s x h hx => ?_) h
  cases x with
  | change name op => exact h.change hx.1 hx.2
  | evaluate name => exact h.evaluate hv hx.1

lemma HeadOk.count_pos (h : HeadOk d s) (hu : Typed d.head.cols u) :
    0 < count s u ↔ ∃ t ∈ s.common.scan, sameKey v.key t u := by
  unfold count
  constructor
  · intro hpos
    rcases hslot : s.slot u with _ | ⟨w, n⟩
    · rw [hslot] at hpos
      exact absurd hpos (lt_irrefl 0)
    · obtain ⟨r, hr, hsame, -, -⟩ := h.ok.exists_of_slot hu hslot
      exact ⟨r.tuple, mem_map_of_mem hr, h.key ▸ hsame⟩
  · rintro ⟨t, ht, hsame⟩
    obtain ⟨r, hr, rfl⟩ := mem_map.mp ht
    have hslot := h.ok.slot_of_mem hu hr (h.key ▸ hsame)
    rw [hslot]
    exact h.pos u hu _ _ hslot

lemma mem_contents {c : List (Functor × Tuple)} {fs : List Functor}
    (h : Forall₂ (fun x f => x ∈ rowsOf D f) c fs) : ∀ x ∈ c, x.2 ∈ D x.1.name := by
  induction h with
  | nil => exact forall_mem_nil _
  | cons hxf _ ih =>
    intro x hx
    rcases mem_cons.mp hx with rfl | hx
    · obtain ⟨t, ht, rfl⟩ := mem_map.mp hxf
      exact ht
    · exact ih x hx

lemma Inv.exact {s : State} (h : Inv d s) (hqueues : ∀ name, s.queue name = []) : v.Exact s := by
  obtain ⟨T, D, -, hreplay, hcount⟩ := h.pending
  rw [hqueues T] at hreplay
  have hiff : ∀ u, Typed d.head.cols u → ((∃ t ∈ s.head.common.scan, sameKey v.key t u) ↔
      ∃ c ∈ (v.offers s.contents).sections, v.derives u c = true) := by
    intro u hu
    rw [← h.head.count_pos hu, hcount u hu, number_congr (forall₂_offers hreplay), number_pos_iff]
  have htyped : ∀ c ∈ (v.offers s.contents).sections, ∀ fields, v.derived c = some fields →
      Typed d.head.cols (headTuple v.rule.head.name 0 fields) := by
    intro c hc fields
    apply d.typed c fields
    rw [mem_sections, offers, forall₂_map_right_iff] at hc
    exact fun x hx => (h.base x.1.name).common.scan_mem _ (mem_contents hc x hx)
  have hformed : ∀ c fields, v.derived c = some fields →
      v.Formed (headTuple v.rule.head.name 0 fields) :=
    fun c fields hc => ⟨fields, rfl, v.arity c fields hc⟩
  have hstored := h.head.ok.common.scan_mem
  refine ⟨fun t ht => ?_, fun c hc fields hfields => ?_⟩
  · have htmem := hstored t ht
    have hself := sameKey_refl d.head.lawful (d.head.typed t htmem) v.key
    obtain ⟨c, hc, hderives⟩ := (hiff t (d.head.typed t htmem)).mp ⟨t, ht, hself⟩
    unfold derives at hderives
    rcases hfields : v.derived c with _ | fields
    · rw [hfields] at hderives
      cases hderives
    · rw [hfields] at hderives
      exact ⟨c, hc, fields, hfields, compareTo_of_sameKey d (hformed c fields hfields)
        (d.form t htmem) (htyped c hc fields hfields) (d.head.typed t htmem) hderives⟩
  · have hu := htyped c hc fields hfields
    have hderives : v.derives (headTuple v.rule.head.name 0 fields) c = true := by
      unfold derives
      rw [hfields]
      exact sameKey_refl d.head.lawful hu v.key
    obtain ⟨t, ht, hsame⟩ := (hiff _ hu).mpr ⟨c, hc, hderives⟩
    have htmem := hstored t ht
    exact ⟨t, ht, compareTo_of_sameKey d (hformed c fields hfields) (d.form t htmem) hu
      (d.head.typed t htmem) (sameKey_symm hsame)⟩

/-! ## The main results -/

def Alone (s : State) : Step → Prop
  | .change name _ => ∀ other, other ≠ name → s.queue other = []
  | .evaluate _ => True

/-- **A view over distinct tables is exact** where a table changes only while no event of another
table waits: in every run in which no event waits at the end, the head table holds what the rows
derive.
Hyps: `hv` says that no two delta rules have the same text; `d` that the values of each column are
ordered; `hsteps` that no count overflows -/
theorem view_exact (v : View) (d : Columns v) (hv : v.Distinct)
    (htables : (v.rule.functors.map (·.name)).Nodup) (steps : List Step)
    (hsteps : Throughout v.step (fun s x => d.Admits s x ∧ Alone s x) v.init steps)
    (hqueues : ∀ name, (steps.foldl v.step v.init).queue name = []) :
    v.Exact (steps.foldl v.step v.init) := by
  have hsingle : ∀ name, v.Single name := by
    intro name
    refine (pairwise_map.mp htables).imp ?_
    rintro f g hne ⟨hf, hg⟩
    exact hne (hf.trans hg.symm)
  refine Inv.exact (d := d) ((Inv.init d).run hv (hsteps.imp ?_)) hqueues
  rintro s (⟨name, op⟩ | name) ⟨hadmits, halone⟩
  · exact ⟨hadmits, halone, Or.inl (hsingle name)⟩
  · exact ⟨hadmits, trivial⟩

/-- No combination that derives something takes the changed tuple for two predicates. -/
def UsedOnce (v : View) (s : State) : Step → Prop
  | .change name op => ∀ e ∈ notices (s.table name) op, v.TakenOnce name e.2 s.contents ∧
      v.TakenOnce name e.2 (v.step s (.change name op)).contents
  | .evaluate _ => True

def settled (changes : List (Name × RefTable.Op)) : List Step :=
  changes.flatMap fun x => [.change x.1 x.2, .evaluate x.1]

lemma Inv.settled (hv : v.Distinct) {s : State} (h : Inv d s) (hqueues : ∀ name, s.queue name = [])
    {changes : List (Name × RefTable.Op)}
    (hsteps : Throughout v.step (fun s x => d.Admits s x ∧ v.UsedOnce s x) s (settled changes)) :
    Inv d ((View.settled changes).foldl v.step s) ∧
      ∀ name, ((View.settled changes).foldl v.step s).queue name = [] := by
  induction changes generalizing s with
  | nil => exact ⟨h, hqueues⟩
  | cons x changes ih =>
    obtain ⟨⟨hadmits, honce⟩, ⟨hadmits', -⟩, hrest⟩ := hsteps
    have hchange := h.change hadmits ⟨fun n _ => hqueues n, Or.inr ⟨hqueues x.1, honce⟩⟩
    refine ih (hchange.evaluate hv hadmits') (fun n => ?_) hrest
    -- the event of the change, if there is one, has been evaluated
    have hqueue : (v.step s (.change x.1 x.2)).queue =
        update s.queue x.1 (notices (s.table x.1) x.2) := by
      show update s.queue x.1 (s.queue x.1 ++ notices _ _) = _
      rw [hqueues x.1]
      rfl
    have hfirst := congrFun hqueue x.1
    rw [update_self] at hfirst
    have hother : n ≠ x.1 → (v.step s (.change x.1 x.2)).queue n = [] := by
      intro hn
      rw [hqueue, update_of_ne hn, hqueues n]
    obtain ⟨-, ⟨hnotices, -⟩ | ⟨e, hnotices, -⟩⟩ :=
      noticed_change (h.base x.1) hadmits.2.1 hadmits.2.2
    · rw [hnotices] at hfirst
      have hlast : v.step (v.step s (.change x.1 x.2)) (.evaluate x.1) =
          v.step s (.change x.1 x.2) := by
        simp only [step, State.step] at hfirst ⊢
        rw [hfirst]
      rw [hlast]
      by_cases hn : n = x.1
      · rw [hn, hfirst]
      · exact hother hn
    · rw [hnotices] at hfirst
      have hlast : (v.step (v.step s (.change x.1 x.2)) (.evaluate x.1)).queue =
          update (v.step s (.change x.1 x.2)).queue x.1 [] := by
        simp only [step, State.step] at hfirst ⊢
        rw [hfirst]
      rw [hlast, update_apply]
      split_ifs with hn
      · rfl
      · exact hother hn

/-- **A view is exact after each change**, self-joins included, where no combination that derives
something takes the changed tuple for two predicates.
Hyps: as for `view_exact` -/
theorem self_join_exact (v : View) (d : Columns v) (hv : v.Distinct)
    (changes : List (Name × RefTable.Op))
    (hsteps : Throughout v.step (fun s x => d.Admits s x ∧ v.UsedOnce s x) v.init (settled changes)) :
    (∀ name, ((settled changes).foldl v.step v.init).queue name = []) ∧
      v.Exact ((settled changes).foldl v.step v.init) := by
  obtain ⟨hinv, hqueues⟩ := (Inv.init d).settled hv (fun _ => rfl) hsteps
  exact ⟨hqueues, hinv.exact hqueues⟩

/-! ## Two joins -/

def numbers (x : Functor × Tuple) : List (Name × Int64) :=
  ((fieldNames x.1).zip x.2.fields.tail).filterMap fun y =>
    match y.2 with
    | .int64 i => some (y.1, i)
    | _ => none

lemma agree_perm {W W' : List (Name × Int64)} (hperm : W.Perm W') :
    Agree (· = ·) W ↔ Agree (· = ·) W' :=
  hperm.pairwise_iff fun hpq hqp => (hpq hqp.symm).symm

lemma lookup_perm {W W' : List (Name × Int64)} (hperm : W.Perm W') (h : Agree (· = ·) W)
    (x : Name) : W.lookup x = W'.lookup x := by
  induction hperm with
  | nil => rfl
  | cons p _ ih =>
    rw [lookup_cons, lookup_cons, ih (pairwise_cons.mp h).2]
  | swap p q W =>
    have hqp := (pairwise_cons.mp h).1 p mem_cons_self
    rw [lookup_cons, lookup_cons, lookup_cons]
    rcases hx : x == p.1 with _ | _
    · rfl
    · rcases hy : x == q.1 with _ | _
      · rfl
      · exact congrArg some (hqp ((eq_of_beq hy).symm.trans (eq_of_beq hx)))
  | trans hperm _ ih ih' => exact (ih h).trans (ih' ((agree_perm hperm).mp h))

/-- Rules over numbers whose head has one variable and whose body has predicates only: rows match if
their numbers agree. -/
def natural : Reading where
  head f _ c := if Agree (· = ·) (c.flatMap numbers) then
    ((fieldNames f).head?.bind fun x => (c.flatMap numbers).lookup x).map ([.int64 ·]) else none
  order f _ c c' hperm := by
    have hW : (c.flatMap numbers).Perm (c'.flatMap numbers) := hperm.flatMap_right numbers
    have hagree := agree_perm hW
    by_cases h : Agree (· = ·) (c.flatMap numbers)
    · rw [if_pos h, if_pos (hagree.mp h)]
      rw [show (fun x => (c.flatMap numbers).lookup x) = fun x => (c'.flatMap numbers).lookup x from
        funext (lookup_perm hW h)]
    · rw [if_neg h, if_neg (mt hagree.mpr h)]

def atom' (name : Name) (xs : List Name) : Functor :=
  { name := name, args := .var [88] true :: xs.map (.var · false) }

def joinRule (f g : Functor) : Rule where
  ruleID := [114, 49]
  head := atom' [104] []
  deleteFlag := false
  terms := [.functor f, .functor g]

def joinTables (f g : Functor) : Tables :=
  [[104], f.name, g.name].map fun name =>
    { tableName := name, timeout := .posInfin, size := 0, primaryKeys := [1] }

lemma length_natural {f : Functor} {terms : List Term} {c : List (Functor × Tuple)}
    {fields : List Value} (h : natural.head f terms c = some fields) : ∃ i, fields = [.int64 i] := by
  unfold natural at h
  simp only at h
  split_ifs at h
  obtain ⟨i, -, rfl⟩ := Option.map_eq_some_iff.mp h
  exact ⟨i, rfl⟩

def joinView (f g : Functor) (hsoft : softStateRule (joinTables f g) (joinRule f g) = false)
    (hlocal : ∀ x ∈ [f, g], localHead (joinRule f g) x) (hapart : ∀ x ∈ [f, g], x.name ≠ [104]) :
    View where
  rule := joinRule f g
  tables := joinTables f g
  text _ := []
  reading := natural
  key := [1]
  keys _ := (range f.args.length).map (· + 1)
  hard := hsoft
  isLocal := hlocal
  nonempty := cons_ne_nil _ _
  apart := hapart
  arity c fields h := by
    obtain ⟨i, rfl⟩ := length_natural h
    rfl
  mem_key i := by
    show i ∈ [1] ↔ 1 ≤ i ∧ i ≤ 1
    rw [mem_singleton]
    omega

/-- Rows of numbers, one for each identifier. -/
def numberRows (name : Name) (rows : ℕ → List Int64) : Schema where
  cols := numberCols
  lawful := lawful_numberCols
  tuples := Set.range fun ID => { ID := ID, fields := .str name :: (rows ID).map .int64 }
  typed := by
    rintro _ ⟨ID, rfl⟩
    exact typed_numberCols rfl (forall_mem_map.mpr fun n _ => ⟨n, rfl⟩)
  unique := by
    rintro _ ⟨ID, rfl⟩ _ ⟨ID', rfl⟩ (rfl : ID = ID')
    rfl

def joinColumns (f g : Functor) (hsoft : softStateRule (joinTables f g) (joinRule f g) = false)
    (hlocal : ∀ x ∈ [f, g], localHead (joinRule f g) x) (hapart : ∀ x ∈ [f, g], x.name ≠ [104])
    (rows : ℕ → List Int64) : Columns (joinView f g hsoft hlocal hapart) where
  head := numberRows [104] fun _ => [0]
  body name := numberRows name rows
  form t ht := by
    obtain ⟨ID, rfl⟩ := ht
    exact ⟨[.int64 0], rfl, rfl⟩
  typed c fields _ h := by
    obtain ⟨i, rfl⟩ := length_natural h
    intro k w hw
    match k, hw with
    | 0, rfl => exact ⟨_, rfl⟩
    | 1, rfl => exact ⟨_, rfl⟩

def twoTables : View :=
  joinView (atom' [114] []) (atom' [115] []) rfl (by decide) (by decide)

def selfJoin : View :=
  joinView (atom' [116] [[89]]) (atom' [116] [[90]]) rfl (by decide) (by decide)

def rowOf (name : Name) : Tuple := { ID := 0, fields := [.str name, .int64 0] }

def twoColumns : Columns twoTables := joinColumns _ _ _ _ _ fun _ => [0]

lemma distinct_twoTables : twoTables.Distinct := by
  unfold Distinct
  decide +kernel

def twoChanges : List (Name × RefTable.Op) :=
  [([114], .insert (rowOf [114])), ([115], .insert (rowOf [115]))]

def tableOf : Step → Name
  | .change name _ => name
  | .evaluate name => name

lemma queue_of_ne {name : Name} (steps : List Step) (h : ∀ x ∈ steps, tableOf x ≠ name) (s : State) :
    (steps.foldl v.step s).queue name = s.queue name := by
  induction steps generalizing s with
  | nil => rfl
  | cons x steps ih =>
    rw [foldl_cons, ih fun y hy => h y (mem_cons_of_mem _ hy)]
    have hne := (h x mem_cons_self).symm
    cases x with
    | change other op => exact update_of_ne hne _ _
    | evaluate other =>
      simp only [step, State.step]
      split
      · rfl
      · exact update_of_ne hne _ _

lemma along_twoChanges : Throughout twoTables.step (fun s x => twoColumns.Admits s x ∧ Alone s x)
    twoTables.init (settled twoChanges) := by
  have hrow : ∀ name, rowOf name ∈ (numberRows name fun _ => [0]).tuples :=
    fun name => ⟨0, rfl⟩
  refine ⟨⟨⟨⟨atom' [114] [], mem_cons_self, rfl⟩, hrow _, Or.inl ⟨_, rfl, nofun⟩⟩, fun _ _ => rfl⟩,
    ⟨fun e rest he => ?_, trivial⟩,
    ⟨⟨⟨atom' [115] [], mem_cons_of_mem _ mem_cons_self, rfl⟩, hrow _,
      Or.inl ⟨_, rfl, nofun⟩⟩, fun other hother => ?_⟩, ⟨fun e rest he => ?_, trivial⟩, trivial⟩
  · cases he
    exact True.intro
  · by_cases hr : other = [114]
    · rw [hr]
      rfl
    · exact queue_of_ne [.change [114] (.insert (rowOf [114])), .evaluate [114]]
        (by simp [tableOf, Ne.symm hr]) twoTables.init
  · cases he
    exact ⟨⟨⟨0, rfl⟩, forall_mem_nil _⟩, True.intro⟩

lemma queue_twoChanges (name : Name) :
    ((settled twoChanges).foldl twoTables.step twoTables.init).queue name = [] := by
  by_cases hr : name = [114]
  · rw [hr]
    rfl
  · by_cases hs : name = [115]
    · rw [hs]
      rfl
    · exact queue_of_ne _ (by simp [settled, twoChanges, tableOf, Ne.symm hr, Ne.symm hs]) _

theorem view_exact_twoChanges :
    twoTables.Exact ((settled twoChanges).foldl twoTables.step twoTables.init) ∧
      ((settled twoChanges).foldl twoTables.step twoTables.init).head.common.scan =
        [headTuple [104] 0 [.int64 0]] :=
  ⟨view_exact twoTables twoColumns distinct_twoTables (by decide) _ along_twoChanges
    queue_twoChanges, rfl⟩

/-- The view `h(@X) :- e(@X, A, B), e(@X, B, C)`. -/
def paths : View :=
  joinView (atom' [101] [[65], [66]]) (atom' [101] [[66], [67]]) rfl (by decide) (by decide)

def edges : ℕ → List Int64
  | 0 => [0, 1, 2]
  | _ => [0, 2, 3]

def edge (ID : ℕ) : Tuple := { ID := ID, fields := .str [101] :: (edges ID).map .int64 }

def pathColumns : Columns paths := joinColumns _ _ _ _ _ edges

def pathChanges : List (Name × RefTable.Op) :=
  [([101], .insert (edge 0)), ([101], .insert (edge 1)), ([101], .insert (edge 1)),
    ([101], .remove (edge 0))]

lemma distinct_paths : paths.Distinct := by
  unfold Distinct
  decide +kernel

/-- An edge does not follow itself. -/
lemma takenOnce_edge (ID : ℕ) (D : Name → List Tuple) : paths.TakenOnce [101] (edge ID) D := by
  intro c hc hderived
  rw [mem_sections] at hc
  obtain _ | ⟨hx, _ | ⟨hy, ⟨⟩⟩⟩ := hc
  obtain ⟨t, -, rfl⟩ := mem_map.mp hx
  obtain ⟨u, -, rfl⟩ := mem_map.mp hy
  refine pairwise_pair.mpr ?_
  rintro ⟨⟨-, rfl⟩, -, rfl⟩
  rcases ID with _ | ID
  · exact absurd hderived Bool.false_ne_true
  · exact absurd hderived Bool.false_ne_true

theorem self_join_exact_pathChanges :
    (∀ name, ((settled pathChanges).foldl paths.step paths.init).queue name = []) ∧
      paths.Exact ((settled pathChanges).foldl paths.step paths.init) ∧
      ((settled (pathChanges.take 3)).foldl paths.step paths.init).head.common.scan =
        [headTuple [104] 0 [.int64 0]] ∧
      ((settled pathChanges).foldl paths.step paths.init).head.common.scan = [] := by
  have hedge : ∀ ID, edge ID ∈ (numberRows [101] edges).tuples := fun ID => ⟨ID, rfl⟩
  have honce (kind : Event) (ID : ℕ) {s : State} {op : RefTable.Op}
      (hnotices : notices (s.table [101]) op = [(kind, edge ID)]) :
      paths.UsedOnce s (.change [101] op) := by
    intro e he
    rw [hnotices, mem_singleton] at he
    rw [he]
    exact ⟨takenOnce_edge ID _, takenOnce_edge ID _⟩
  have htable : ∃ f ∈ paths.rule.functors, f.name = [101] := ⟨_, mem_cons_self, rfl⟩
  obtain ⟨hqueues, hexact⟩ := self_join_exact paths pathColumns distinct_paths pathChanges (by
    refine ⟨⟨⟨htable, hedge 0, Or.inl ⟨_, rfl, nofun⟩⟩, honce .INSERT 0 rfl⟩,
      ⟨fun e rest he => ?_, trivial⟩,
      ⟨⟨htable, hedge 1, Or.inl ⟨_, rfl, nofun⟩⟩, honce .INSERT 1 rfl⟩,
      ⟨fun e rest he => ?_, trivial⟩,
      ⟨⟨htable, hedge 1, Or.inl ⟨_, rfl, by decide +kernel⟩⟩, nofun⟩,
      ⟨fun e rest he => ?_, trivial⟩,
      ⟨⟨htable, (numberRows [101] edges).typed _ (hedge 0), Or.inr ⟨_, rfl⟩⟩,
        honce .DELETE 0 rfl⟩,
      ⟨fun e rest he => ?_, trivial⟩, trivial⟩
    · cases he
      exact True.intro
    · cases he
      exact ⟨⟨⟨0, rfl⟩, forall_mem_nil _⟩, True.intro⟩
    · cases he
    · cases he
      exact ⟨⟨(numberRows [104] fun _ => [0]).typed _ ⟨1, rfl⟩, True.intro⟩, True.intro⟩)
  exact ⟨hqueues, hexact, rfl, rfl⟩

def overlapping : List Step :=
  [.change [114] (.insert (rowOf [114])), .change [115] (.insert (rowOf [115])), .evaluate [114],
    .evaluate [115], .change [114] (.remove (rowOf [114])), .evaluate [114]]

/-- Each of the two delta rules finds the combination, and the head tuple outlives its rows. -/
theorem overlapping_changes_counted_twice :
    (∀ f ∈ twoTables.rule.functors,
      (overlapping.foldl twoTables.step twoTables.init).queue f.name = []) ∧
    (overlapping.foldl twoTables.step twoTables.init).contents [114] = [] ∧
    ¬ twoTables.Exact (overlapping.foldl twoTables.step twoTables.init) := by
  refine ⟨fun f hf => ?_, rfl, fun h => ?_⟩
  · rcases mem_pair.mp hf with rfl | rfl
    · rfl
    · rfl
  · obtain ⟨c, hc, -⟩ := h.1 (headTuple [104] 0 [.int64 0]) mem_cons_self
    exact absurd hc not_mem_nil

def comesAndGoes : List (Name × RefTable.Op) :=
  [([116], .insert { ID := 0, fields := [.str [116], .int64 0, .int64 0] }),
    ([116], .remove { ID := 1, fields := [.str [116], .int64 0, .int64 0] })]

/-- The row joined with itself is added by both delta rules, and taken away by none. -/
theorem self_join_outlives_row :
    ((settled comesAndGoes).foldl selfJoin.step selfJoin.init).queue [116] = [] ∧
    ((settled comesAndGoes).foldl selfJoin.step selfJoin.init).contents [116] = [] ∧
    ¬ selfJoin.Exact ((settled comesAndGoes).foldl selfJoin.step selfJoin.init) := by
  refine ⟨rfl, rfl, fun h => ?_⟩
  obtain ⟨c, hc, -⟩ := h.1 (headTuple [104] 0 [.int64 0]) mem_cons_self
  exact absurd hc not_mem_nil

end View

end P2.Planner.Eca
