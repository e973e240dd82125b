import P2.Lib.Bindings
import P2.Lib.Runs
import P2.Planner.Probe

/-!
# Probes compute joins

The keys that are compared, the columns that are kept and the names that are merged are computed one
by one. They agree, if no new name occurs twice in a predicate.
-/

namespace P2.Planner

open P2.Value P2.Overlog P2.Table P2.Lib List CommonTable
open Multiset (Rel map_coe coe_bind mem_coe card coe_card)
open Option (some bind_eq_bind bind_eq_some_iff)

/-! ## Names -/

def vars (f : Functor) : List Name := (fieldNames f).map strip

section Names

variable {names more : List Name} {x : Name} {k : ℕ}

lemma fieldPosition_eq_none : fieldPosition names x = none ↔ strip x ∉ names.map strip := by
  unfold fieldPosition
  rw [findIdx?_eq_none_iff, mem_map, not_exists]
  refine forall_congr' fun y => ?_
  rw [not_and, Bool.eq_false_iff, ne_eq, fieldNameEq_iff]

lemma fieldPosition_eq_some (h : fieldPosition names x = some k) :
    ∃ y, names[k]? = some y ∧ strip y = strip x := by
  obtain ⟨hk, hx, -⟩ := findIdx?_eq_some_iff_getElem.mp h
  exact ⟨names[k], List.getElem?_eq_getElem hk, fieldNameEq_iff.mp hx⟩

lemma exists_fieldPosition (h : strip x ∈ names.map strip) : ∃ k, fieldPosition names x = some k := by
  rcases hpos : fieldPosition names x with _ | k
  · exact absurd h (fieldPosition_eq_none.mp hpos)
  · exact ⟨k, rfl⟩

lemma mergeWith_cons : mergeWith names (x :: more) =
    mergeWith (if strip x ∈ names.map strip then names else names ++ [x]) more := by
  unfold mergeWith
  rw [foldl_cons]
  by_cases hx : strip x ∈ names.map strip
  · obtain ⟨k, hk⟩ := exists_fieldPosition hx
    rw [hk, if_pos hx]
    rfl
  · rw [fieldPosition_eq_none.mpr hx, if_neg hx]
    rfl

lemma mem_mergeWith {y : Name} :
    y ∈ (mergeWith names more).map strip ↔ y ∈ names.map strip ∨ y ∈ more.map strip := by
  induction more generalizing names with
  | nil => simp [mergeWith]
  | cons x more ih =>
    rw [mergeWith_cons, ih]
    by_cases hx : strip x ∈ names.map strip
    · have hold : y = strip x → y ∈ names.map strip := fun heq => heq ▸ hx
      rw [if_pos hx, map_cons, mem_cons]
      tauto
    · rw [if_neg hx]
      simp [or_assoc]

lemma mergeWith_eq
    (hnew : (more.map strip).Pairwise fun x y => x = y → x ∈ names.map strip) :
    mergeWith names more = names ++ more.filter (strip · ∉ names.map strip) := by
  induction more generalizing names with
  | nil => exact (append_nil names).symm
  | cons x more ih =>
    rw [map_cons, pairwise_cons] at hnew
    obtain ⟨hx, hmore⟩ := hnew
    rw [mergeWith_cons]
    by_cases hold : strip x ∈ names.map strip
    · rw [if_pos hold, ih hmore, filter_cons_of_neg (by simpa using hold)]
    · have hmore' : (more.map strip).Pairwise
          fun y z => y = z → y ∈ (names ++ [x]).map strip := by
        refine hmore.imp fun hyz heq => ?_
        rw [map_append]
        exact mem_append_left _ (hyz heq)
      have hfilter : more.filter (strip · ∉ (names ++ [x]).map strip) =
          more.filter (strip · ∉ names.map strip) := by
        refine filter_congr fun y hy => ?_
        have hne : strip y ≠ strip x := by
          intro heq
          exact hold (hx (strip y) (mem_map_of_mem hy) heq.symm)
        simp [hne]
      rw [if_neg hold, ih hmore', hfilter, filter_cons_of_pos (by simpa using hold), append_assoc]
      rfl

end Names

/-! ## Keys -/

section Keys

variable {names probeNames : List Name} {m : ℕ}

lemma length_joinKeysFrom (probeNames : List Name) (m : ℕ) (names : List Name) :
    (joinKeysFrom probeNames m names).lookupKey.length =
      (joinKeysFrom probeNames m names).indexKey.length := by
  induction names generalizing m with
  | nil => rfl
  | cons x names ih =>
    unfold joinKeysFrom
    rcases fieldPosition probeNames x with _ | k
    · exact ih (m + 1)
    · exact congrArg Nat.succ (ih (m + 1))

lemma mem_zip_joinKeysFrom {a b : ℕ} :
    (a, b) ∈ (joinKeysFrom probeNames m names).lookupKey.zip
      (joinKeysFrom probeNames m names).indexKey ↔
      ∃ k i x, a = k + 1 ∧ b = m + i ∧ names[i]? = some x ∧ fieldPosition probeNames x = some k := by
  induction names generalizing m with
  | nil => simp [joinKeysFrom]
  | cons x names ih =>
    have hshift : (∃ k i y, a = k + 1 ∧ b = m + 1 + i ∧ names[i]? = some y ∧
        fieldPosition probeNames y = some k) ↔ ∃ k i y, a = k + 1 ∧ b = m + (i + 1) ∧
          (x :: names)[i + 1]? = some y ∧ fieldPosition probeNames y = some k := by
      simp [Nat.add_assoc, Nat.add_comm 1]
    unfold joinKeysFrom
    rcases hpos : fieldPosition probeNames x with _ | k
    · rw [ih, hshift]
      constructor
      · rintro ⟨k, i, y, h⟩
        exact ⟨k, i + 1, y, h⟩
      · rintro ⟨k, i, y, ha, hb, hy, hk⟩
        cases i with
        | zero =>
          cases hy
          rw [hpos] at hk
          cases hk
        | succ i => exact ⟨k, i, y, ha, hb, hy, hk⟩
    · simp only [zip_cons_cons, mem_cons]
      rw [ih, hshift]
      constructor
      · rintro (heq | ⟨k', i, y, h⟩)
        · cases heq
          exact ⟨k, 0, x, rfl, rfl, rfl, hpos⟩
        · exact ⟨k', i + 1, y, h⟩
      · rintro ⟨k', i, y, rfl, rfl, hy, hk⟩
        cases i with
        | zero =>
          cases hy
          rw [hpos] at hk
          cases hk
          exact Or.inl rfl
        | succ i => exact Or.inr ⟨k', i, y, rfl, rfl, hy, hk⟩

lemma mem_indexKey_joinKeysFrom {b : ℕ} (hb : b ∈ (joinKeysFrom probeNames m names).indexKey) :
    m ≤ b ∧ ∃ x, names[b - m]? = some x ∧ strip x ∈ probeNames.map strip := by
  obtain ⟨a, hzip, -⟩ := exists_mem_zip (length_joinKeysFrom probeNames m names) hb
  obtain ⟨k, i, x, -, rfl, hx, hk⟩ := mem_zip_joinKeysFrom.mp hzip
  refine ⟨Nat.le_add_right m i, x, by rwa [Nat.add_sub_cancel_left], ?_⟩
  by_contra hnot
  rw [fieldPosition_eq_none.mpr hnot] at hk
  cases hk

lemma nodup_indexKey_joinKeysFrom (probeNames : List Name) (m : ℕ) (names : List Name) :
    (joinKeysFrom probeNames m names).indexKey.Nodup := by
  induction names generalizing m with
  | nil => exact nodup_nil
  | cons x names ih =>
    unfold joinKeysFrom
    rcases fieldPosition probeNames x with _ | k
    · exact ih (m + 1)
    · refine nodup_cons.mpr ⟨fun hmem => ?_, ih (m + 1)⟩
      have hle := (mem_indexKey_joinKeysFrom hmem).1
      omega

lemma forall₂_remaining (probeNames : List Name) (m : ℕ) (names : List Name) :
    Forall₂ (fun x b => ∃ i, b = m + i ∧ names[i]? = some x)
      (names.filter (strip · ∉ probeNames.map strip))
      (joinKeysFrom probeNames m names).remainingBaseKey := by
  induction names generalizing m with
  | nil => exact .nil
  | cons x names ih =>
    have hrest := (ih (m + 1)).imp (S := fun y b => ∃ i, b = m + i ∧ (x :: names)[i]? = some y)
      fun y b h => by
        obtain ⟨i, rfl, hy⟩ := h
        exact ⟨i + 1, by omega, hy⟩
    unfold joinKeysFrom
    rcases hpos : fieldPosition probeNames x with _ | k
    · rw [filter_cons_of_pos (by simpa using fieldPosition_eq_none.mp hpos)]
      exact .cons ⟨0, rfl, rfl⟩ hrest
    · have hold : strip x ∈ probeNames.map strip := by
        by_contra hnot
        rw [fieldPosition_eq_none.mpr hnot] at hpos
        cases hpos
      rw [filter_cons_of_neg (by simpa using hold)]
      exact hrest

end Keys

/-! ## What a join is -/

def Same (a b : Value) : Prop := compareTo a b = .eq

instance : DecidableRel Same := fun a b => inferInstanceAs (Decidable (compareTo a b = .eq))

/-- The values that a tuple gives to the variables of a predicate. -/
def bindings (f : Functor) (t : Tuple) : List (Name × Value) := (vars f).zip t.fields.tail

/-- Column `k + 1` of the tuple holds the value of the `k`-th name. -/
def Holds (names : List Name) (t : Tuple) (W : List (Name × Value)) : Prop :=
  ∀ k x, names[k]? = some x → ∃ v, (strip x, v) ∈ W ∧ t.fields[k + 1]? = some v

def VarsOnly (f : Functor) : Prop := ∀ a ∈ f.args, (Functor.varName a).isSome

/-- An event tuple and tables as the runs of a node leave them. The values of each variable are
ordered, tuples have a field for each argument, and the indices of the plan are there. -/
structure Strand (ruleID : Name) (event : Functor) (terms : List Functor) where
  tuple : Tuple
  table : Name → CommonTable
  schema : Name → Schema
  key : Name → Key
  types : Name → Set Value
  reached : ∀ name, CommonTable.Moves (schema name) (CommonTable.mk' (key name)) (table name)
  indexed : ∀ probes,
    generateMultipleProbeElements ruleID event.name (fieldNames event) terms = some probes →
    ∀ p ∈ probes, p.keys.indexKey = key p.table ∨ (table p.table).HasIndex p.keys.indexKey
  lawful : ∀ x, LawfulOn (types x)
  size : tuple.fields.length = event.args.length + 1
  typed : TypedBy types (bindings event tuple)
  sizes : ∀ f ∈ terms, ∀ u ∈ (schema f.name).tuples, u.fields.length = f.args.length + 1
  columns : ∀ f ∈ terms, ∀ i x, (fieldNames f)[i]? = some x →
    (schema f.name).cols (i + 1) = types (strip x)

namespace Strand

variable {ruleID : Name} {event : Functor} {terms : List Functor}

def rows (s : Strand ruleID event terms) (f : Functor) : List Tuple := (s.table f.name).scan

/-- The concatenations of the event with a row for each predicate. -/
def combinations (s : Strand ruleID event terms) (before : List Functor) :
    List (List (Name × Value)) :=
  before.foldl (fun Ws f => Ws.flatMap fun W => (s.rows f).map fun u => W ++ bindings f u)
    [bindings event s.tuple]

/-- Those that agree on every pair of occurrences of a variable. -/
def matched (s : Strand ruleID event terms) (before : List Functor) : List (List (Name × Value)) :=
  (s.combinations before).filter (Agree Same ·)

def After (s : Strand ruleID event terms) (before : List Functor) (ts : List Tuple) : Prop :=
  ∃ probes, generateMultipleProbeElements ruleID event.name (fieldNames event) before = some probes ∧
    runProbes s.table probes [s.tuple] = some ts

/-- **Probes compute joins**: behind each probe there is a tuple for each combination that agrees, and
its columns hold the values of the names. -/
def Joins (s : Strand ruleID event terms) : Prop :=
  ∀ before f after, terms = before ++ f :: after → ∃ ts, s.After (before ++ [f]) ts ∧
    Multiset.Rel (Holds (namesBehind event (before ++ [f]))) ts (s.matched (before ++ [f]))

/-- Each combination that agrees can be continued with a row of the next table. -/
def Served (s : Strand ruleID event terms) : Prop :=
  ∀ before f after, terms = before ++ f :: after → ∀ W ∈ s.matched before,
    ∃ u ∈ s.rows f, Agree Same (W ++ bindings f u)

end Strand

def occurring (event : Functor) (before : List Functor) : List Name :=
  vars event ++ before.flatMap vars

/-- No variable occurs twice in the event, and in each table predicate a variable occurs that occurs
further left in the body, as do those that occur twice. -/
def Sound (event : Functor) (terms : List Functor) : Prop :=
  ∀ before f after, terms = before ++ f :: after → (vars event).Nodup ∧
    (∃ x ∈ vars f, x ∈ occurring event before) ∧
    (vars f).Pairwise fun x y => x = y → x ∈ occurring event before

/-! ## Bindings -/

section Bindings

variable {f : Functor} {t : Tuple} {x : Name} {v : Value}

lemma length_fieldNames (hf : VarsOnly f) : (fieldNames f).length = f.args.length := by
  unfold fieldNames
  unfold VarsOnly at hf
  generalize f.args = args at hf ⊢
  induction args with
  | nil => rfl
  | cons a args ih =>
    obtain ⟨ha, hargs⟩ := forall_mem_cons.mp hf
    obtain ⟨name, hname⟩ := Option.isSome_iff_exists.mp ha
    rw [filterMap_cons_some hname]
    exact congrArg Nat.succ (ih hargs)

lemma lt_length (hf : VarsOnly f) (ht : t.fields.length = f.args.length + 1) {i : ℕ}
    (hx : (fieldNames f)[i]? = some x) : i + 1 < t.fields.length := by
  have hi := (List.getElem?_eq_some_iff.mp hx).1
  rw [ht, ← length_fieldNames hf]
  omega

lemma length_vars (hf : VarsOnly f) : (vars f).length = f.args.length :=
  (length_map strip).trans (length_fieldNames hf)

lemma mem_bindings : (x, v) ∈ bindings f t ↔
    ∃ i y, (fieldNames f)[i]? = some y ∧ x = strip y ∧ t.fields[i + 1]? = some v := by
  unfold bindings vars
  rw [mem_iff_getElem?]
  simp only [List.getElem?_zip_eq_some, List.getElem?_map, Option.map_eq_some_iff,
    List.getElem?_tail]
  constructor
  · rintro ⟨i, ⟨y, hy, rfl⟩, hv⟩
    exact ⟨i, y, hy, rfl, hv⟩
  · rintro ⟨i, y, hy, rfl, hv⟩
    exact ⟨i, ⟨y, hy, rfl⟩, hv⟩

lemma map_fst_bindings (hf : VarsOnly f) (ht : t.fields.length = f.args.length + 1) :
    (bindings f t).map Prod.fst = vars f := by
  apply map_fst_zip
  rw [length_vars hf, length_tail, ht]
  rfl

lemma equivOn_same {S : Set Value} (hS : LawfulOn S) : EquivOn Same S where
  refl := hS.refl
  symm _ ha _ hb := hS.eq_symm ha hb
  trans _ ha _ hb _ hc := hS.eq_trans ha hb hc

end Bindings

namespace Strand

variable {ruleID : Name} {event f : Functor} {terms before : List Functor}
  {s : Strand ruleID event terms} {t u : Tuple} {W : List (Name × Value)}

lemma ok (s : Strand ruleID event terms) (name : Name) : (s.table name).Ok (s.schema name) :=
  ((ok_mk' _ _).moves_induction (P := fun _ => True) (s.reached name)
    (fun _ _ _ => trivial) trivial).1

lemma mem_tuples (hu : u ∈ s.rows f) : u ∈ (s.schema f.name).tuples :=
  (s.ok f.name).scan_mem u hu

lemma typedBy_row (hf : f ∈ terms) (hu : u ∈ s.rows f) : TypedBy s.types (bindings f u) := by
  rintro ⟨x, v⟩ hp
  obtain ⟨i, y, hy, rfl, hv⟩ := mem_bindings.mp hp
  have hcol := (s.schema f.name).typed u (mem_tuples hu) (i + 1) v hv
  rwa [s.columns f hf i y hy] at hcol

lemma combinations_concat (s : Strand ruleID event terms) (before : List Functor) (f : Functor) :
    s.combinations (before ++ [f]) = (s.combinations before).flatMap fun W =>
      (s.rows f).map fun u => W ++ bindings f u := by
  unfold combinations
  rw [foldl_append]
  rfl

def next (s : Strand ruleID event terms) (f : Functor) (W : List (Name × Value)) :
    List (List (Name × Value)) :=
  ((s.rows f).filter fun u => Agree Same (W ++ bindings f u)).map fun u => W ++ bindings f u

lemma matched_concat (s : Strand ruleID event terms) (before : List Functor) (f : Functor) :
    s.matched (before ++ [f]) = (s.matched before).flatMap (s.next f) := by
  unfold matched
  rw [combinations_concat, filter_flatMap]
  induction s.combinations before with
  | nil => rfl
  | cons W Ws ih =>
    have hnext : ((s.rows f).map fun u => W ++ bindings f u).filter (Agree Same ·) = s.next f W :=
      filter_map
    rw [flatMap_cons, ih]
    by_cases hW : Agree Same W
    · rw [filter_cons_of_pos (by simpa using hW)]
      exact congrArg (· ++ _) hnext
    · have hnone : s.next f W = [] := by
        unfold next
        rw [map_eq_nil_iff, filter_eq_nil_iff]
        intro u _ hu
        exact hW (agree_append_iff.mp (of_decide_eq_true hu)).1
      rw [filter_cons_of_neg (by simpa using hW)]
      exact congrArg (· ++ _) (hnext.trans hnone)

lemma mem_combinations (hvars : ∀ f ∈ event :: terms, VarsOnly f) (hbefore : before ⊆ terms)
    (hW : W ∈ s.combinations before) :
    W.map Prod.fst = occurring event before ∧ TypedBy s.types W := by
  induction before using reverseRecOn generalizing W with
  | nil =>
    rw [mem_singleton.mp hW]
    refine ⟨?_, s.typed⟩
    rw [map_fst_bindings (hvars event mem_cons_self) s.size]
    exact (append_nil _).symm
  | append_singleton before f ih =>
    obtain ⟨hbefore, hf⟩ := append_subset.mp hbefore
    have hf := hf mem_cons_self
    rw [combinations_concat] at hW
    obtain ⟨W₀, hW₀, hmap⟩ := mem_flatMap.mp hW
    obtain ⟨u, hu, rfl⟩ := mem_map.mp hmap
    obtain ⟨hfst, htyped⟩ := ih hbefore hW₀
    refine ⟨?_, htyped.append (typedBy_row hf hu)⟩
    rw [map_append, hfst, map_fst_bindings (hvars f (mem_cons_of_mem _ hf))
      (s.sizes f hf u (mem_tuples hu))]
    unfold occurring
    rw [flatMap_append, append_assoc, flatMap_singleton]

end Strand

/-! ## One more probe -/

section Concat

variable {ruleID eventName : Name} {event f : Functor} {before : List Functor}

lemma namesBehind_concat (event : Functor) (before : List Functor) (f : Functor) :
    namesBehind event (before ++ [f]) = mergeWith (namesBehind event before) (fieldNames f) := by
  unfold namesBehind
  rw [foldl_append]
  rfl

lemma mem_namesBehind {x : Name} :
    x ∈ (namesBehind event before).map strip ↔ x ∈ occurring event before := by
  induction before using reverseRecOn with
  | nil =>
    unfold occurring
    rw [flatMap_nil, append_nil]
    rfl
  | append_singleton before f ih =>
    rw [namesBehind_concat, mem_mergeWith, ih]
    unfold occurring
    rw [flatMap_append, ← append_assoc, flatMap_singleton]
    exact mem_append.symm

lemma snd_generateProbeElements {names names' : List Name} {probe : Probe}
    (h : generateProbeElements ruleID eventName names f = some (probe, names')) :
    names' = mergeWith names (fieldNames f) := by
  unfold generateProbeElements at h
  simp only at h
  split_ifs at h
  exact (congrArg Prod.snd (some.inj h)).symm

lemma generateMultipleProbeElements_append (names : List Name) (after : List Functor) :
    generateMultipleProbeElements ruleID eventName names (before ++ after) = do
      let probes ← generateMultipleProbeElements ruleID eventName names before
      let probes' ← generateMultipleProbeElements ruleID eventName
        (before.foldl (fun names f => mergeWith names (fieldNames f)) names) after
      return probes ++ probes' := by
  induction before generalizing names with
  | nil =>
    simp only [nil_append, generateMultipleProbeElements, foldl_nil]
    rcases generateMultipleProbeElements ruleID eventName names after with _ | probes
    · rfl
    · rfl
  | cons g before ih =>
    simp only [cons_append, generateMultipleProbeElements, foldl_cons]
    rcases hg : generateProbeElements ruleID eventName names g with _ | ⟨probe, names'⟩
    · rfl
    · simp only [bind_eq_bind, Option.bind_some]
      rw [ih, snd_generateProbeElements hg]
      rcases generateMultipleProbeElements ruleID eventName (mergeWith names (fieldNames g)) before
        with _ | probes
      · rfl
      · rcases generateMultipleProbeElements ruleID eventName _ after with _ | probes'
        · rfl
        · rfl

lemma generateMultipleProbeElements_singleton (names : List Name) :
    generateMultipleProbeElements ruleID eventName names [f] =
      (generateProbeElements ruleID eventName names f).map fun probe => [probe.1] := by
  unfold generateMultipleProbeElements
  rcases generateProbeElements ruleID eventName names f with _ | ⟨probe, names'⟩
  · rfl
  · rfl

lemma runProbes_concat (table : Name → CommonTable) (probes : List Probe) (p : Probe)
    (ts : List Tuple) : runProbes table (probes ++ [p]) ts = do
      let ts ← runProbes table probes ts
      let found ← ts.mapM (runProbe table p)
      return found.flatten := by
  induction probes generalizing ts with
  | nil =>
    rfl
  | cons q probes ih =>
    simp only [cons_append, runProbes]
    rcases ts.mapM (runProbe table q) with _ | found
    · rfl
    · exact ih found.flatten

end Concat

namespace Strand

variable {ruleID : Name} {event f : Functor} {terms before : List Functor}
  {s : Strand ruleID event terms} {ts ts' : List Tuple}

lemma after_nil (s : Strand ruleID event terms) : s.After [] [s.tuple] := ⟨[], rfl, rfl⟩

lemma after_concat : s.After (before ++ [f]) ts' ↔ ∃ ts p names found, s.After before ts ∧
    generateProbeElements ruleID event.name (namesBehind event before) f = some (p, names) ∧
    ts.mapM (runProbe s.table p) = some found ∧ found.flatten = ts' := by
  unfold After
  simp only [generateMultipleProbeElements_append, generateMultipleProbeElements_singleton,
    bind_eq_bind, bind_eq_some_iff, Option.map_eq_some_iff, Prod.exists]
  constructor
  · rintro ⟨_, ⟨probes, hprobes, _, ⟨p, names, hp, rfl⟩, hconcat⟩, hrun⟩
    cases hconcat
    simp only [runProbes_concat, bind_eq_bind, bind_eq_some_iff] at hrun
    obtain ⟨ts, hts, found, hfound, hflatten⟩ := hrun
    exact ⟨ts, p, names, found, ⟨probes, hprobes, hts⟩, hp, hfound, some.inj hflatten⟩
  · rintro ⟨ts, p, names, found, ⟨probes, hprobes, hts⟩, hp, hfound, rfl⟩
    refine ⟨probes ++ [p], ⟨probes, hprobes, [p], ⟨p, names, hp, rfl⟩, rfl⟩, ?_⟩
    simp only [runProbes_concat, bind_eq_bind, bind_eq_some_iff]
    exact ⟨ts, hts, found, hfound, rfl⟩

end Strand

/-! ## The lookup of a probe -/

namespace Strand

variable {ruleID : Name} {event f : Functor} {terms before : List Functor}
  {s : Strand ruleID event terms} {t u : Tuple} {W : List (Name × Value)}

lemma exists_of_mem_zip {names : List Name} (ht : Holds names t W) {a b : ℕ}
    (hab : (a, b) ∈ (joinKeys (fieldNames f) names).lookupKey.zip
      (joinKeys (fieldNames f) names).indexKey) :
    ∃ i x v, b = i + 1 ∧ (fieldNames f)[i]? = some x ∧ (strip x, v) ∈ W ∧ t.fields[a]? = some v := by
  obtain ⟨k, i, x, rfl, rfl, hx, hk⟩ := mem_zip_joinKeysFrom.mp hab
  obtain ⟨y, hy, hstrip⟩ := fieldPosition_eq_some hk
  obtain ⟨v, hv, hcolumn⟩ := ht k y hy
  exact ⟨i, x, v, Nat.add_comm 1 i, hx, hstrip ▸ hv, hcolumn⟩

lemma exists_mem_zip_of_mem {names : List Name} (ht : Holds names t W) {i : ℕ} {x : Name}
    (hx : (fieldNames f)[i]? = some x) (hold : strip x ∈ names.map strip) :
    ∃ a v, (a, i + 1) ∈ (joinKeys (fieldNames f) names).lookupKey.zip
      (joinKeys (fieldNames f) names).indexKey ∧ (strip x, v) ∈ W ∧ t.fields[a]? = some v := by
  obtain ⟨k, hk⟩ := exists_fieldPosition hold
  obtain ⟨y, hy, hstrip⟩ := fieldPosition_eq_some hk
  obtain ⟨v, hv, hcolumn⟩ := ht k y hy
  refine ⟨k + 1, v, mem_zip_joinKeysFrom.mpr ⟨k, i, x, rfl, Nat.add_comm i 1, hx, hk⟩, ?_, hcolumn⟩
  exact hstrip ▸ hv

section Row

variable (hvars : ∀ f ∈ event :: terms, VarsOnly f) (hf : f ∈ terms) (hu : u ∈ s.rows f)
  (hfst : W.map Prod.fst = occurring event before) (htyped : TypedBy s.types W)
  (ht : Holds (namesBehind event before) t W)

include hf hu hfst htyped ht

lemma rel_of_agrees (hW : Agree Same W)
    (h : agrees (joinKeys (fieldNames f) (namesBehind event before)).lookupKey
      (joinKeys (fieldNames f) (namesBehind event before)).indexKey t u) :
    ∀ p ∈ W, ∀ q ∈ bindings f u, p.1 = q.1 → Same p.2 q.2 := by
  rintro ⟨x, v'⟩ hp ⟨_, w⟩ hq rfl
  have hT := fun y => equivOn_same (s.lawful y)
  have hrow := typedBy_row hf hu
  obtain ⟨i, y, hy, rfl, hw⟩ := mem_bindings.mp hq
  have hold : strip y ∈ (namesBehind event before).map strip := by
    rw [mem_namesBehind, ← hfst]
    exact mem_map_of_mem hp
  obtain ⟨a, v, hab, hv, hcolumn⟩ := exists_mem_zip_of_mem ht hy hold
  have hwv : Same w v := by
    have hall := all_eq_true.mp h (a, i + 1) hab
    simp only [hw, hcolumn] at hall
    exact beq_iff_eq.mp hall
  have hvv' := hW.rel hT htyped hp hv rfl
  exact (hT _).trans v' (htyped _ hp) v (htyped _ hv) w (hrow _ hq) hvv'
    ((hT _).symm w (hrow _ hq) v (htyped _ hv) hwv)

include hvars

omit hfst in
lemma agrees_of_rel (h : ∀ p ∈ W, ∀ q ∈ bindings f u, p.1 = q.1 → Same p.2 q.2) :
    agrees (joinKeys (fieldNames f) (namesBehind event before)).lookupKey
      (joinKeys (fieldNames f) (namesBehind event before)).indexKey t u := by
  refine all_eq_true.mpr ?_
  rintro ⟨a, b⟩ hab
  obtain ⟨i, x, v, rfl, hx, hv, hcolumn⟩ := exists_of_mem_zip ht hab
  have hlt := lt_length (hvars f (mem_cons_of_mem _ hf)) (s.sizes f hf u (mem_tuples hu)) hx
  obtain ⟨w, hw⟩ : ∃ w, u.fields[i + 1]? = some w := ⟨_, List.getElem?_eq_getElem hlt⟩
  have hq : (strip x, w) ∈ bindings f u := mem_bindings.mpr ⟨i, x, hx, rfl, hw⟩
  have hvw : Same v w := h _ hv _ hq rfl
  simp only [hw, hcolumn]
  exact beq_iff_eq.mpr ((s.lawful _).eq_symm (htyped _ hv) (typedBy_row hf hu _ hq) hvw)

end Row

lemma generateProbeElements_eq_some {eventName : Name} {names names' : List Name} {p : Probe}
    (h : generateProbeElements ruleID eventName names f = some (p, names')) :
    p.table = f.name ∧ p.keys = joinKeys (fieldNames f) names ∧
      p.pelProject = .text (joinText ++ eventName ++ f.name ++ ruleID) ::
        (range names.length).map (fun k => .probe (k + 1)) ++
        (joinKeys (fieldNames f) names).remainingBaseKey.map .base ∧
      (joinKeys (fieldNames f) names).indexKey ≠ [] := by
  unfold generateProbeElements at h
  simp only at h
  split_ifs at h with hkeys
  cases h
  exact ⟨rfl, rfl, rfl, fun hnil => hkeys (Or.inr hnil)⟩

lemma lookup2_perm (hvars : ∀ f ∈ event :: terms, VarsOnly f) (hf : f ∈ terms)
    (htyped : TypedBy s.types W) {names : List Name} (ht : Holds names t W)
    (hkey : (joinKeys (fieldNames f) names).indexKey ≠ [])
    (hindex : (joinKeys (fieldNames f) names).indexKey = s.key f.name ∨
      (s.table f.name).HasIndex (joinKeys (fieldNames f) names).indexKey) :
    ∃ found, lookup2 (s.table f.name) (joinKeys (fieldNames f) names) t = some found ∧
      found.Perm ((s.rows f).filter (agrees (joinKeys (fieldNames f) names).lookupKey
        (joinKeys (fieldNames f) names).indexKey t)) := by
  obtain ⟨hroom, hsame⟩ := roomy_of_moves (s.reached f.name)
  have hlength : (joinKeys (fieldNames f) names).lookupKey.length =
      (joinKeys (fieldNames f) names).indexKey.length := length_joinKeysFrom names 1 (fieldNames f)
  have hfields : HasFields (joinKeys (fieldNames f) names).lookupKey t := by
    intro a ha
    have hfst := map_fst_zip hlength.le
    rw [← hfst] at ha
    obtain ⟨⟨a, b⟩, hab, rfl⟩ := mem_map.mp ha
    obtain ⟨i, x, v, -, -, -, hcolumn⟩ := exists_of_mem_zip ht hab
    exact (List.getElem?_eq_some_iff.mp hcolumn).1
  have hvalues : ∀ p ∈ (joinKeys (fieldNames f) names).lookupKey.zip
      (joinKeys (fieldNames f) names).indexKey, ∀ v, t.fields[p.1]? = some v →
      v ∈ (s.schema f.name).cols p.2 := by
    rintro ⟨a, b⟩ hab v hv
    obtain ⟨i, x, v', rfl, hx, hv', hcolumn⟩ := exists_of_mem_zip ht hab
    rw [s.columns f hf i x hx, some.inj (hv.symm.trans hcolumn)]
    exact htyped _ hv'
  have hstored : ∀ u ∈ (s.schema f.name).tuples,
      HasFields (joinKeys (fieldNames f) names).indexKey u := by
    intro u hu b hb
    obtain ⟨hle, x, hx, -⟩ := mem_indexKey_joinKeysFrom hb
    have hlt := lt_length (hvars f (mem_cons_of_mem _ hf)) (s.sizes f hf u hu) hx
    omega
  have hexact := (s.ok f.name).exactLookup hroom hkey (nodup_indexKey_joinKeysFrom names 1 _)
    hlength hfields hvalues hstored (hindex.imp_left fun heq => heq.trans hsame.symm)
  obtain ⟨found, hfound, hperm⟩ := hexact.exact
  refine ⟨found, ?_, hperm⟩
  unfold lookup2
  split_ifs with hne
  · exact hfound
  · rw [← hexact.plain (not_not.mp hne)]
    exact hfound

lemma exists_getElem?_of_forall₂ {α β : Type} {R : α → β → Prop} {l : List α} {l' : List β}
    (h : Forall₂ R l l') {j : ℕ} {a : α} (ha : l[j]? = some a) : ∃ b, l'[j]? = some b ∧ R a b := by
  induction h generalizing j with
  | nil => cases ha
  | @cons a' b' l l' hab _ ih =>
    cases j with
    | zero =>
      cases ha
      exact ⟨b', rfl, hab⟩
    | succ j => exact ih ha

lemma exists_transform (text : Name) {names : List Name} (ht : Holds names t W)
    (hu : (fieldNames f).length < u.fields.length)
    (hnew : ((fieldNames f).map strip).Pairwise fun x y => x = y → x ∈ names.map strip) :
    ∃ t', transform (.text text :: (range names.length).map (fun k => .probe (k + 1)) ++
        (joinKeys (fieldNames f) names).remainingBaseKey.map .base) t u = some t' ∧
      Holds (mergeWith names (fieldNames f)) t' (W ++ bindings f u) := by
  have hremaining := forall₂_remaining names 1 (fieldNames f)
  have hrow : ∀ b ∈ (joinKeys (fieldNames f) names).remainingBaseKey, b < u.fields.length := by
    intro b hb
    obtain ⟨j, hj⟩ := mem_iff_getElem?.mp hb
    obtain ⟨x, -, i, rfl, hi⟩ := exists_getElem?_of_forall₂ hremaining.flip hj
    have hlt := (List.getElem?_eq_some_iff.mp hi).1
    omega
  have hrun : ∀ take ∈ (.text text :: (range names.length).map (fun k => .probe (k + 1)) ++
      (joinKeys (fieldNames f) names).remainingBaseKey.map .base : List Take),
      take.run t u = some ((take.run t u).getD .null) := by
    intro take htake
    rw [cons_append, mem_cons, mem_append, mem_map, mem_map] at htake
    rcases htake with rfl | ⟨k, hk, rfl⟩ | ⟨b, hb, rfl⟩
    · rfl
    · have hk := mem_range.mp hk
      obtain ⟨v, -, hv⟩ := ht k names[k] (List.getElem?_eq_getElem hk)
      show t.fields[k + 1]? = some (t.fields[k + 1]?.getD .null)
      rw [hv]
      rfl
    · show u.fields[b]? = some (u.fields[b]?.getD .null)
      rw [List.getElem?_eq_getElem (hrow b hb)]
      rfl
  refine ⟨_, congrArg _ (mapM_eq_some_map hrun), ?_⟩
  rw [mergeWith_eq hnew]
  intro k x hx
  simp only [cons_append, map_cons, List.getElem?_cons_succ, map_append, map_map]
  rcases Nat.lt_or_ge k names.length with hk | hk
  · rw [List.getElem?_append_left hk] at hx
    obtain ⟨v, hv, hcolumn⟩ := ht k x hx
    refine ⟨v, mem_append_left _ hv, ?_⟩
    rw [List.getElem?_append_left (by simpa using hk), List.getElem?_map, List.getElem?_range hk]
    show some (t.fields[k + 1]?.getD .null) = some v
    rw [hcolumn]
    rfl
  · rw [List.getElem?_append_right hk] at hx
    obtain ⟨b, hb, i, rfl, hi⟩ := exists_getElem?_of_forall₂ hremaining hx
    have hlt : i + 1 < u.fields.length := by
      have := (List.getElem?_eq_some_iff.mp hi).1
      omega
    refine ⟨u.fields[i + 1], mem_append_right _ (mem_bindings.mpr
      ⟨i, x, hi, rfl, List.getElem?_eq_getElem hlt⟩), ?_⟩
    rw [List.getElem?_append_right (by simpa using hk), length_map, length_range, List.getElem?_map]
    show Option.map _ (joinKeysFrom names 1 (fieldNames f)).remainingBaseKey[k - names.length]? = _
    rw [hb]
    show some (u.fields[1 + i]?.getD .null) = _
    rw [Nat.add_comm 1 i, List.getElem?_eq_getElem hlt]
    rfl

/-! ## The plan -/

def Planned (_ : Strand ruleID event terms) : Prop :=
  ∃ probes, generateMultipleProbeElements ruleID event.name (fieldNames event) terms = some probes

lemma exists_generateProbeElements {eventName : Name} {names : List Name} :
    (∃ p, generateProbeElements ruleID eventName names f = some p) ↔
      ∃ x ∈ vars f, x ∈ names.map strip := by
  constructor
  · rintro ⟨⟨p, names'⟩, hp⟩
    obtain ⟨-, -, -, hindex⟩ := generateProbeElements_eq_some hp
    obtain ⟨b, hb⟩ := exists_mem_of_ne_nil _ hindex
    obtain ⟨-, x, hx, hold⟩ := mem_indexKey_joinKeysFrom hb
    exact ⟨strip x, mem_map_of_mem (mem_of_getElem? hx), hold⟩
  · rintro ⟨x, hx, hold⟩
    obtain ⟨y, hy, rfl⟩ := mem_map.mp hx
    obtain ⟨i, hi⟩ := mem_iff_getElem?.mp hy
    obtain ⟨k, hk⟩ := exists_fieldPosition hold
    have hzip : (k + 1, 1 + i) ∈ (joinKeys (fieldNames f) names).lookupKey.zip
        (joinKeys (fieldNames f) names).indexKey :=
      mem_zip_joinKeysFrom.mpr ⟨k, i, y, rfl, rfl, hi, hk⟩
    obtain ⟨hlookup, hindex⟩ := of_mem_zip hzip
    unfold generateProbeElements
    rw [if_neg (not_or.mpr ⟨ne_nil_of_mem hlookup, ne_nil_of_mem hindex⟩)]
    exact ⟨_, rfl⟩

lemma Planned.indexed (h : s.Planned) {after : List Functor} (hterms : terms = before ++ f :: after)
    {p : Probe} {names : List Name}
    (hp : generateProbeElements ruleID event.name (namesBehind event before) f = some (p, names)) :
    p.keys.indexKey = s.key p.table ∨ (s.table p.table).HasIndex p.keys.indexKey := by
  obtain ⟨probes, hprobes⟩ := h
  refine s.indexed probes hprobes p ?_
  have hsplit := hprobes
  rw [hterms] at hsplit
  simp only [generateMultipleProbeElements_append, generateMultipleProbeElements,
    bind_eq_bind, bind_eq_some_iff] at hsplit
  obtain ⟨before', -, after', ⟨p', hp', after'', -, hcons⟩, happend⟩ := hsplit
  unfold namesBehind at hp
  rw [hp] at hp'
  cases hp'
  cases hcons
  cases happend
  exact mem_append_right _ mem_cons_self

/-! ## One step -/

section Step

variable (hvars : ∀ f ∈ event :: terms, VarsOnly f) (hplanned : s.Planned) {after : List Functor}
  (hterms : terms = before ++ f :: after) {p : Probe} {names : List Name}
  (hp : generateProbeElements ruleID event.name (namesBehind event before) f = some (p, names))
  (hW : W ∈ s.matched before) (ht : Holds (namesBehind event before) t W)

include hvars hplanned hterms hp hW ht

lemma exists_lookup2 : ∃ found, lookup2 (s.table p.table) p.keys t = some found ∧
    found.Perm ((s.rows f).filter fun u =>
      ∀ p ∈ W, ∀ q ∈ bindings f u, p.1 = q.1 → Same p.2 q.2) := by
  have hf : f ∈ terms := hterms ▸ mem_append_right _ mem_cons_self
  have hbefore : before ⊆ terms := hterms ▸ subset_append_left _ _
  obtain ⟨hcombination, hagree⟩ := mem_filter.mp hW
  obtain ⟨hfst, htyped⟩ := mem_combinations hvars hbefore hcombination
  have hindexed := hplanned.indexed hterms hp
  obtain ⟨htable, hkeys, -, hindex⟩ := generateProbeElements_eq_some hp
  rw [htable, hkeys] at hindexed ⊢
  obtain ⟨found, hfound, hperm⟩ := lookup2_perm hvars hf htyped ht hindex hindexed
  refine ⟨found, hfound, ?_⟩
  rwa [filter_congr fun u hu => ?_] at hperm
  rw [Bool.eq_iff_iff, decide_eq_true_iff]
  exact ⟨rel_of_agrees hf hu hfst htyped ht (of_decide_eq_true hagree),
    agrees_of_rel hvars hf hu htyped ht⟩

/-- **A probe continues each combination that agrees**, if no new variable occurs twice in the
predicate and a row is found. -/
lemma exists_runProbe (hnew : (vars f).Pairwise fun x y => x = y → x ∈ occurring event before)
    (hserved : ∃ u ∈ s.rows f, Agree Same (W ++ bindings f u)) :
    ∃ outs, runProbe s.table p t = some outs ∧
      Rel (Holds (namesBehind event (before ++ [f]))) outs (s.next f W) := by
  have hf : f ∈ terms := hterms ▸ mem_append_right _ mem_cons_self
  have hbefore : before ⊆ terms := hterms ▸ subset_append_left _ _
  obtain ⟨hcombination, hagree⟩ := mem_filter.mp hW
  obtain ⟨hfst, htyped⟩ := mem_combinations hvars hbefore hcombination
  have hsize : ∀ u ∈ s.rows f, u.fields.length = f.args.length + 1 :=
    fun u hu => s.sizes f hf u (mem_tuples hu)
  have hjoin : ∀ u ∈ s.rows f, Agree Same (W ++ bindings f u) ↔
      ∀ p ∈ W, ∀ q ∈ bindings f u, p.1 = q.1 → Same p.2 q.2 := by
    intro u hu
    refine ⟨fun h => (agree_append_iff.mp h).2.2, fun h => ?_⟩
    apply agree_append (fun x => equivOn_same (s.lawful x)) (of_decide_eq_true hagree) htyped
      (typedBy_row hf hu) h
    rw [map_fst_bindings (hvars f (mem_cons_of_mem _ hf)) (hsize u hu), hfst]
    exact hnew
  obtain ⟨found, hfound, hperm⟩ := exists_lookup2 hvars hplanned hterms hp hW ht
  have hfilter : ((s.rows f).filter fun u =>
      ∀ p ∈ W, ∀ q ∈ bindings f u, p.1 = q.1 → Same p.2 q.2) =
      (s.rows f).filter fun u => Agree Same (W ++ bindings f u) :=
    filter_congr fun u hu => decide_eq_decide.mpr (hjoin u hu).symm
  rw [hfilter] at hperm
  have hne : found ≠ [] := by
    obtain ⟨u, hu, hu'⟩ := hserved
    exact ne_nil_of_mem (hperm.mem_iff.mpr (mem_filter.mpr ⟨hu, decide_eq_true hu'⟩))
  -- the tuple that a row gives
  have htransform : ∀ u ∈ found, ∃ t', transform p.pelProject t u = some t' ∧
      Holds (namesBehind event (before ++ [f])) t' (W ++ bindings f u) := by
    intro u hu
    have hu := (mem_filter.mp (hperm.mem_iff.mp hu)).1
    obtain ⟨-, -, hpel, -⟩ := generateProbeElements_eq_some hp
    rw [hpel, namesBehind_concat]
    apply exists_transform _ ht
    · have hlength := length_fieldNames (hvars f (mem_cons_of_mem _ hf))
      rw [hsize u hu]
      omega
    · exact hnew.imp fun h heq => mem_namesBehind.mpr (h heq)
  choose! g hg using htransform
  refine ⟨found.map g, ?_, ?_⟩
  · unfold runProbe
    rw [hfound]
    show (pulled found).mapM _ = _
    unfold pulled
    rw [if_neg hne]
    exact mapM_eq_some_map fun u hu => (hg u hu).1
  · unfold next
    rw [← map_coe, ← map_coe, ← Multiset.coe_eq_coe.mpr hperm, Multiset.rel_map]
    exact Multiset.rel_refl_of_refl_on fun u hu => (hg u hu).2

end Step

/-! ## All steps -/

variable {ts : List Tuple}

lemma matched_nil (hevent : VarsOnly event) (hnodup : (vars event).Nodup) :
    s.matched [] = [bindings event s.tuple] := by
  refine filter_cons_of_pos (decide_eq_true (agree_of_nodup ?_))
  rw [map_fst_bindings hevent s.size]
  exact hnodup

lemma rel_nil (hvars : ∀ f ∈ event :: terms, VarsOnly f) (hnodup : (vars event).Nodup) :
    Rel (Holds (namesBehind event [])) ([s.tuple] : List Tuple) (s.matched []) := by
  have hevent := hvars event mem_cons_self
  rw [matched_nil hevent hnodup]
  refine Rel.cons (fun k x hx => ?_) Rel.zero
  have hlt := lt_length hevent s.size hx
  exact ⟨s.tuple.fields[k + 1], mem_bindings.mpr ⟨k, x, hx, rfl, List.getElem?_eq_getElem hlt⟩,
    List.getElem?_eq_getElem hlt⟩

lemma coe_flatten {α : Type} (F : α → List Tuple) (l : List α) :
    (((l.map F).flatten : List Tuple) : Multiset Tuple) =
      (l : Multiset α).bind fun a => (F a : Multiset Tuple) := by
  rw [coe_bind, flatMap_def]

section Sound

variable (hvars : ∀ f ∈ event :: terms, VarsOnly f) (hplanned : s.Planned)

include hvars hplanned

lemma exists_after_concat (hserved : s.Served) {after : List Functor}
    (hterms : terms = before ++ f :: after)
    (hshared : ∃ x ∈ vars f, x ∈ occurring event before)
    (hnew : (vars f).Pairwise fun x y => x = y → x ∈ occurring event before)
    (hafter : s.After before ts)
    (hrel : Rel (Holds (namesBehind event before)) ts (s.matched before)) :
    ∃ ts', s.After (before ++ [f]) ts' ∧
      Rel (Holds (namesBehind event (before ++ [f]))) ts' (s.matched (before ++ [f])) := by
  obtain ⟨⟨p, names⟩, hp⟩ : ∃ p, generateProbeElements ruleID event.name (namesBehind event before) f =
      some p := by
    obtain ⟨x, hx, hold⟩ := hshared
    exact exists_generateProbeElements.mpr ⟨x, hx, mem_namesBehind.mpr hold⟩
  have hrun : ∀ t W, Holds (namesBehind event before) t W ∧ W ∈ s.matched before →
      runProbe s.table p t = some ((runProbe s.table p t).getD []) ∧
        Rel (Holds (namesBehind event (before ++ [f]))) ((runProbe s.table p t).getD [])
          (s.next f W) := by
    rintro t W ⟨ht, hW⟩
    obtain ⟨outs, houts, hnext⟩ := exists_runProbe hvars hplanned hterms hp hW ht hnew
      (hserved before f after hterms W hW)
    rw [houts]
    exact ⟨rfl, hnext⟩
  have hrel' : Rel (fun t W => Holds (namesBehind event before) t W ∧ W ∈ s.matched before)
      ts (s.matched before) := hrel.mono fun t _ W hW ht => ⟨ht, hW⟩
  have hmap : ts.mapM (runProbe s.table p) =
      some (ts.map fun t => (runProbe s.table p t).getD []) := by
    apply mapM_eq_some_map
    intro t ht
    obtain ⟨W, -, hW⟩ := Multiset.exists_mem_of_rel_of_mem hrel' (mem_coe.mpr ht)
    exact (hrun t W hW).1
  refine ⟨_, after_concat.mpr ⟨ts, p, names, _, hafter, hp, hmap, rfl⟩, ?_⟩
  rw [matched_concat, coe_flatten, ← coe_bind]
  exact Multiset.rel_bind (fun t W h => (hrun t W h).2) hrel'

omit hplanned in
lemma exists_after (hsound : Sound event terms) (hplanned : s.Planned) (hserved : s.Served)
    (hne : terms ≠ []) {after : List Functor} (hterms : terms = before ++ after) :
    ∃ ts, s.After before ts ∧
      Multiset.Rel (Holds (namesBehind event before)) ts (s.matched before) := by
  induction before using reverseRecOn generalizing after with
  | nil =>
    obtain ⟨f, rest, hcons⟩ := exists_cons_of_ne_nil hne
    exact ⟨_, s.after_nil, rel_nil hvars (hsound [] f rest hcons).1⟩
  | append_singleton before f ih =>
    rw [append_assoc] at hterms
    obtain ⟨ts, hafter, hrel⟩ := ih hterms
    obtain ⟨-, hshared, hnew⟩ := hsound before f after hterms
    exact exists_after_concat hvars hplanned hserved hterms hshared hnew hafter hrel

end Sound

/-! ## Counting -/

lemma eq_map_of_mapM {α β : Type} {F : α → Option β} {l : List α} {out : List β} (d : β)
    (h : l.mapM F = some out) :
    (∀ a ∈ l, F a = some ((F a).getD d)) ∧ out = l.map fun a => (F a).getD d := by
  induction l generalizing out with
  | nil =>
    cases h
    exact ⟨forall_mem_nil _, rfl⟩
  | cons a l ih =>
    rw [mapM_cons] at h
    simp only [bind_eq_bind, bind_eq_some_iff] at h
    obtain ⟨b, hb, bs, hbs, hout⟩ := h
    cases hout
    obtain ⟨hall, hmap⟩ := ih hbs
    refine ⟨forall_mem_cons.mpr ⟨?_, hall⟩, ?_⟩
    · rw [hb]
      rfl
    · rw [map_cons, hb, ← hmap]
      rfl

lemma After.unique {ts ts' : List Tuple} (h : s.After before ts) (h' : s.After before ts') :
    ts = ts' := by
  obtain ⟨probes, hprobes, hts⟩ := h
  obtain ⟨probes', hprobes', hts'⟩ := h'
  rw [hprobes] at hprobes'
  cases hprobes'
  rw [hts] at hts'
  exact some.inj hts'

lemma length_pulled (found : List Tuple) :
    found.length ≤ (pulled found).length ∧ 0 < (pulled found).length := by
  unfold pulled
  split_ifs with hnil
  · rw [hnil]
    exact ⟨Nat.zero_le _, Nat.one_pos⟩
  · exact ⟨le_rfl, length_pos_iff.mpr hnil⟩

lemma length_runProbe {p : Probe} {outs found : List Tuple} (hrun : runProbe s.table p t = some outs)
    (hfound : lookup2 (s.table p.table) p.keys t = some found) :
    outs.length = (pulled found).length := by
  unfold runProbe at hrun
  rw [hfound] at hrun
  rw [(eq_map_of_mapM t hrun).2, length_map]

lemma sublist_rows : ((s.rows f).filter fun u => Agree Same (W ++ bindings f u)).Sublist
    ((s.rows f).filter fun u => ∀ p ∈ W, ∀ q ∈ bindings f u, p.1 = q.1 → Same p.2 q.2) := by
  apply monotone_filter_right
  intro u hu
  exact decide_eq_true (agree_append_iff.mp (of_decide_eq_true hu)).2.2

lemma exists_length_eq (hvars : ∀ f ∈ event :: terms, VarsOnly f) (hplanned : s.Planned)
    {after : List Functor} (hterms : terms = before ++ f :: after) (hafter : s.After before ts)
    (hrel : Rel (Holds (namesBehind event before)) ts (s.matched before))
    {ts' : List Tuple} (hafter' : s.After (before ++ [f]) ts')
    (hrel' : Rel (Holds (namesBehind event (before ++ [f]))) ts' (s.matched (before ++ [f])))
    (hW : W ∈ s.matched before) : ∃ found : List Tuple,
      found.Perm ((s.rows f).filter fun u =>
        ∀ p ∈ W, ∀ q ∈ bindings f u, p.1 = q.1 → Same p.2 q.2) ∧
      (pulled found).length = (s.next f W).length := by
  obtain ⟨ts₀, p, names, outs, hafter₀, hp, hmap, rfl⟩ := after_concat.mp hafter'
  cases hafter.unique hafter₀
  obtain ⟨hrun, rfl⟩ := eq_map_of_mapM [] hmap
  have hpairs : Rel (fun t W => t ∈ ts ∧ Holds (namesBehind event before) t W ∧
      W ∈ s.matched before) ts (s.matched before) :=
    hrel.mono fun t ht W hW hholds => ⟨ht, hholds, hW⟩
  have hle : ∀ t W, t ∈ ts ∧ Holds (namesBehind event before) t W ∧ W ∈ s.matched before →
      card (s.next f W : Multiset (List (Name × Value))) ≤
        card ((runProbe s.table p t).getD [] : Multiset Tuple) := by
    rintro t W ⟨ht, hholds, hW⟩
    obtain ⟨found, hfound, hperm⟩ := exists_lookup2 hvars hplanned hterms hp hW hholds
    rw [coe_card, coe_card, length_runProbe (hrun t ht) hfound]
    unfold next
    rw [length_map]
    exact (sublist_rows.length_le.trans hperm.length_eq.ge).trans (length_pulled found).1
  have hcard := Multiset.card_eq_card_of_rel hrel'
  rw [matched_concat, coe_flatten, ← coe_bind] at hcard
  obtain ⟨t, -, ⟨ht, hholds, -⟩, heq⟩ := exists_card_eq hpairs hle hcard (mem_coe.mpr hW)
  obtain ⟨found, hfound, hperm⟩ := exists_lookup2 hvars hplanned hterms hp hW hholds
  refine ⟨found, hperm, ?_⟩
  rw [coe_card, length_runProbe (hrun t ht) hfound] at heq
  exact heq

end Strand

end P2.Planner
