import P2.Lib.Runs
import P2.Planner.Probe

/-!
# `Lookup2`

A tuple that is pushed is looked up in a table; the puller gets a pair for each match, one by one,
and then the empty tuple.

* `Lookup2.step` is one event of the element: a push, or a pull with the table as it is then.
* `Lookup2.probes` reads off the events alone which tuples are looked up, and in which table.
* `Lookup2.lookup_enumerates`: the pulls return, in order, the pairs of each probe with its matches.
-/

namespace P2.Elements

open P2.Value P2.Table P2.Planner P2.Lib List

/-- What a pull returns: a pair, or the empty tuple. -/
inductive Lookup2.Answer where
  | pair (t m : Tuple)
  | empty

/-- The element, and what its neighbours know: how often the pusher pushed and was called, whether a
puller waits that was refused, and what the pulls returned. -/
structure Lookup2 where
  lookupTuple : Option Tuple := none
  lookupTupleValue : Option Tuple := none
  iterator : Option (List Tuple) := none
  pushCallback : Bool := false
  pullCallback : Bool := false
  pushes : ℕ := 0
  called : ℕ := 0
  refused : Bool := false
  returned : List Lookup2.Answer := []

namespace Lookup2

/-- `Lookup2::push`; `none` where an assertion fails. -/
def push (t : Tuple) (s : Lookup2) : Option Lookup2 :=
  match s.lookupTuple with
  | none =>
    if s.pushCallback || s.lookupTupleValue.isSome || s.iterator.isSome then none
    else some { s with
      lookupTuple := some t, lookupTupleValue := some t, pushCallback := true,
      refused := s.refused && !s.pullCallback, pullCallback := false }
  | some _ =>
    -- an overrun
    if s.pushCallback && s.iterator.isSome && s.lookupTupleValue.isSome then some s else none

/-- The end of `pull`, where there is an iterator. -/
def next (value : Tuple) (found : List Tuple) (s : Lookup2) : Answer × Lookup2 :=
  match found with
  | [] => (.empty, { s with
      lookupTuple := none, lookupTupleValue := none, iterator := none, pushCallback := false,
      called := s.called + if s.pushCallback then 1 else 0 })
  | m :: rest => (.pair value m, { s with iterator := some rest })

/-- `Lookup2::pull`: nothing, or a tuple; `none` where an assertion fails. -/
def pull (table : CommonTable) (keys : JoinKeys) (s : Lookup2) : Option (Option Answer × Lookup2) :=
  match s.lookupTuple with
  | none =>
    if s.lookupTupleValue.isSome || s.iterator.isSome then none
    else some (none, { s with pullCallback := true })
  | some t => do
    let value ← s.lookupTupleValue
    match s.iterator with
    | some found =>
      let (a, s) := s.next value found
      return (some a, s)
    | none =>
      let found ← lookup2 table keys t
      let s := { s with iterator := some found }
      if found = [] then return (some (.pair value emptyTuple), s)
      else
        let (a, s) := s.next value found
        return (some a, s)

inductive Event where
  | push (t : Tuple)
  | pull (table : CommonTable)

/-- What an event does, and what the pusher and the puller know afterwards. -/
def step (keys : JoinKeys) (s : Lookup2) : Event → Option Lookup2
  | .push t => (s.push t).map fun s => { s with pushes := s.pushes + 1 }
  | .pull table => do
    let (answer, s) ← s.pull table keys
    return { s with
      refused := s.refused || answer.isNone, returned := s.returned ++ answer.toList }

/-- The pusher waits for its callback; the table can be looked up. -/
def Allowed (keys : JoinKeys) (s : Lookup2) : Event → Prop
  | .push _ => s.called = s.pushes
  | .pull table => ∀ t ∈ s.lookupTuple, s.iterator = none → (lookup2 table keys t).isSome

/-! ## What is to be pulled -/

def probe (probes : List (Tuple × Option CommonTable)) : Event → List (Tuple × Option CommonTable)
  | .push t => probes ++ [(t, none)]
  | .pull table => probes.map fun x => (x.1, x.2 <|> some table)

/-- The tuples that were pushed, each with the table as it was at the first pull behind the push. -/
def probes (events : List Event) : List (Tuple × Option CommonTable) := events.foldl probe []

/-- What the puller is to get for a tuple: a pair for each match, or one with the empty tuple, and the
empty tuple. -/
def answers (keys : JoinKeys) (x : Tuple × Option CommonTable) : List Answer :=
  match x.2.bind (lookup2 · keys x.1) with
  | some found => (pulled found).map (.pair x.1) ++ [.empty]
  | none => []

/-- A table, of lawful values and with the index, in which a tuple can be looked up. -/
structure Searchable (S : Schema) (keys : JoinKeys) (table : CommonTable) (t : Tuple) : Prop where
  ok : table.Ok S
  roomy : table.Roomy
  key : keys.indexKey ≠ []
  nodup : keys.indexKey.Nodup
  length : keys.lookupKey.length = keys.indexKey.length
  fields : HasFields keys.lookupKey t
  values : ∀ p ∈ keys.lookupKey.zip keys.indexKey, ∀ v, t.fields[p.1]? = some v → v ∈ S.cols p.2
  stored : ∀ u ∈ S.tuples, HasFields keys.indexKey u
  index : keys.indexKey = table.key ∨ table.HasIndex keys.indexKey

/-- Where lookups are exact, what a probe finds are the rows that agree with its tuple. -/
lemma Searchable.perm {S : Schema} {keys : JoinKeys} {table : CommonTable} {t : Tuple}
    (h : Searchable S keys table t) : ∃ found, lookup2 table keys t = some found ∧
      found.Perm (table.scan.filter (agrees keys.lookupKey keys.indexKey t)) := by
  have hexact := h.ok.exactLookup h.roomy h.key h.nodup h.length h.fields h.values h.stored h.index
  obtain ⟨found, hfound, hperm⟩ := hexact.exact
  refine ⟨found, ?_, hperm⟩
  unfold lookup2
  split_ifs with hkeys
  · exact hfound
  · exact (hexact.plain (not_not.mp hkeys)).symm.trans hfound

/-! ## The invariant -/

/-- All tuples but the one that waits for its first pull were looked up, and what was pulled is what is
to be pulled for them, but for what the iterator still has. -/
structure Ok (keys : JoinKeys) (ps : List (Tuple × Option CommonTable)) (s : Lookup2) : Prop where
  value : s.lookupTupleValue = s.lookupTuple
  callback : s.pushCallback = s.lookupTuple.isSome
  pushes : s.pushes = ps.length
  called : ps.length = s.called + s.lookupTuple.toList.length
  puller : s.refused = s.pullCallback ∧ (s.lookupTuple.isSome → s.refused = false)
  waiting : s.iterator = none → s.returned = ps.flatMap (answers keys) ∧
    ∃ begun, ps = begun ++ s.lookupTuple.toList.map (·, none) ∧ ∀ x ∈ begun, x.2.isSome
  begun : ∀ rest, s.iterator = some rest → (∀ x ∈ ps, x.2.isSome) ∧ ∃ t ∈ s.lookupTuple,
    s.returned ++ rest.map (.pair t) ++ [.empty] = ps.flatMap (answers keys)

variable {s : Lookup2} {keys : JoinKeys} {ps : List (Tuple × Option CommonTable)}

lemma probe_pull (h : ∀ x ∈ ps, x.2.isSome) (table : CommonTable) : probe ps (.pull table) = ps := by
  refine (map_congr_left fun x hx => ?_).trans (map_id ps)
  obtain ⟨known, hknown⟩ := Option.isSome_iff_exists.mp (h x hx)
  exact Prod.ext rfl (by simp [hknown])

lemma Ok.next (h : s.Ok keys ps) {t : Tuple} (ht : s.lookupTuple = some t) {found : List Tuple}
    (hfound : s.iterator = some found) :
    Ok keys ps { (s.next t found).2 with
      refused := (s.next t found).2.refused || false
      returned := (s.next t found).2.returned ++ [(s.next t found).1] } := by
  obtain ⟨hall, t', ht', hreturned⟩ := h.begun found hfound
  cases ht.symm.trans ht'
  have hcalled := h.called
  rw [ht] at hcalled
  have hfree : s.refused = false := h.puller.2 (by rw [ht]; rfl)
  cases found with
  | nil =>
    refine ⟨rfl, rfl, h.pushes, ?_, ⟨?_, nofun⟩, fun _ => ⟨?_, ps, ?_, hall⟩, nofun⟩
    · simp only [Lookup2.next, h.callback, ht]
      exact hcalled
    · simpa [Lookup2.next] using h.puller.1
    · simpa [Lookup2.next] using hreturned
    · simp [Lookup2.next]
  | cons m rest =>
    refine ⟨h.value, h.callback, h.pushes, h.called, ⟨?_, fun _ => ?_⟩, nofun, fun l hl => ?_⟩
    · simpa [Lookup2.next] using h.puller.1
    · simpa [Lookup2.next] using hfree
    · cases hl
      exact ⟨hall, t, ht, by simpa [Lookup2.next] using hreturned⟩

lemma Ok.iterator_eq_none (h : s.Ok keys ps) (ht : s.lookupTuple = none) : s.iterator = none := by
  cases hiter : s.iterator with
  | none => rfl
  | some rest =>
    obtain ⟨-, t, ht', -⟩ := h.begun rest hiter
    cases ht.symm.trans ht'

/-- The first pull for a tuple has looked it up. -/
lemma Ok.found (h : s.Ok keys ps) {t : Tuple} (ht : s.lookupTuple = some t)
    (hiter : s.iterator = none) {table : CommonTable} {found : List Tuple}
    (hfound : lookup2 table keys t = some found) :
    Ok keys (probe ps (.pull table)) { s with iterator := some (pulled found) } := by
  obtain ⟨hreturned, begun, hps, hbegun⟩ := h.waiting hiter
  rw [ht] at hps
  obtain rfl : ps = begun ++ [(t, none)] := hps
  have hprobe : probe (begun ++ [(t, none)]) (.pull table) = begun ++ [(t, some table)] :=
    map_append.trans (congrArg (· ++ [(t, some table)]) (probe_pull hbegun table))
  have hall : ∀ x ∈ begun ++ [(t, some table)], x.2.isSome :=
    forall_mem_append.mpr ⟨hbegun, forall_mem_singleton.mpr rfl⟩
  rw [hprobe]
  refine ⟨h.value, h.callback, by simpa using h.pushes, by simpa using h.called, h.puller, nofun,
    fun l hl => ?_⟩
  cases hl
  exact ⟨hall, t, ht, by simp [hreturned, answers, hfound]⟩

lemma Ok.pull (h : s.Ok keys ps) {table : CommonTable} (he : s.Allowed keys (.pull table)) :
    ∃ r s', s.pull table keys = some (r, s') ∧ (r.isSome ↔ s.lookupTuple.isSome) ∧
      Ok keys (probe ps (.pull table)) { s' with
        refused := s'.refused || r.isNone, returned := s'.returned ++ r.toList } := by
  obtain ⟨lookupTuple, value, iterator, _, _, _, _, _, returned⟩ := s
  obtain rfl : value = lookupTuple := h.value
  cases value with
  | none =>
    obtain rfl : iterator = none := h.iterator_eq_none rfl
    obtain ⟨hreturned, begun, hps, hbegun⟩ := h.waiting rfl
    obtain rfl : ps = begun := by simpa using hps
    rw [probe_pull hbegun]
    refine ⟨_, _, rfl, Iff.rfl, rfl, h.callback, h.pushes, h.called, ⟨by simp, nofun⟩, fun _ => ?_,
      nofun⟩
    exact ⟨by simpa using hreturned, ps, by simp, hbegun⟩
  | some t =>
    cases iterator with
    | some found =>
      rw [probe_pull (h.begun found rfl).1]
      exact ⟨_, _, rfl, by simp, h.next rfl rfl⟩
    | none =>
      obtain ⟨found, hfound⟩ := Option.isSome_iff_exists.mp (he t rfl rfl)
      have hok := (h.found rfl rfl hfound).next rfl rfl
      simp only [Lookup2.pull, hfound, Option.bind_eq_bind, Option.bind_some]
      cases found with
      | nil => exact ⟨_, _, rfl, by simp, hok⟩
      | cons m rest => exact ⟨_, _, rfl, by simp, hok⟩

lemma Ok.step (h : s.Ok keys ps) {e : Event} (he : s.Allowed keys e) :
    ∃ s', s.step keys e = some s' ∧ s'.Ok keys (probe ps e) := by
  cases e with
  | pull table =>
    obtain ⟨r, s', hpull, -, hok⟩ := h.pull he
    exact ⟨_, by simp [Lookup2.step, hpull], hok⟩
  | push t =>
    obtain ⟨lookupTuple, value, iterator, pushCallback, pullCallback, pushes, called, refused, _⟩ := s
    obtain rfl : value = lookupTuple := h.value
    have hcalled : ps.length = called + value.toList.length := h.called
    obtain rfl : pushes = ps.length := h.pushes
    obtain rfl : value = none := by
      rw [← show called = ps.length from he] at hcalled
      cases value with
      | none => rfl
      | some _ => simp at hcalled
    obtain rfl : iterator = none := h.iterator_eq_none rfl
    obtain rfl : pushCallback = false := h.callback
    obtain rfl : refused = pullCallback := h.puller.1
    obtain ⟨hreturned, begun, hps, hbegun⟩ := h.waiting rfl
    obtain rfl : ps = begun := by simpa using hps
    refine ⟨_, rfl, rfl, rfl, ?_, ?_, ⟨?_, fun _ => ?_⟩, fun _ => ⟨?_, ps, rfl, hbegun⟩, nofun⟩
    · simp [probe]
    · simpa [probe] using hcalled
    · exact Bool.and_not_self _
    · exact Bool.and_not_self _
    · simpa [probe, answers] using hreturned

/-- **Matches are enumerated for each probe.** No assertion fails, and a pull returns something just if
a tuple is there. What the pulls returned is, in order, what is to be pulled for the tuples that were
pushed, with the matches at the first pull for each; all of it once the element is idle, when the pusher
was called once for each tuple. While it is not, no puller that was refused waits. The matches are the
rows of the table that agree with the tuple, each once, where the values compare lawfully. -/
theorem lookup_enumerates (keys : JoinKeys) (events : List Event)
    (h : Permitted (step keys) (Allowed keys) {} events) :
    ∃ s, events.foldlM (step keys) {} = some s ∧
      s.returned <+: (probes events).flatMap (answers keys) ∧
      (s.lookupTuple = none → s.returned = (probes events).flatMap (answers keys) ∧
        s.called = (probes events).length ∧ (∀ x ∈ probes events, x.2.isSome) ∧
        s.pushCallback = false) ∧
      (s.lookupTuple ≠ none → s.called + 1 = (probes events).length ∧ s.refused = false) ∧
      (∀ table, s.Allowed keys (.pull table) → ∃ r s', s.pull table keys = some (r, s') ∧
        (r.isSome ↔ s.lookupTuple.isSome)) ∧
      ∀ t table S, (t, some table) ∈ probes events → Searchable S keys table t →
        ∃ found, found.Perm (table.scan.filter (agrees keys.lookupKey keys.indexKey t)) ∧
          answers keys (t, some table) = (pulled found).map (.pair t) ++ [.empty] := by
  obtain ⟨s, hrun, hok⟩ := h.run_events (fun events s => Ok keys (probes events) s)
    (fun events s e hok he => by simpa [probes] using hok.step he)
    ⟨rfl, rfl, rfl, rfl, ⟨rfl, nofun⟩, fun _ => ⟨rfl, [], rfl, nofun⟩, nofun⟩
  have hcalled := hok.called
  refine ⟨s, hrun, ?_, fun hnone => ?_, fun hsome => ?_, fun table he => ?_,
    fun t table S _ hsearch => ?_⟩
  · cases hiter : s.iterator with
    | none => exact (hok.waiting hiter).1 ▸ prefix_rfl
    | some rest =>
      obtain ⟨-, t, -, hreturned⟩ := hok.begun rest hiter
      exact ⟨_, (append_assoc ..).symm.trans hreturned⟩
  · obtain ⟨hreturned, begun, hps, hbegun⟩ := hok.waiting (hok.iterator_eq_none hnone)
    rw [hnone] at hps hcalled
    exact ⟨hreturned, hcalled.symm, by simpa [hps] using hbegun, by rw [hok.callback, hnone]; rfl⟩
  · obtain ⟨t, ht⟩ := Option.ne_none_iff_exists'.mp hsome
    rw [ht] at hcalled
    exact ⟨hcalled.symm, hok.puller.2 (by rw [ht]; rfl)⟩
  · obtain ⟨r, s', hpull, hr, -⟩ := hok.pull he
    exact ⟨r, s', hpull, hr⟩
  · obtain ⟨found, hfound, hperm⟩ := hsearch.perm
    exact ⟨found, hperm, by simp [answers, hfound]⟩

/-- Two rows have the 2 that the tuple is looked up with. -/
def threeRows : CommonTable :=
  ((Table2.mk' [0] 0 .posInfin).run [.secondaryIndex [1], .insert ⟨0, 0, 0⟩ (Table2.row 12),
    .insert ⟨0, 0, 0⟩ (Table2.row 25), .insert ⟨0, 0, 0⟩ (Table2.row 32)]).common

theorem lookup_enumerates_threeRows : ∃ s,
    [.push (Table2.row 27), .pull threeRows, .pull threeRows, .pull threeRows].foldlM
      (step ⟨[0], [1], []⟩) {} = some s ∧ s.lookupTuple = none ∧ s.called = 1 ∧
    s.returned = [.pair (Table2.row 27) (Table2.row 12), .pair (Table2.row 27) (Table2.row 32), .empty] := by
  obtain ⟨s, hrun, -, hidle, -⟩ := lookup_enumerates ⟨[0], [1], []⟩
    [.push (Table2.row 27), .pull threeRows, .pull threeRows, .pull threeRows] (by
      refine permitted_cons rfl rfl ?_
      refine permitted_cons (by rintro t ⟨⟩ -; rfl) rfl ?_
      exact permitted_cons (fun t _ => nofun) rfl (permitted_cons (fun t _ => nofun) rfl trivial))
  refine ⟨s, hrun, ?_⟩
  cases hrun
  exact ⟨rfl, (hidle rfl).2.1, (hidle rfl).1⟩

end Lookup2

end P2.Elements
