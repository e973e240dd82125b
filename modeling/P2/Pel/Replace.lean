import P2.Pel.Run
import P2.Pel.Safety

/-!
# Replacing a pattern

`STR_REPLACE` looks for the pattern in the string that it is rewriting, and goes on one character
behind the place where it put the replacement: inside of the replacement, or, where the replacement
is empty, behind the first character of what follows: `strReplace_pushes`.
-/

namespace P2.Pel

open P2.Value P2.Lib.Exec List Option Nat

/-! ## Specification -/

/-- The text with the occurrences of the pattern replaced from left to right; an empty pattern occurs
nowhere. -/
def replaceAll (pattern replace : List UInt8) : List UInt8 → List UInt8
  | [] => []
  | c :: cs =>
    if pattern ≠ [] ∧ pattern <+: c :: cs then
      replace ++ replaceAll pattern replace (cs.drop (pattern.length - 1))
    else c :: replaceAll pattern replace cs
  termination_by text => text.length
  decreasing_by
    · rw [length_drop, length_cons]
      omega
    · exact Nat.lt_succ_self _

/-- Where a replacement is followed by some text, the search that goes on behind its first character
meets the same occurrences as a search behind the replacement. -/
def Resumes (pattern replace rest : List UInt8) : Prop :=
  (replace = [] → ¬ pattern <+: rest) ∧
    ∀ j < replace.length, 0 < j → ¬ pattern <+: (replace ++ rest).drop j

/-- The search resumes well behind each occurrence of the pattern. -/
def NoRestart (pattern replace : List UInt8) : List UInt8 → Prop
  | [] => True
  | c :: cs =>
    if pattern <+: c :: cs then
      Resumes pattern replace (cs.drop (pattern.length - 1)) ∧
        NoRestart pattern replace (cs.drop (pattern.length - 1))
    else NoRestart pattern replace cs
  termination_by text => text.length
  decreasing_by
    · rw [length_drop, length_cons]
      omega
    · exact Nat.lt_succ_self _

section Loop

variable {pattern replace rest : List UInt8} {k maxSize : ℕ}

/-! ## Searching -/

lemma findIn_append {front : List UInt8}
    (hfront : ∀ j < front.length, ¬ pattern <+: (front ++ rest).drop j) :
    findIn pattern (front ++ rest) = (findIn pattern rest).map (· + front.length) := by
  induction front with
  | nil =>
    rw [nil_append]
    cases findIn pattern rest <;> rfl
  | cons c cs ih =>
    have hhead : ¬ pattern <+: c :: (cs ++ rest) := hfront 0 (succ_pos _)
    have htail : ∀ j < cs.length, ¬ pattern <+: (cs ++ rest).drop j :=
      fun j hj => hfront (j + 1) (succ_lt_succ hj)
    rw [cons_append, findIn, if_neg (by rwa [ isPrefixOf_iff_prefix]), ih htail, Option.map_map]
    rfl

lemma replaceLoop_skip {front : List UInt8}
    (hfront : ∀ j < front.length, ¬ pattern <+: (front ++ rest).drop j) (n : ℕ)
    (done : List UInt8) :
    replaceLoop maxSize pattern replace n done (front ++ rest) =
      replaceLoop maxSize pattern replace n (done ++ front) rest := by
  cases n with
  | zero => rfl
  | succ n =>
    unfold replaceLoop
    rw [findIn_append hfront]
    cases findIn pattern rest with
    | none => simp
    | some k =>
      have hdrop : (front ++ rest).drop (k + front.length + pattern.length) =
          rest.drop (k + pattern.length) := by
        rw [show k + front.length + pattern.length = front.length + (k + pattern.length) by omega,
          ← drop_drop, drop_left]
      have htake : (front ++ rest).take (k + front.length) = front ++ rest.take k := by
        rw [Nat.add_comm, take_length_add_append]
      simp [hdrop, htake]

lemma replaceAll_of_findIn_none (h : findIn pattern rest = none) :
    replaceAll pattern replace rest = rest := by
  fun_induction findIn pattern rest with
  | case1 | case2 => rw [replaceAll]
  | case3 => cases h
  | case4 c cs hprefix ih =>
    rw [ isPrefixOf_iff_prefix] at hprefix
    rw [replaceAll, if_neg fun hboth => hprefix hboth.2, ih (map_eq_none_iff.mp h)]

lemma replaceAll_of_findIn (hne : pattern ≠ []) (h : findIn pattern rest = some k) :
    replaceAll pattern replace rest =
        rest.take k ++ (replace ++ replaceAll pattern replace (rest.drop (k + pattern.length))) ∧
      (NoRestart pattern replace rest → Resumes pattern replace (rest.drop (k + pattern.length)) ∧
          NoRestart pattern replace (rest.drop (k + pattern.length))) := by
  obtain ⟨m, hm⟩ : ∃ m, pattern.length = m + 1 :=
    exists_eq_succ_of_ne_zero fun h0 => hne (eq_nil_of_length_eq_zero h0)
  fun_induction findIn pattern rest generalizing k with
  | case1 hnil => exact absurd hnil hne
  | case2 => cases h
  | case3 c cs hprefix =>
    rw [ isPrefixOf_iff_prefix] at hprefix
    obtain rfl : 0 = k := some.inj h
    rw [replaceAll, if_pos ⟨hne, hprefix⟩, NoRestart, if_pos hprefix, hm, Nat.add_sub_cancel]
    rw [Nat.zero_add, drop_succ_cons, take_zero, nil_append]
    exact ⟨rfl, id⟩
  | case4 c cs hprefix ih =>
    rw [ isPrefixOf_iff_prefix] at hprefix
    obtain ⟨j, hj, rfl⟩ := map_eq_some_iff.mp h
    obtain ⟨hreplace, hrestart⟩ := ih hj
    rw [replaceAll, if_neg fun hboth => hprefix hboth.2, NoRestart, if_neg hprefix, hreplace,
      show j + 1 + pattern.length = j + pattern.length + 1 by omega, drop_succ_cons]
    exact ⟨rfl, hrestart⟩

/-! ## The loop -/

lemma replaceLoop_found (hne : pattern ≠ []) (hk : findIn pattern rest = some k)
    (hresumes : Resumes pattern replace (rest.drop (k + pattern.length))) (n : ℕ)
    {done : List UInt8} (hsize : (done ++ rest.take k).length +
      (replace ++ rest.drop (k + pattern.length)).length ≤ maxSize) :
    replaceLoop maxSize pattern replace (n + 2) done rest =
      replaceLoop maxSize pattern replace (n + 1) (done ++ rest.take k ++ replace)
        (rest.drop (k + pattern.length)) := by
  rw [replaceLoop, hk]
  simp only
  rw [if_neg hsize.not_gt]
  generalize rest.drop (k + pattern.length) = behind at hresumes
  generalize done ++ rest.take k = done'
  cases replace with
  | nil =>
    rw [append_nil, nil_append]
    cases behind with
    | nil =>
      rw [replaceLoop, findIn, if_neg hne]
      exact congrArg Except.ok (append_nil done').symm
    | cons c cs =>
      -- the character behind an empty replacement is passed over, as no occurrence begins there
      have hskip : replaceLoop maxSize pattern [] (n + 1) done' ([c] ++ cs) =
          replaceLoop maxSize pattern [] (n + 1) (done' ++ [c]) cs := by
        apply replaceLoop_skip
        intro j hj
        obtain rfl : j = 0 := by simpa using hj
        exact hresumes.1 rfl
      exact hskip.symm
  | cons c rs =>
    have hskip : replaceLoop maxSize pattern (c :: rs) (n + 1) (done' ++ [c]) (rs ++ behind) =
        replaceLoop maxSize pattern (c :: rs) (n + 1) (done' ++ [c] ++ rs) behind := by
      apply replaceLoop_skip
      exact fun j hj => hresumes.2 (j + 1) (succ_lt_succ hj) (succ_pos j)
    refine hskip.trans ?_
    rw [append_assoc, singleton_append]

lemma length_le_replaceAll (hle : pattern.length ≤ replace.length) (text : List UInt8) :
    text.length ≤ (replaceAll pattern replace text).length := by
  fun_induction replaceAll pattern replace text with
  | case1 => exact le_rfl
  | case2 c cs hoccurs ih =>
    obtain ⟨hne, hprefix⟩ := hoccurs
    have hpos := length_pos_iff.mpr hne
    rw [length_drop] at ih
    rw [length_append, length_cons]
    omega
  | case3 c cs hnot ih => exact succ_le_succ ih

/-- **The loop replaces the occurrences**, where each search resumes well and the memory suffices
for the text before and after. -/
lemma replaceLoop_eq (hne : pattern ≠ []) (n : ℕ) (done rest : List UInt8)
    (hclean : NoRestart pattern replace rest) (hn : rest.length < n)
    (hsize : done.length + rest.length ≤ maxSize)
    (hsize' : done.length + (replaceAll pattern replace rest).length ≤ maxSize) :
    replaceLoop maxSize pattern replace n done rest =
      .ok (done ++ replaceAll pattern replace rest) := by
  have hpos := length_pos_iff.mpr hne
  induction n generalizing done rest with
  | zero => exact absurd hn (Nat.not_lt_zero _)
  | succ n ih =>
    cases hk : findIn pattern rest with
    | none => rw [replaceLoop, hk, replaceAll_of_findIn_none hk]
    | some k =>
      have hlen := (findIn_spec hk).1
      obtain ⟨hreplace, hrestart⟩ := @replaceAll_of_findIn pattern replace rest k hne hk
      obtain ⟨hresumes, hclean'⟩ := hrestart hclean
      obtain ⟨m, rfl⟩ : ∃ m, n = m + 1 := ⟨n - 1, by omega⟩
      rw [hreplace] at hsize' ⊢
      simp only [length_append, length_take] at hsize'
      have hround : (done ++ rest.take k).length +
          (replace ++ rest.drop (k + pattern.length)).length ≤ maxSize := by
        simp only [length_append, length_take]
        rcases Nat.le_total pattern.length replace.length with hle | hle
        · have := length_le_replaceAll hle (rest.drop (k + pattern.length))
          omega
        · rw [length_drop]
          omega
      rw [replaceLoop_found hne hk hresumes m hround]
      simp only [length_append] at hround
      rw [ih _ _ hclean' (by rw [length_drop]; omega) (by simp only [length_append]; omega)
        (by simp only [length_append, length_take]; omega)]
      simp

lemma replaceLoop_self (n : ℕ) (done rest : List UInt8) (hn : rest.length < n)
    (hsize : done.length + rest.length ≤ maxSize) :
    replaceLoop maxSize pattern pattern n done rest = .ok (done ++ rest) := by
  induction n generalizing done rest with
  | zero => exact absurd hn (Nat.not_lt_zero _)
  | succ n ih =>
    rw [replaceLoop]
    cases hk : findIn pattern rest with
    | none => rfl
    | some k =>
      obtain ⟨behind, hbehind⟩ := (findIn_spec hk).2
      have hafter : pattern ++ rest.drop (k + pattern.length) = rest.drop k := by
        rw [← drop_drop, ← hbehind, drop_left]
      have hlen : (done ++ rest.take k).length + (rest.drop k).length =
          done.length + rest.length := by
        rw [length_append, Nat.add_assoc, ← length_append, take_append_drop]
      simp only [hafter]
      rw [if_neg (by omega)]
      have hsplit := take_append_drop k rest
      cases hdrop : rest.drop k with
      | nil =>
        rw [hdrop, append_nil] at hsplit
        simp [hsplit]
      | cons c cs =>
        have hcs := congrArg List.length hdrop
        rw [length_drop, length_cons] at hcs
        rw [hdrop, length_cons] at hlen
        simp only
        rw [ih _ _ (by omega) (by rw [length_append, length_singleton]; omega),
          append_assoc, append_assoc, singleton_append, ← hdrop, hsplit]

lemma replaceAll_self (text : List UInt8) : replaceAll pattern pattern text = text := by
  fun_induction replaceAll pattern pattern text with
  | case1 => rfl
  | case2 c cs hoccurs ih =>
    obtain ⟨hne, behind, hbehind⟩ := hoccurs
    obtain ⟨p, ps, rfl⟩ := exists_cons_of_ne_nil hne
    obtain ⟨-, hcs⟩ := List.cons.inj hbehind
    rw [ih, ← hbehind, ← hcs]
    simp
  | case3 c cs hnot ih => rw [ih]

lemma replaceLoop_empty (c : UInt8) (rs : List UInt8) (n : ℕ) (done rest : List UInt8) :
    replaceLoop maxSize [] (c :: rs) n done rest = .error (.throws .library) := by
  induction n generalizing done rest with
  | zero => rfl
  | succ n ih =>
    have hk : findIn [] rest = some 0 := by cases rest <;> rfl
    rw [replaceLoop, hk]
    simp only
    split_ifs
    · rfl
    · exact ih _ _

end Loop

/-! ## The opcode -/

/-- The instruction pushes the subject with the occurrences of the pattern replaced. -/
def Replaces (env : Env) (s : State) (st : List Ptr) (pattern replace value : List UInt8) : Prop :=
  execute_instruction env (instruction 0 90) s =
    .ok .PE_SUCCESS { s with st := some (.str (replaceAll pattern replace value)) :: st }

structure ReplaceOperands (env : Env) (s : State) (st : List Ptr)
    (pattern replace value : List UInt8) : Prop where
  stack : ∃ first second third, s.st = first :: second :: third :: st ∧
    castStr env.host s.heap first = .ok pattern ∧ castStr env.host s.heap second = .ok replace ∧
    castStr env.host s.heap third = .ok value
  success : s.error = .PE_SUCCESS

section Opcode

variable {env : Env} {s : State} {st : List Ptr} {pattern replace value text : List UInt8}

lemma strReplace_entry : jump_table[(instruction 0 90 &&& 0xFFFF).toNat]? =
    some ⟨"strreplace", 3, .STR_REPLACE⟩ := by
  rfl

lemma ReplaceOperands.arity (h : ReplaceOperands env s st pattern replace value) :
    3 ≤ s.st.length := by
  obtain ⟨first, second, third, hst, -⟩ := h.stack
  rw [hst]
  exact Nat.le_add_left _ _

lemma op_STR_REPLACE_eq (hoperands : ReplaceOperands env s st pattern replace value) :
    op_STR_REPLACE env s =
      ((read fun _ => replaceLoop env.host.maxSize pattern replace
        (env.host.maxSize + value.length + 1) [] value) >>= fun text =>
          stackPush (some (.str text))) { s with st := st } := by
  obtain ⟨⟨first, second, third, hst, hfirst, hsecond, hthird⟩, -⟩ := hoperands
  obtain ⟨h, _, err, res, k⟩ := s
  obtain rfl : _ = first :: second :: third :: st := hst
  let s' : State := ⟨h, st, err, res, k⟩
  have hread : ∀ {p : Ptr} {t : List UInt8}, castStr env.host h p = .ok t →
      textPtr env p s' = .ok t s' := fun {p} {_} hp =>
    ofExcept_eq_of_ok (x := fun s : State => toString env.host s.heap env.host.room p) hp
  show (textPtr env first >>= _) s' = _
  rw [bind_eq_of_ok (hread hfirst), bind_eq_of_ok (hread hsecond), bind_eq_of_ok (hread hthird)]

lemma execute_strReplace (hoperands : ReplaceOperands env s st pattern replace value)
    (htext : replaceLoop env.host.maxSize pattern replace (env.host.maxSize + value.length + 1) []
      value = .ok text) :
    execute_instruction env (instruction 0 90) s =
      .ok .PE_SUCCESS { s with st := some (.str text) :: st } := by
  have hbody : op_STR_REPLACE env s = .ok () { s with st := some (.str text) :: st } := by
    rw [op_STR_REPLACE_eq hoperands, htext]
    rfl
  rw [execute_instruction_eq strReplace_entry hoperands.arity]
  refine (bind_eq_of_ok (tryCatch_eq_of_ok hbody)).trans ?_
  rw [← hoperands.success]
  rfl

lemma execute_strReplace_error (hoperands : ReplaceOperands env s st pattern replace value)
    (htext : replaceLoop env.host.maxSize pattern replace (env.host.maxSize + value.length + 1) []
      value = .error (.throws .library)) :
    execute_instruction env (instruction 0 90) s = .error (.throws .library) { s with st := st } := by
  have hbody : op_STR_REPLACE env s = .error (.throws .library) { s with st := st } := by
    rw [op_STR_REPLACE_eq hoperands, htext]
    rfl
  have hcatch : tryCatch (op_STR_REPLACE env) (handle env) s =
      .error (.throws .library) { s with st := st } := (tryCatch_eq_of_error hbody).trans rfl
  rw [execute_instruction_eq strReplace_entry hoperands.arity]
  exact bind_eq_of_error hcatch

end Opcode

/-- **The opcode replaces.** It returns and pushes the subject with the occurrences of the pattern
replaced from left to right, if no search meets the replacement or misses what follows it.
Hyps: `hmemory` — the subject and the result fit into the memory -/
theorem strReplace_pushes (env : Env) (s : State) (st : List Ptr)
    (pattern replace value : List UInt8)
    (hoperands : ReplaceOperands env s st pattern replace value)
    (hmemory : value.length ≤ env.host.maxSize ∧
      (replaceAll pattern replace value).length ≤ env.host.maxSize)
    (hclean : pattern = replace ∨ (pattern ≠ [] ∧ NoRestart pattern replace value)) :
    Replaces env s st pattern replace value := by
  apply execute_strReplace hoperands
  rcases hclean with rfl | ⟨hne, hclean⟩
  · rw [replaceAll_self]
    exact replaceLoop_self _ _ _ (by omega) (by rw [length_nil]; omega)
  · rw [replaceLoop_eq hne _ [] value hclean (by omega) (by rw [length_nil]; omega)
      (by rw [length_nil]; omega), nil_append]

def sizedEnv (maxSize : ℕ) : Env := ⟨{ sampleHost with maxSize := maxSize }, 0, 0⟩

def replaceState (pattern replace value : List UInt8) : State where
  heap := ⟨[⟨[], true⟩], [], [], [], []⟩
  st := [some (.str pattern), some (.str replace), some (.str value)]
  error := .PE_SUCCESS
  result := none
  queries := 0

lemma replaceState_operands (maxSize : ℕ) (pattern replace value : List UInt8) :
    ReplaceOperands (sizedEnv maxSize) (replaceState pattern replace value) [] pattern replace value :=
  ⟨⟨_, _, _, rfl, rfl, rfl, rfl⟩, rfl⟩

theorem strReplace_pushes_dbc :
    Replaces (sizedEnv 100) (replaceState [97] [98, 99] [100, 97]) [] [97] [98, 99] [100, 97] := by
  refine strReplace_pushes _ _ [] [97] [98, 99] [100, 97] (replaceState_operands _ _ _ _) ?_ ?_
  · simp [sizedEnv, replaceAll]
  · simp [NoRestart, Resumes]
    decide

/-- **Replacing goes wrong.** An empty pattern is replaced by `x` without end, whatever the size of
the memory. In `abab` with `ab` replaced by nothing the second `ab` stays. -/
theorem strReplace_wrong :
    (¬ ∃ maxSize error t,
      execute_instruction (sizedEnv maxSize) (instruction 0 90) (replaceState [] [120] [97]) =
        .ok error t) ∧
    execute_instruction (sizedEnv 100) (instruction 0 90)
        (replaceState [97, 98] [] [97, 98, 97, 98]) =
      .ok .PE_SUCCESS
        { replaceState [97, 98] [] [97, 98, 97, 98] with st := [some (.str [97, 98])] } ∧
    replaceAll [97, 98] [] [97, 98, 97, 98] = [] ∧
    ¬ Replaces (sizedEnv 100) (replaceState [97, 98] [] [97, 98, 97, 98]) [] [97, 98] []
      [97, 98, 97, 98] := by
  have hloop : replaceLoop 100 [97, 98] [] 105 [] [97, 98, 97, 98] = .ok [97, 98] := by decide
  have hrun := execute_strReplace (replaceState_operands 100 [97, 98] [] [97, 98, 97, 98]) hloop
  have hall : replaceAll [97, 98] [] [97, 98, 97, 98] = [] := by simp [replaceAll]
  refine ⟨?_, hrun, hall, ?_⟩
  · rintro ⟨maxSize, error, t, hok⟩
    rw [execute_strReplace_error (replaceState_operands maxSize [] [120] [97])
      (replaceLoop_empty 120 [] _ [] [97])] at hok
    cases hok
  · unfold Replaces
    rw [hall]
    intro hsame
    cases hsame

end P2.Pel
