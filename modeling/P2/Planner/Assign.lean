import P2.Planner.ExprCode
import P2.Planner.LocalizeSound

/-!
# The code of assignments

`pelAssign` copies a tuple field by field and puts the value of an expression in the place of one field
or behind the last.

* `SameValue`: two pointers lead to the same value, each in its heap.
* `Evaluates`: the code of an expression is read and has a value on a tuple.
* `Assigns`: the column of the variable has the value, and the other columns have the values they had.
* `pelAssign_assigns_iff`: when the code of an assignment does this.
-/

namespace P2.Planner

open P2.Value P2.Overlog P2.Pel P2.Lib.Exec List Option

/-! ## Words -/

def copyWords (ks : List ℕ) : List Word := ks.flatMap fun k => [.field k, .mnemonic 5]

def wordsBefore (names : List Name) (a : Name) : List Word :=
  copyWords (List.range ((fieldPosition names a).getD (names.length + 1)))

def wordsBehind (names : List Name) (a : Name) : List Word :=
  .mnemonic 5 ::
    match fieldPosition names a with
    | some pos => copyWords (range' (pos + 1) (names.length - pos))
    | none => []

def namesAfter (names : List Name) (a : Name) : List Name :=
  if (fieldPosition names a).isSome then names else names ++ [a]

section Layout

variable {text : Expr → Name} {names : List Name} {a : Name} {e : Expr} {code : Code}

lemma flatMap_copies {pos : Option ℕ} {ks : List ℕ} (hks : ∀ k ∈ ks, some k ≠ pos) :
    (ks.flatMap fun k => (if some k = pos then code else [fieldPiece k]) ++ [ascii "pop"]) =
      (copyWords ks).map Word.text := by
  induction ks with
  | nil => rfl
  | cons k ks ih =>
    rw [forall_mem_cons] at hks
    rw [flatMap_cons, ih hks.2, if_neg hks.1]
    rfl

lemma pelAssign_eq (hcode : expr2Pel text names e = some code) :
    pelAssign text names a e = some ((wordsBefore names a).map Word.text ++ code ++
      (wordsBehind names a).map Word.text, namesAfter names a) := by
  unfold pelAssign wordsBefore wordsBehind namesAfter
  rw [hcode]
  cases hpos : fieldPosition names a with
  | none =>
    simp only [getD_none, bind_eq_bind, bind_some, Option.isSome_none]
    rw [flatMap_copies fun k _ => some_ne_none k]
    rfl
  | some pos =>
    have hlt := fieldPosition_lt hpos
    have hrange : range (names.length + 1) =
        range pos ++ pos :: range' (pos + 1) (names.length - pos) := by
      rw [range_eq_range', range_eq_range', ← range'_succ]
      have happend := range'_append_1 (s := 0) (m := pos) (n := names.length - pos + 1)
      rw [Nat.zero_add] at happend
      rw [happend]
      congr 1
      omega
    simp only [getD_some, bind_eq_bind, bind_some, Option.isSome_some, if_true]
    rw [hrange, flatMap_append, flatMap_cons, flatMap_copies, flatMap_copies]
    · simp only [append_assoc]
      rfl
    · intro k hk h
      rw [some.injEq] at h
      rw [mem_range'_1] at hk
      omega
    · intro k hk h
      rw [some.injEq] at h
      rw [mem_range] at hk
      omega

end Layout

/-! ## Texts -/

/-- A word that is read by itself whatever follows: only the operators that begin with `<` are not. -/
def ReadAlone (w : Word) : Prop := w.Valid ∧ w.text.head? ≠ some 60

def IsCopy (w : Word) : Prop := (∃ k < 65536, w = .field k) ∨ w = .mnemonic 5

/-- The text of an expression is read as these tokens, whatever copies follow. -/
structure ReadsAs (host : Host) (code : Code) (tokens : List Token) : Prop where
  nonzero : (0 : UInt8) ∉ code.text
  head : ∀ c ∈ code.text.head?, isBlank c = false
  reads : ∀ ws : List Word, (∀ w ∈ ws, IsCopy w) →
    Lexes host (code.text ++ Code.text (ws.map Word.text)) (· = some (tokens ++ ws.map Word.token))

def copyInst : Word → UInt32
  | .field k => instruction k 4
  | .mnemonic code => instruction 0 code
  | .integer _ => 0

section Texts

variable {host : Host} {w : Word} {ws : List Word} {code code' : Code} {tokens : List Token}
  {rest : List UInt8} {Q : Option (List Token) → Prop} {names : List Name} {a : Name}

lemma IsCopy.readAlone (hw : IsCopy w) : ReadAlone w := by
  rcases hw with ⟨k, hk, rfl⟩ | rfl
  · refine ⟨hk, ?_⟩
    intro h
    cases h
  · exact ⟨⟨⟨"pop", 1, .POP⟩, rfl, by decide⟩, by decide⟩

lemma isCopy_copyWords {ks : List ℕ} (hks : ∀ k ∈ ks, k < 65536) :
    ∀ w ∈ copyWords ks, IsCopy w := by
  intro w hw
  obtain ⟨k, hk, hw⟩ := mem_flatMap.mp hw
  rcases mem_pair.mp hw with rfl | rfl
  · exact .inl ⟨k, hks k hk, rfl⟩
  · exact .inr rfl

lemma text_append : Code.text (code ++ code') = code.text ++ code'.text := flatMap_append

lemma text_cons {piece : List UInt8} : Code.text (piece :: code) = piece ++ 32 :: code.text := by
  show piece ++ [32] ++ code.text = _
  rw [append_assoc]
  rfl

lemma lexes_blank (hrest : Lexes host rest Q) : Lexes host (32 :: rest) Q := by
  unfold Lexes
  exact hrest

lemma lexes_readAlone (hws : ∀ w ∈ ws, ReadAlone w) (hrest : Lexes host rest Q) :
    Lexes host (Code.text (ws.map Word.text) ++ rest) fun read =>
      ∃ more, Q more ∧ read = more.map (ws.map Word.token ++ ·) := by
  induction ws with
  | nil => exact fun n hn bol => ⟨_, hrest n hn bol, Option.map_id'.symm⟩
  | cons w ws ih =>
    obtain ⟨hw, hws⟩ := forall_mem_cons.mp hws
    have hfits := Word.fits_text hw.1
    rw [map_cons, text_cons, append_assoc]
    have hend : WordEnd (32 :: (Code.text (ws.map Word.text) ++ rest)) := .inr ⟨_, rfl⟩
    have hword := lexes_word hfits.ne_nil (fun c hc => (hfits.solid c hc).1) hend
      (unspanned_of_fits hfits hend fun h => absurd h hw.2) (Word.wordTokens_text hw.1)
      (lexes_blank (ih hws))
    intro n hn bol
    obtain ⟨-, ⟨more, hmore, rfl⟩, hread⟩ := hword n hn bol
    refine ⟨more, hmore, hread.trans ?_⟩
    rw [Option.map_map]
    rfl

lemma head_readAlone (hws : ∀ w ∈ ws, ReadAlone w) (hrest : ∀ c ∈ rest.head?, isBlank c = false) :
    ∀ c ∈ (Code.text (ws.map Word.text) ++ rest).head?, isBlank c = false := by
  cases ws with
  | nil => exact hrest
  | cons w ws =>
    have hfits := Word.fits_text (hws w mem_cons_self).1
    obtain ⟨c, text, htext⟩ := exists_cons_of_ne_nil hfits.ne_nil
    rw [map_cons, htext]
    rintro _ ⟨⟩
    exact isBlank_of_isSpace (hfits.solid c (htext ▸ mem_cons_self)).1

lemma head_words (hws : ∀ w ∈ ws, ReadAlone w) :
    ∀ c ∈ (Code.text (ws.map Word.text)).head?, isBlank c = false := by
  have hhead := @head_readAlone ws [] hws (by rintro _ ⟨⟩)
  rwa [append_nil] at hhead

lemma dropWhile_of_head (htext : ∀ c ∈ rest.head?, isBlank c = false) :
    rest.dropWhile isBlank = rest := by
  cases rest with
  | nil => rfl
  | cons c rest => exact dropWhile_cons_of_neg (by rw [htext c rfl]; exact Bool.false_ne_true)

lemma nonzero_readAlone (hws : ∀ w ∈ ws, ReadAlone w) :
    (0 : UInt8) ∉ Code.text (ws.map Word.text) := by
  intro hmem
  obtain ⟨piece, hpiece, hmem⟩ := mem_flatMap.mp hmem
  obtain ⟨w, hw, rfl⟩ := mem_map.mp hpiece
  rcases mem_append.mp hmem with hmem | hmem
  · exact ((Word.fits_text (hws w hw).1).solid 0 hmem).2 rfl
  · exact absurd hmem (by decide)

lemma readsAs_words (hws : ∀ w ∈ ws, ReadAlone w) :
    ReadsAs host (ws.map Word.text) (ws.map Word.token) := by
  refine ⟨nonzero_readAlone hws, head_words hws, fun copies hcopies => ?_⟩
  have hread := lexes_readAlone hws (lexes_readAlone (fun w hw => (hcopies w hw).readAlone) (@lexes_nil host))
  rw [append_nil] at hread
  intro n hn bol
  obtain ⟨-, ⟨-, rfl, rfl⟩, hread⟩ := hread n hn bol
  refine hread.trans ?_
  rw [map_some, map_some, append_nil]

lemma foldl_copies (hws : ∀ w ∈ ws, IsCopy w) (p : Program) :
    (ws.map Word.token).foldl Program.add p = ⟨p.ops ++ ws.map copyInst, p.const_pool⟩ := by
  induction ws generalizing p with
  | nil => rw [map_nil, map_nil, append_nil, foldl_nil]
  | cons w ws ih =>
    obtain ⟨hw, hws⟩ := forall_mem_cons.mp hws
    have hadd : p.add w.token = ⟨p.ops ++ [copyInst w], p.const_pool⟩ := by
      rcases hw with ⟨k, -, rfl⟩ | rfl <;> rfl
    rw [map_cons, foldl_cons, hadd, ih hws, map_cons]
    simp

lemma foldl_behind (tokens : List Token) (ops ops' : List UInt32) (const_pool : List Literal) :
    tokens.foldl Program.add ⟨ops ++ ops', const_pool⟩ =
      ⟨ops ++ (tokens.foldl Program.add ⟨ops', const_pool⟩).ops,
        (tokens.foldl Program.add ⟨ops', const_pool⟩).const_pool⟩ := by
  induction tokens generalizing ops' const_pool with
  | nil => rfl
  | cons t tokens ih =>
    have hadd : ∃ inst pool, Program.add ⟨ops', const_pool⟩ t = ⟨ops' ++ [inst], pool⟩ ∧
        Program.add ⟨ops ++ ops', const_pool⟩ t = ⟨ops ++ (ops' ++ [inst]), pool⟩ := by
      cases t <;> exact ⟨_, _, rfl, by rw [← append_assoc]; rfl⟩
    obtain ⟨inst, pool, hadd, hadd'⟩ := hadd
    rw [foldl_cons, foldl_cons, hadd, hadd', ih]

lemma compile_around {ws ws' : List Word} (hws : ∀ w ∈ ws, IsCopy w) (hws' : ∀ w ∈ ws', IsCopy w)
    (hcode : ReadsAs host code tokens) :
    compile host (Code.text (ws.map Word.text ++ code ++ ws'.map Word.text)) =
      some ⟨ws.map copyInst ++ (tokens.foldl Program.add ⟨[], []⟩).ops ++ ws'.map copyInst,
        (tokens.foldl Program.add ⟨[], []⟩).const_pool⟩ := by
  rw [text_append, text_append, append_assoc]
  have halone (w : Word) (hw : w ∈ ws) : ReadAlone w := (hws w hw).readAlone
  have halone' (w : Word) (hw : w ∈ ws') : ReadAlone w := (hws' w hw).readAlone
  have hzero : (0 : UInt8) ∉
      Code.text (ws.map Word.text) ++ (code.text ++ Code.text (ws'.map Word.text)) := by
    intro hmem
    rcases mem_append.mp hmem with hmem | hmem
    · exact nonzero_readAlone halone hmem
    · rcases mem_append.mp hmem with hmem | hmem
      · exact hcode.nonzero hmem
      · exact nonzero_readAlone halone' hmem
  have hhead : ∀ c ∈ (code.text ++ Code.text (ws'.map Word.text)).head?, isBlank c = false := by
    cases htext : code.text with
    | nil => exact head_words halone'
    | cons c rest => exact fun c hc => hcode.head c (htext ▸ hc)
  obtain ⟨-, ⟨more, rfl, rfl⟩, hcompile⟩ := compile_of_lexes hzero
    (dropWhile_of_head (head_readAlone halone hhead)) (lexes_readAlone halone (hcode.reads ws' hws'))
  have hbehind := foldl_behind tokens (ws.map copyInst) [] []
  rw [append_nil] at hbehind
  rw [hcompile, map_some, map_some, foldl_append, foldl_append,
    foldl_copies hws, nil_append, hbehind, foldl_copies hws']

end Texts

/-! ## Runs -/

def Present (p : Ptr) : Prop := p ≠ none ∧ p ≠ some (.tuple none)

def frozen (h : Heap) : Ptr → Heap
  | some (.tuple (some addr)) => { h with tuples := h.tuples.set addr ⟨(h.tuple addr).fields, true⟩ }
  | _ => h

def fieldsBefore (names : List Name) (a : Name) (fields : List Ptr) : List Ptr :=
  fields.take ((fieldPosition names a).getD (names.length + 1))

/-- The code of an expression, with its constants in the pool of the machine, puts a value on the stack. -/
def Computes (env : Env) (q : Program) (h : Heap) (n : ℕ) (v : Ptr) (h' : Heap) (n' : ℕ) : Prop :=
  Installed env q.const_pool h ∧ ∀ st res rest,
    executeFrom env (q.ops ++ rest) ⟨h, st, .PE_SUCCESS, res, n⟩ =
      executeFrom env rest ⟨h', v :: st, .PE_SUCCESS, res, n'⟩

/-- The fields with the value of the expression in the place `pelAssign` gives it. -/
def assigned (names : List Name) (a : Name) (v : Ptr) (fields : List Ptr) : List Ptr :=
  match fieldPosition names a with
  | some pos => fields.set pos v
  | none => fields ++ [v]

/-- What there is at an object apart from its address. -/
def contents (h : Heap) (o : Obj) : Obj × List ℕ × List Ptr :=
  match o with
  | .tuple (some _) => (.tuple (some 0), [], h.parts o)
  | .set _ => (.set 0, [], h.parts o)
  | .list _ => (.list 0, [], h.parts o)
  | .vector _ => (.vector 0, [], h.parts o)
  | .matrix a => (.matrix 0, [(h.matrix a).size1, (h.matrix a).size2], h.parts o)
  | o => (o, [], [])

/-- Two pointers lead to the same value down to a depth, each with its own contents of the objects. -/
def sameValueTo (look look' : Obj → Obj × List ℕ × List Ptr) : ℕ → Ptr → Ptr → Prop
  | 0 => fun _ _ => True
  | depth + 1 => Option.Rel fun o o' => (look o).1 = (look' o').1 ∧ (look o).2.1 = (look' o').2.1 ∧
      Forall₂ (sameValueTo look look' depth) (look o).2.2 (look' o').2.2

/-- Two pointers lead to the same value, each in its heap. -/
def SameValue (h h' : Heap) (p q : Ptr) : Prop := ∀ depth, sameValueTo (contents h) (contents h') depth p q

section Runs

variable {env : Env} {h h' : Heap} {n n' k : ℕ} {st ps fields : List Ptr} {res : Option (List Ptr)}
  {p v : Ptr} {ops : List UInt32} {ks : List ℕ}

lemma fields_frozen (addr : Addr) : ((frozen h p).tuple addr).fields = (h.tuple addr).fields := by
  unfold frozen
  split
  · rename_i addr'
    unfold Heap.tuple
    rw [getD_eq_getElem?_getD, List.getElem?_set]
    split
    · rename_i heq
      subst heq
      split
      · rfl
      · rename_i hlt
        rw [getD_eq_default _ _ (not_lt.mp hlt)]
        rfl
    · rfl
  · rfl

lemma contents_frozen : contents (frozen h p) = contents h := by
  have hframe : ∃ tuples, frozen h p = { h with tuples := tuples } := by
    unfold frozen
    split
    · exact ⟨_, rfl⟩
    · exact ⟨h.tuples, rfl⟩
  funext o
  cases o with
  | tuple t =>
    cases t with
    | none => rfl
    | some addr => exact congrArg (fun fields => (_, _, fields)) (fields_frozen addr)
  | _ =>
    obtain ⟨tuples, hframe⟩ := hframe
    rw [hframe]
    rfl

lemma SameValue.refl (h : Heap) (p : Ptr) : SameValue h h p p := by
  intro depth
  induction depth generalizing p with
  | zero => trivial
  | succ depth ih =>
    cases p with
    | none => exact .none
    | some o => exact .some ⟨rfl, rfl, forall₂_same.mpr fun q _ => ih q⟩

lemma fields_foldl_frozen (addr : Addr) :
    ((ps.foldl frozen h).tuple addr).fields = (h.tuple addr).fields := by
  induction ps generalizing h with
  | nil => rfl
  | cons p ps ih => exact ih.trans (fields_frozen addr)

lemma contents_foldl_frozen : contents (ps.foldl frozen h) = contents h := by
  induction ps generalizing h with
  | nil => rfl
  | cons p ps ih => exact ih.trans contents_frozen

lemma executeFrom_pop (hp : Present p) :
    executeFrom env (instruction 0 5 :: ops) ⟨h, p :: st, .PE_SUCCESS, res, n⟩ =
      executeFrom env ops ⟨frozen h p, st, .PE_SUCCESS, some (res.getD [] ++ [p]), n⟩ := by
  have hbody : op_POP ⟨h, p :: st, .PE_SUCCESS, res, n⟩ =
      .ok () ⟨frozen h p, st, .PE_SUCCESS, some (res.getD [] ++ [p]), n⟩ := by
    obtain ⟨hnone, htuple⟩ := hp
    cases p with
    | none => exact absurd rfl hnone
    | some o =>
      cases o with
      | tuple t =>
        cases t with
        | none => exact absurd rfl htuple
        | some addr => rfl
      | _ => rfl
  have hentry : jump_table[(instruction 0 5 &&& 0xFFFF).toNat]? = some ⟨"pop", 1, .POP⟩ := rfl
  exact executeFrom_cons_of_body hentry (Nat.le_add_left 1 _) hbody rfl

lemma executeFrom_copy (hk : k < 65536) (hfield : (h.tuple env.operand).fields[k]? = some p)
    (hp : Present p) :
    executeFrom env (instruction k 4 :: instruction 0 5 :: ops) ⟨h, st, .PE_SUCCESS, res, n⟩ =
      executeFrom env ops ⟨frozen h p, st, .PE_SUCCESS, some (res.getD [] ++ [p]), n⟩ := by
  have hentry : jump_table[(instruction k 4 &&& 0xFFFF).toNat]? = some ⟨"", 0, .PUSH_FIELD⟩ := by
    rw [opcode_instruction (by decide)]
    rfl
  rw [← executeFrom_pop hp]
  refine executeFrom_cons_of_body hentry (Nat.zero_le _) ?_ rfl
  refine performs_pushFrom ?_
  rw [argument_instruction hk]
  exact hfield

lemma executeFrom_copies (hks : ∀ k ∈ ks, k < 65536) (hoperand : (h.tuple env.operand).fields = fields)
    (hfields : Forall₂ (fun k p => fields[k]? = some p) ks ps) (hps : ∀ p ∈ ps, Present p) :
    executeFrom env ((copyWords ks).map copyInst ++ ops) ⟨h, st, .PE_SUCCESS, res, n⟩ =
      executeFrom env ops ⟨ps.foldl frozen h, st, .PE_SUCCESS,
        ps.foldl (fun res p => some (res.getD [] ++ [p])) res, n⟩ := by
  induction hfields generalizing h res with
  | nil => rfl
  | @cons k p ks ps hfield hfields ih =>
    obtain ⟨hk, hks⟩ := forall_mem_cons.mp hks
    obtain ⟨hp, hps⟩ := forall_mem_cons.mp hps
    have hcopy : executeFrom env ((copyWords (k :: ks)).map copyInst ++ ops)
        ⟨h, st, .PE_SUCCESS, res, n⟩ = _ := executeFrom_copy hk (hoperand ▸ hfield) hp
    exact hcopy.trans (ih hks ((fields_frozen _).trans hoperand) hps)

lemma getD_foldl_append :
    (ps.foldl (fun res p => some (res.getD [] ++ [p])) res).getD [] = res.getD [] ++ ps := by
  induction ps generalizing res with
  | nil => exact (append_nil _).symm
  | cons p ps ih => exact ih.trans (append_assoc _ _ _)

lemma foldl_append_some {r : List Ptr} :
    ps.foldl (fun res p => some (res.getD [] ++ [p])) (some r) = some (r ++ ps) := by
  induction ps generalizing r with
  | nil => exact congrArg some (append_nil _).symm
  | cons p ps ih => exact ih.trans (congrArg some (append_assoc _ _ _))

lemma forall₂_range' {m : ℕ} (hm : k + m ≤ fields.length) :
    Forall₂ (fun k p => fields[k]? = some p) (range' k m) ((fields.drop k).take m) := by
  induction m generalizing k with
  | zero => exact .nil
  | succ m ih =>
    have hk : k < fields.length := by omega
    rw [range'_succ, drop_eq_getElem_cons hk]
    exact .cons (List.getElem?_eq_getElem hk) (ih (by omega))

variable {names : List Name} {a : Name} {q : Program} {e : Expr}

lemma foldl_frozen_eq (hps : ∀ p ∈ ps, ∀ addr, p ≠ some (.tuple addr)) : ps.foldl frozen h = h := by
  induction ps generalizing h with
  | nil => rfl
  | cons p ps ih =>
    obtain ⟨hp, hps⟩ := forall_mem_cons.mp hps
    have hfrozen : frozen h p = h := by
      unfold frozen
      split
      · exact absurd rfl (hp _)
      · rfl
    rw [foldl_cons, hfrozen]
    exact ih hps

lemma computes_words (he : Simple names e) (hvalid : ∀ w ∈ words names e, w.Valid)
    (hcount : (words names e).countP Word.isConstant ≤ 65536) (hlaid : LaidOut env names fields h)
    (hinstalled :
      Installed env (((words names e).map Word.token).foldl Program.add ⟨[], []⟩).const_pool h)
    (hdepth : 0 < env.host.callDepth) (hv : eval env.host names fields e = .ok v) :
    Computes env (((words names e).map Word.token).foldl Program.add ⟨[], []⟩)
      ((fieldsBefore names a fields).foldl frozen h) n v h n := by
  have hleaf : (fieldsBefore names a fields).foldl frozen h = h := by
    obtain ⟨-, table, values, rfl, -, hplain⟩ := hlaid
    refine foldl_frozen_eq fun p hp addr => ?_
    rcases mem_cons.mp (mem_of_mem_take hp) with rfl | hp
    · rintro ⟨⟩
    · rintro rfl
      exact hplain _ hp
  rw [hleaf]
  refine ⟨hinstalled, fun st res rest => ?_⟩
  obtain ⟨ops, pool, hfold, hops⟩ := @assembles_from (words names e) ⟨[], []⟩ hvalid
    (by rw [length_nil]; omega)
  rw [hfold] at hinstalled ⊢
  have hyields := yields_words (s := ⟨h, st, .PE_SUCCESS, res, n⟩) he hops rfl
    (prepared_of_laidOut hlaid hinstalled hdepth)
  rw [hv] at hyields
  exact hyields rest

def assignOps (names : List Name) (a : Name) (ops : List UInt32) : List UInt32 :=
  (wordsBefore names a).map copyInst ++ ops ++ (wordsBehind names a).map copyInst

lemma exists_wordsBehind (hlength : fields.length = names.length + 1) :
    ∃ ks ps, wordsBehind names a = .mnemonic 5 :: copyWords ks ∧ (∀ k ∈ ks, k ≤ names.length) ∧
      Forall₂ (fun k p => fields[k]? = some p) ks ps ∧ ps <:+ fields ∧
      ∀ v, assigned names a v fields = fieldsBefore names a fields ++ [v] ++ ps := by
  unfold wordsBehind assigned fieldsBefore
  cases hpos : fieldPosition names a with
  | none =>
    refine ⟨[], [], rfl, forall_mem_nil _, .nil, nil_suffix, fun v => ?_⟩
    rw [getD_none, append_nil, take_of_length_le hlength.le]
  | some pos =>
    have hlt := fieldPosition_lt hpos
    have htail : (fields.drop (pos + 1)).take (names.length - pos) = fields.drop (pos + 1) :=
      take_of_length_le (by rw [length_drop]; omega)
    refine ⟨_, fields.drop (pos + 1), rfl, ?_, htail ▸ forall₂_range' (by omega),
      drop_suffix _ _, fun v => ?_⟩
    · intro k hk
      rw [mem_range'_1] at hk
      omega
    · rw [append_assoc]
      exact set_eq_take_append_cons_drop.trans (if_pos (by omega))

lemma fieldPosition_getD_le (names : List Name) (a : Name) :
    (fieldPosition names a).getD (names.length + 1) ≤ names.length + 1 := by
  cases hpos : fieldPosition names a with
  | none => exact le_rfl
  | some pos => exact (fieldPosition_lt hpos).le.trans (Nat.le_succ _)

lemma execute_assign {s : State} (hfew : names.length < 65536)
    (hlength : fields.length = names.length + 1)
    (hoperand : (s.heap.tuple env.operand).fields = fields) (hpresent : ∀ p ∈ fields, Present p)
    (hv : Present v)
    (hcomputes : Computes env q ((fieldsBefore names a fields).foldl frozen s.heap) s.queries v h' n')
    (hkept : (h'.tuple env.operand).fields = fields) :
    ∃ t, execute env (assignOps names a q.ops) s = .ok .PE_SUCCESS t ∧
      contents t.heap = contents h' ∧ t.result = some (assigned names a v fields) := by
  have hpos := fieldPosition_getD_le names a
  have hbefore : Forall₂ (fun k p => fields[k]? = some p)
      (range ((fieldPosition names a).getD (names.length + 1))) (fieldsBefore names a fields) := by
    rw [range_eq_range']
    exact forall₂_range' (by omega)
  obtain ⟨ks, ps, hafter, hks, hps, hsuffix, hassigned⟩ := exists_wordsBehind hlength
  have hrun : executeFrom env (assignOps names a q.ops) ⟨s.heap, s.st, .PE_SUCCESS, none, s.queries⟩ =
      executeFrom env ((copyWords ks).map copyInst ++ []) ⟨frozen h' v, s.st, .PE_SUCCESS,
        some (fieldsBefore names a fields ++ [v]), n'⟩ := by
    unfold assignOps wordsBefore
    rw [append_assoc, executeFrom_copies ?_ hoperand hbefore ?_, hcomputes.2, hafter, append_nil]
    · refine (executeFrom_pop hv).trans ?_
      rw [getD_foldl_append]
      rfl
    · intro k hk
      rw [mem_range] at hk
      omega
    · exact fun p hp => hpresent p (mem_of_mem_take hp)
  refine ⟨_, hrun.trans (executeFrom_copies (fun k hk => (hks k hk).trans_lt hfew)
    ((fields_frozen _).trans hkept) hps fun p hp => hpresent p (hsuffix.subset hp)),
    contents_foldl_frozen.trans contents_frozen, ?_⟩
  rw [hassigned]
  exact foldl_append_some

end Runs

/-! ## Columns -/

/-- The column of the variable has the value, the other columns have the values they had before the
run, and there is one more column if the variable is new. -/
structure Assigns (names names' : List Name) (a : Name) (v : Ptr) (fields result : List Ptr)
    (h h' : Heap) : Prop where
  column : ∃ pos, fieldPosition names' a = some pos ∧
    Option.Rel (SameValue h' h') result[pos + 1]? (some v) ∧
    ∀ k, k ≠ pos + 1 → Option.Rel (SameValue h h') fields[k]? result[k]?
  length : result.length = fields.length + if fieldPosition names a = none then 1 else 0

/-- What it takes for this, with the heap the expression leaves: it changes no column that is kept, and
where the variable has a column, this and the field in front of it have the value already. -/
def SetsColumn (names : List Name) (a : Name) (v : Ptr) (fields : List Ptr) (h h' : Heap) : Prop :=
  match fieldPosition names a with
  | none => ∀ k : ℕ, Option.Rel (SameValue h h') fields[k]? fields[k]?
  | some pos => Option.Rel (SameValue h h') fields[pos]? (some v) ∧
      Option.Rel (SameValue h' h') fields[pos + 1]? (some v) ∧
      ∀ k : ℕ, k ≠ pos → k ≠ pos + 1 → Option.Rel (SameValue h h') fields[k]? fields[k]?

section Columns

variable {env : Env} {names : List Name} {a : Name} {v : Ptr} {fields : List Ptr} {h h' : Heap}

lemma fieldPosition_append (hpos : fieldPosition names a = none) :
    fieldPosition (names ++ [a]) a = some names.length := by
  have hself : fieldNameEq a a = true := fieldNameEq_iff.mpr rfl
  unfold fieldPosition at hpos ⊢
  rw [findIdx?_append, hpos, findIdx?_cons, hself]
  exact congrArg some (Nat.zero_add _)

lemma assigns_iff (hlength : fields.length = names.length + 1) :
    Assigns names (namesAfter names a) a v fields (assigned names a v fields) h h' ↔
      SetsColumn names a v fields h h' := by
  unfold namesAfter assigned SetsColumn
  cases hpos : fieldPosition names a with
  | none =>
    have hcolumn : (fields ++ [v])[names.length + 1]? = some v := by
      rw [← hlength, List.getElem?_concat_length]
    have hother (k : ℕ) (hk : k ≠ names.length + 1) : (fields ++ [v])[k]? = fields[k]? := by
      rw [← hlength] at hk
      rcases Nat.lt_or_gt_of_ne hk with hlt | hgt
      · exact List.getElem?_append_left hlt
      · rw [List.getElem?_eq_none hgt.le, List.getElem?_eq_none]
        rw [length_append]
        exact hgt
    have hnew := fieldPosition_append hpos
    constructor
    · rintro ⟨⟨pos, hpos', -, hothers⟩, -⟩ k
      obtain rfl := some.inj (hnew.symm.trans hpos')
      rcases eq_or_ne k (names.length + 1) with rfl | hk
      · rw [← hlength, List.getElem?_eq_none le_rfl]
        exact .none
      · exact hother k hk ▸ hothers k hk
    · intro hkept
      refine ⟨⟨names.length, hnew, hcolumn ▸ .some (SameValue.refl h' v), fun k hk => ?_⟩, ?_⟩
      · exact (hother k hk).symm ▸ hkept k
      · rw [if_pos hpos]
        exact length_append
  | some pos =>
    have hlt := fieldPosition_lt hpos
    have hset : (fields.set pos v)[pos]? = some v := List.getElem?_set_self (by omega)
    have hother (k : ℕ) (hk : k ≠ pos) : (fields.set pos v)[k]? = fields[k]? :=
      List.getElem?_set_ne hk.symm
    have hbehind := hother (pos + 1) (Nat.lt_succ_self pos).ne'
    constructor
    · rintro ⟨⟨pos', hpos', hcolumn, hothers⟩, -⟩
      obtain rfl := some.inj (hpos.symm.trans hpos')
      refine ⟨hset ▸ hothers pos (Nat.lt_succ_self pos).ne, hbehind ▸ hcolumn, fun k hk hk' => ?_⟩
      exact hother k hk ▸ hothers k hk'
    · rintro ⟨hfield, hcolumn, hothers⟩
      refine ⟨⟨pos, hpos, hbehind.symm ▸ hcolumn, fun k hk => ?_⟩, ?_⟩
      · rcases eq_or_ne k pos with rfl | hne
        · exact hset.symm ▸ hfield
        · exact (hother k hne).symm ▸ hothers k hne hk
      · rw [if_neg (hpos ▸ some_ne_none pos)]
        exact length_set

/-- A tuple that is laid out by the names, and an expression that has a value on it: its code is read
in front of copies as it is read alone, and where the assignment evaluates it, it computes the value and
leaves a heap. -/
structure Evaluates (env : Env) (text : Expr → Name) (names : List Name) (a : Name) (e : Expr)
    (s : State) (fields : List Ptr) (v : Ptr) (h : Heap) : Prop where
  few : names.length < 65536
  length : fields.length = names.length + 1
  operand : (s.heap.tuple env.operand).fields = fields
  present : ∀ p ∈ fields, Present p
  value : Present v
  code : ∃ code tokens n, expr2Pel text names e = some code ∧ ReadsAs env.host code tokens ∧
    Computes env (tokens.foldl Program.add ⟨[], []⟩)
      ((fieldsBefore names a fields).foldl frozen s.heap) s.queries v h n ∧
    (h.tuple env.operand).fields = fields

/-- **A run of an assignment.** What the planner writes for an assignment compiles, and a run gives
the fields with the value of the expression among them. -/
lemma pelAssign_run {text : Expr → Name} {e : Expr} {s : State}
    (heval : Evaluates env text names a e s fields v h) :
    ∃ pel program t, pelAssign text names a e = some (pel, namesAfter names a) ∧
      compile env.host pel.text = some program ∧ Installed env program.const_pool s.heap ∧
      execute env program.ops s = .ok .PE_SUCCESS t ∧ contents t.heap = contents h ∧
      t.result = some (assigned names a v fields) := by
  obtain ⟨hfew, hlength, hoperand, hpresent, hv, code, tokens, n, hcode, hreads, hcomputes, hkept⟩ :=
    heval
  have hbefore : ∀ w ∈ wordsBefore names a, IsCopy w := by
    refine isCopy_copyWords fun k hk => ?_
    have hpos := fieldPosition_getD_le names a
    rw [mem_range] at hk
    omega
  have hafter : ∀ w ∈ wordsBehind names a, IsCopy w := by
    obtain ⟨ks, ps, hafter, hks, -⟩ := exists_wordsBehind (a := a) hlength
    rw [hafter]
    exact forall_mem_cons.mpr
      ⟨.inr rfl, isCopy_copyWords fun k hk => (hks k hk).trans_lt hfew⟩
  obtain ⟨t, hrun, hcontents, hresult⟩ := execute_assign hfew hlength hoperand hpresent hv hcomputes hkept
  refine ⟨_, _, t, pelAssign_eq hcode, compile_around hbefore hafter hreads, ?_, hrun, hcontents,
    hresult⟩
  intro k o hk
  rw [← fields_foldl_frozen env.constPool]
  exact hcomputes.1 k o hk

end Columns

/-- **When an assignment sets one column.** What the planner writes for an assignment compiles and
runs. This sets the column of the variable and no other exactly if the expression changes no column
and the variable is new, or the column of the variable and the field in front of it have the value
already and the expression changes no other. -/
theorem pelAssign_assigns_iff (env : Env) (text : Expr → Name) (names : List Name) (a : Name)
    (e : Expr) (s : State) (fields : List Ptr) (v : Ptr) (h : Heap)
    (heval : Evaluates env text names a e s fields v h) :
    ∃ pel names' program t result, pelAssign text names a e = some (pel, names') ∧
      compile env.host pel.text = some program ∧ Installed env program.const_pool s.heap ∧
      execute env program.ops s = .ok .PE_SUCCESS t ∧ t.result = some result ∧
      (Assigns names names' a v fields result s.heap t.heap ↔
        SetsColumn names a v fields s.heap h) := by
  obtain ⟨pel, program, t, hpel, hcompile, hinstalled, hrun, hcontents, hresult⟩ := pelAssign_run heval
  refine ⟨pel, _, program, t, _, hpel, hcompile, hinstalled, hrun, hresult, ?_⟩
  refine (assigns_iff heval.length).trans ?_
  -- copying a field into the result freezes a tuple, which changes no value
  unfold SetsColumn SameValue
  rw [hcontents]

lemma evaluates_seven (a : Name) :
    Evaluates ⟨sampleHost, 0, 1⟩ (fun _ => []) [[65]] a (.val (.int64 7)) sampleMachine
      [some (.str []), some (.int64 5)] (some (.int64 7)) sampleMachine.heap where
  few := by decide
  length := rfl
  operand := rfl
  present := by
    intro p hp
    rcases mem_pair.mp hp with rfl | rfl <;> exact ⟨by decide, by decide⟩
  value := ⟨by decide, by decide⟩
  code := by
    have hsimple : Simple [[65]] (.val (.int64 7)) := .integer 7
    have hlaid : LaidOut ⟨sampleHost, 0, 1⟩ [[65]] [some (.str []), some (.int64 5)]
        sampleMachine.heap := ⟨rfl, [], [some (.int64 5)], rfl, rfl, by simp [Plain]⟩
    refine ⟨_, _, _, expr2Pel_eq hsimple, readsAs_words ?_,
      computes_words hsimple ?_ (by decide) hlaid ?_ (by decide) rfl, rfl⟩
    · exact forall_mem_singleton.mpr ⟨trivial, by decide⟩
    · exact forall_mem_singleton.mpr trivial
    · intro k o hk
      cases k with
      | zero =>
        cases hk
        rfl
      | succ k => cases hk

theorem pelAssign_assigns_new :
    ∃ pel names' program t result,
      pelAssign (fun _ => []) [[65]] [66] (.val (.int64 7)) = some (pel, names') ∧
      compile sampleHost pel.text = some program ∧
      Installed ⟨sampleHost, 0, 1⟩ program.const_pool sampleMachine.heap ∧
      execute ⟨sampleHost, 0, 1⟩ program.ops sampleMachine = .ok .PE_SUCCESS t ∧
      t.result = some result ∧
      Assigns [[65]] names' [66] (some (.int64 7)) [some (.str []), some (.int64 5)] result
        sampleMachine.heap t.heap := by
  obtain ⟨pel, names', program, t, result, hpel, hcompile, hinstalled, hrun, hresult, hiff⟩ :=
    pelAssign_assigns_iff _ _ _ _ _ _ _ _ _ (evaluates_seven [66])
  refine ⟨pel, names', program, t, result, hpel, hcompile, hinstalled, hrun, hresult, hiff.mpr fun k => ?_⟩
  cases ([some (.str []), some (.int64 5)] : List Ptr)[k]? with
  | none => exact .none
  | some p => exact .some (SameValue.refl _ p)

/-- `A = 7` on a tuple of `A`: the name of the table is replaced, the column of `A` is not. -/
theorem pelAssign_bound_column :
    ∃ pel names' program t, pelAssign (fun _ => []) [[65]] [65] (.val (.int64 7)) = some (pel, names') ∧
      compile sampleHost pel.text = some program ∧
      Installed ⟨sampleHost, 0, 1⟩ program.const_pool sampleMachine.heap ∧
      execute ⟨sampleHost, 0, 1⟩ program.ops sampleMachine = .ok .PE_SUCCESS t ∧
      t.result = some [some (.int64 7), some (.int64 5)] ∧
      ¬ Assigns [[65]] names' [65] (some (.int64 7)) [some (.str []), some (.int64 5)]
        [some (.int64 7), some (.int64 5)] sampleMachine.heap t.heap := by
  obtain ⟨pel, program, t, hpel, hcompile, hinstalled, hrun, -, hresult⟩ :=
    pelAssign_run (evaluates_seven [65])
  refine ⟨pel, _, program, t, hpel, hcompile, hinstalled, hrun, hresult, fun hassigns => ?_⟩
  have hsets := (assigns_iff (a := [65]) (v := some (.int64 7)) (evaluates_seven [65]).length).mp hassigns
  cases hsets.1 with | some hsame =>
  cases hsame 1 with | some hform =>
  have hsame : Obj.str [] = .int64 7 := hform.1
  cases hsame

end P2.Planner
