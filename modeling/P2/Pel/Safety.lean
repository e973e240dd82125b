import P2.Pel.Guard

/-!
# Safety of the expression machine

A program of the machine ends with an error code if each instruction that it comes to meets the
condition of its opcode: `execute_ends`.
-/

namespace P2.Pel

open P2.Value P2.Lib.Exec List

/-- The operand tuple can be written, as the handler for failed casts does. -/
def OperandReady (env : Env) (h : Heap) : Prop := sound env.host h (some (.tuple (some env.operand)))

/-- A body ends well from every stack that has as many values as the arity says and of which the
condition holds. -/
def Safe (env : Env) (m : VM Unit) (arity : ℕ) (G : Heap → List Ptr → Prop) : Prop :=
  ∀ s : State, arity ≤ s.st.length → OperandReady env s.heap → G s.heap s.st →
    Ends (Allowed s.heap) m s fun _ _ => True

/-- The condition holds of every stack with this many values on top. -/
def OnTop : ℕ → (List Ptr → Prop) → Prop
  | 0, P => ∀ st, P st
  | n + 1, P => ∀ p, OnTop n fun st => P (p :: st)

/-! ## Rules -/

lemma OnTop.apply {n : ℕ} {P : List Ptr → Prop} (hP : OnTop n P) {st : List Ptr}
    (hlen : n ≤ st.length) : P st := by
  induction n generalizing P st with
  | zero => exact hP st
  | succ n ih =>
    cases st with
    | nil => exact absurd hlen (Nat.not_succ_le_zero n)
    | cons p st => exact ih (hP p) (Nat.le_of_succ_le_succ hlen)

section Rules

variable {env : Env} {inst : UInt32} {m : VM Unit} {G : Heap → List Ptr → Prop} {h h₀ : Heap}
  {s : State} {p : Ptr} {E : Trouble → State → Prop}

lemma safe_of {arity : ℕ} (hm : ∀ h err res k, OnTop arity fun st => G h st →
    Ends (Allowed h) m ⟨h, st, err, res, k⟩ fun _ _ => True) : Safe env m arity G := by
  rintro ⟨h, st, err, res, k⟩ hlen _ hg
  exact (hm h err res k).apply hlen hg

lemma ends_textPtr {Q : List UInt8 → State → Prop} (hs : s.heap.parts = h₀.parts)
    (hp : sound env.host h₀ p) (hQ : ∀ text, castStr env.host s.heap p = .ok text → Q text s) :
    Ends (Allowed h₀) (textPtr env p) s Q :=
  ends_read_imp hs (fine_textPtr (by rw [sound_congr hs]; exact hp)) hQ

lemma quiet_typeOf (hs : s.heap.parts = h₀.parts) (hp : p ≠ none) :
    Quietly h₀ (typeOf p) s :=
  quiet_read hs (fine_deref hp).map fun _ _ => trivial

lemma ends_callHelper {f : Helper} {args operands : List Ptr} {Q : Ptr → State → Prop}
    (hs : s.heap.parts = h₀.parts) (hf : HelperFine env.host h₀ f operands)
    (hargs : List.Forall₂ (Passed h₀) operands args) (hQ : ∀ p h, Q p { s with heap := h }) :
    Ends (Allowed h₀) (callHelper env f args) s Q := by
  unfold callHelper
  rw [ends_bind]
  exact ends_read_imp hs (hf s.heap args hs hargs) fun ph _ => hQ ph.1 ph.2

lemma list_eq_elementsOf {h1 : Heap} {a : Addr} (hs : h1.parts = h.parts)
    (ha : h.list a = h.elementsOf p) : h1.list a = h.elementsOf p :=
  (congrFun hs (.list a)).trans ha

lemma passed_self : Passed h p p := Or.inl rfl

lemma passed_list {a : Addr} (ha : h.list a = h.elementsOf p) : Passed h p (some (.list a)) :=
  Or.inr (Or.inl ⟨a, rfl, ha⟩)

lemma ends_mkTuple {fields : List Ptr} {frozen : Bool} {Q : Ptr → State → Prop}
    (hf : ∀ q ∈ fields, q ≠ none) (hQ : ∀ p h, Q p { s with heap := h }) :
    Ends E (mkTuple fields frozen) s Q := by
  have hany : ¬ (fields.any Option.isNone = true) := by
    rw [any_eq_true]
    rintro ⟨q, hq, hnone⟩
    exact hf q hq (Option.isNone_iff_eq_none.mp hnone)
  unfold mkTuple
  rw [if_neg hany]
  exact hQ _ _

lemma namedFields_append {name : List UInt8} {fields : List Ptr} (hf : ∀ q ∈ fields, q ≠ none) :
    ∀ q ∈ namedFields env.host name ++ fields, q ≠ none := by
  intro q hq
  rcases mem_append.mp hq with hq | hq
  · rcases mem_pair.mp hq with rfl | rfl
    · exact Option.some_ne_none _
    · exact Option.some_ne_none _
  · exact hf q hq

lemma ends_resultAppend (hp : p ≠ none) :
    Ends E (resultAppend p) s fun _ t => t.st = s.st := by
  cases p with
  | none => exact absurd rfl hp
  | some o => exact rfl

lemma ends_resultAppend_all {l : List Ptr} (hl : ∀ q ∈ l, q ≠ none) :
    Ends E (l.forM resultAppend) s fun _ _ => True :=
  Ends.forM l trivial fun q hq _ _ => (ends_resultAppend (hl q hq)).imp fun _ _ _ => trivial

lemma ends_freezeTop (hp : valid p) : Ends E (freezeTop p) s fun _ t => t.st = s.st := by
  obtain ⟨o, rfl⟩ := exists_of_valid hp
  cases o with
  | tuple t =>
    cases t with
    | none => cases hp
    | some a => exact rfl
  | _ => exact rfl

lemma ends_popAll {l : List Ptr} (hst : s.st = l) (hl : ∀ p ∈ l, valid p) :
    Ends E (popAll l) s fun _ _ => True := by
  induction l generalizing s with
  | nil => trivial
  | cons p l ih =>
    obtain ⟨h, st, err, res, k⟩ := s
    obtain rfl : st = p :: l := hst
    have hp := hl p mem_cons_self
    unfold popAll
    simp only [ends_bind, ends_pop]
    refine (ends_freezeTop hp).imp fun _ t ht => ?_
    refine (ends_resultAppend (ne_none_of_valid hp)).imp fun _ t' ht' => ?_
    exact ih (ht'.trans ht) fun q hq => hl q (mem_cons_of_mem p hq)

end Rules

section Opcodes

variable {env : Env} {inst : UInt32}

/-! ## Operands -/

lemma safe_pop {m : Ptr → VM Unit} {C : Heap → Ptr → Prop}
    (hm : ∀ (s : State) p, C s.heap p → EndsWell s.heap (m p) s) :
    Safe env (do m (← pop)) 1 fun h => on1 (C h) :=
  safe_of fun h err res k p st => hm ⟨h, st, err, res, k⟩ p

lemma safe_pop₂ {m : Ptr → Ptr → VM Unit} {C : Heap → Ptr → Ptr → Prop}
    (hm : ∀ (s : State) p q, C s.heap p q → EndsWell s.heap (m p q) s) :
    Safe env (do
      let p ← pop
      m p (← pop)) 2 fun h => on2 (C h) :=
  safe_of fun h err res k p q st => hm ⟨h, st, err, res, k⟩ p q

lemma safe_pop₃ {m : Ptr → Ptr → Ptr → VM Unit} {C : Heap → Ptr → Ptr → Ptr → Prop}
    (hm : ∀ (s : State) p q r, C s.heap p q r → EndsWell s.heap (m p q r) s) :
    Safe env (do
      let p ← pop
      let q ← pop
      m p q (← pop)) 3 fun h => on3 (C h) :=
  safe_of fun h err res k p q r st => hm ⟨h, st, err, res, k⟩ p q r

lemma safe_one {α : Type} {f : Ptr → VM α} {m : Ptr → α → VM Unit} {C : Heap → Ptr → Prop}
    (hf : ∀ (s : State) p, C s.heap p → EndsWell s.heap (f p) s)
    (hm : ∀ p a h s, EndsWell h (m p a) s) :
    Safe env (do
      let p ← pop
      m p (← f p)) 1 fun h => on1 (C h) :=
  safe_pop fun s p hp => ends_bind.mpr ((hf s p hp).imp fun a t _ => hm p a s.heap t)

lemma safe_two {α : Type} {f : Ptr → Ptr → VM α} {m : Ptr → Ptr → α → VM Unit}
    {C : Heap → Ptr → Ptr → Prop}
    (hf : ∀ (s : State) p q, C s.heap p q → EndsWell s.heap (f p q) s)
    (hm : ∀ p q a h s, EndsWell h (m p q a) s) :
    Safe env (do
      let p ← pop
      let q ← pop
      m p q (← f p q)) 2 fun h => on2 (C h) :=
  safe_pop₂ fun s p q hpq => ends_bind.mpr ((hf s p q hpq).imp fun a t _ => hm p q a s.heap t)

/-! ## Stack operations -/

lemma safe_pushFrom {a : Addr} {bad : Error} : Safe env (pushFrom env inst a bad) 0 fun h _ =>
    (inst >>> 16).toNat ≠ (h.tuple a).fields.length := by
  intro s _ _ hne
  unfold pushFrom
  simp only [ends_bind, ends_get, ends_ite]
  refine ⟨fun _ => trivial, fun hle => ?_⟩
  exact ends_read_imp rfl (fine_tupleAt (by omega)) fun _ _ => trivial

lemma safe_POP : Safe env op_POP 1 (Guard env inst · .POP) := by
  refine safe_of fun h err res k p st hp => ?_
  unfold op_POP
  simp only [ends_bind, ends_resultMk, ends_pop]
  refine (ends_freezeTop hp).imp fun _ t _ => ?_
  exact (ends_resultAppend (ne_none_of_valid hp)).imp fun _ _ _ => trivial

lemma safe_POP_ALL : Safe env op_POP_ALL 1 (Guard env inst · .POP_ALL) := by
  intro s _ _ hst
  exact ends_popAll rfl hst

lemma safe_PEEK : Safe env op_PEEK 1 (Guard env inst · .PEEK) := by
  refine safe_of fun h err res k p st hp => ?_
  unfold op_PEEK
  rw [ends_bind]
  refine ends_pop_signed rfl hp fun i _ => ?_
  simp only [ends_bind, ends_get, ends_ite]
  refine ⟨fun _ => trivial, fun hlt => ?_⟩
  -- the position as a 32-bit number is not greater than the position
  have hpos : i.toUInt64.toUInt32.toNat < st.length := by
    exact (Nat.mod_le _ _).trans_lt (not_le.mp hlt)
  unfold stackPeek
  simp only [ends_bind, ends_get, List.getElem?_eq_getElem hpos]
  trivial

lemma safe_IFELSE : Safe env op_IFELSE 3 (Guard env inst · .IFELSE) := by
  refine safe_of fun h err res k p q r st hr => ?_
  unfold op_IFELSE
  simp only [ends_bind, ends_pop]
  refine ends_pop_signed rfl hr fun i _ => ?_
  rw [ends_ite]
  exact ⟨fun _ => trivial, fun _ => trivial⟩

lemma safe_IFPOP : Safe env op_IFPOP 2 (Guard env inst · .IFPOP) := by
  refine safe_of ?_
  rintro h err res k p q st ⟨hp, hq⟩
  unfold op_IFPOP
  simp only [ends_bind, ends_pop]
  refine ends_pop_signed rfl hq fun i _ => ?_
  simp only [ends_ite, ends_bind, ends_resultMk]
  exact ⟨fun _ => (ends_resultAppend hp).imp fun _ _ _ => trivial, fun _ => trivial⟩

lemma safe_IFSTOP : Safe env op_IFSTOP 1 (Guard env inst · .IFSTOP) := by
  refine safe_of fun h err res k p st hp => ?_
  unfold op_IFSTOP
  rw [ends_bind]
  refine ends_pop_signed rfl hp fun i _ => ?_
  rw [ends_ite]
  exact ⟨fun _ => trivial, fun _ => trivial⟩

lemma safe_DUMPSTACK : Safe env (op_DUMPSTACK env) 1 (Guard env inst · .DUMPSTACK) := by
  refine safe_of fun h err res k p st hst => ?_
  unfold op_DUMPSTACK
  rw [ends_bind]
  refine ends_pop_string rfl (hst p mem_cons_self) fun _ _ => ?_
  refine Ends.imp (@Ends.forM _ _ _ _ _ (fun t => t.heap = h) _ st rfl fun q hq t ht => ?_)
    fun _ _ _ => trivial
  rw [ends_bind]
  refine ends_textPtr (congrArg Heap.parts ht) (hst q (mem_cons_of_mem p hq)) fun _ _ => ?_
  exact ht

lemma safe_IFPOP_TUPLE : Safe env (op_IFPOP_TUPLE env) 1 (Guard env inst · .IFPOP_TUPLE) := by
  rintro ⟨h, _ | ⟨p, st⟩, err, res, k⟩ hlen hop hp
  · exact absurd hlen (Nat.not_succ_le_zero _)
  · have hfields : ∀ q ∈ (h.tuple env.operand).fields, q ≠ none := fun q hq =>
      ne_none_of_valid (valid_of_nested ((nested_succ.mp hop).2.2 q hq))
    unfold op_IFPOP_TUPLE
    rw [ends_bind]
    refine ends_pop_signed rfl hp fun i _ => ?_
    simp only [ends_ite, ends_bind, ends_resultMk, ends_get]
    exact ⟨fun _ => ends_resultAppend_all hfields, fun _ => trivial⟩

/-! ## Tuple operations -/

lemma safe_T_MKTUPLE : Safe env op_T_MKTUPLE 1 (Guard env inst · .T_MKTUPLE) := by
  refine safe_pop fun s p hp => ?_
  simp only [ends_bind]
  exact ends_mkTuple (forall_mem_singleton.mpr hp) fun _ _ => trivial

lemma safe_T_APPEND : Safe env op_T_APPEND 2 (Guard env inst · .T_APPEND) := by
  refine safe_of ?_
  rintro h err res k p q st ⟨hp, hq, hopen⟩
  unfold op_T_APPEND
  simp only [ends_bind, ends_pop, ends_stackTop]
  refine ends_read_imp rfl (fine_unbox hq) fun a ha => ?_
  have hpass : ¬ (p.isNone = true ∨ (h.tuple a).frozen = true) := by
    rw [hopen a (eq_tuple_of_unbox ha), Option.isNone_iff_eq_none]
    exact not_or.mpr ⟨hp, Bool.false_ne_true⟩
  unfold tupleAppend
  simp only [ends_bind, ends_get, ends_ite]
  exact ⟨fun hfail => absurd hfail hpass, fun _ => trivial⟩

lemma safe_T_UNBOX : Safe env op_T_UNBOX 1 (Guard env inst · .T_UNBOX) := by
  refine safe_pop fun s p hp => ?_
  simp only [ends_bind]
  refine ends_read_imp rfl (fine_unbox hp) fun a _ => ?_
  exact Ends.forM _ trivial fun _ _ _ _ => trivial

lemma safe_T_UNBOXPOP : Safe env op_T_UNBOXPOP 1 (Guard env inst · .T_UNBOXPOP) := by
  refine safe_pop fun s p ⟨hp, hfields⟩ => ?_
  simp only [ends_bind]
  obtain ⟨hvalid, hnull⟩ := Bool.and_eq_true_iff.mp hp
  refine ends_read_imp rfl (fine_castTuple (ne_none_of_valid hvalid)) fun t ht => ?_
  have hderef : (castTuple p >>= deref) = deref t := by rw [ht]; rfl
  refine ends_read_imp rfl (hderef ▸ fine_unbox hp) fun a ha => ?_
  rw [ends_get]
  exact ends_resultAppend_all (hfields a (eq_tuple_of_unbox (hderef.trans ha)))

lemma safe_T_FIELD : Safe env (op_T_FIELD env) 2 (Guard env inst · .T_FIELD) := by
  refine safe_of ?_
  rintro h err res k p q st ⟨hp, hq, hindex⟩
  unfold op_T_FIELD
  rw [ends_bind]
  refine ends_pop_signed rfl hp fun i hi => ?_
  simp only [ends_bind, ends_pop]
  refine ends_read_imp rfl (fine_unbox hq) fun a ha => ?_
  refine ends_read_imp rfl (fine_tupleAt (hindex a (eq_tuple_of_unbox ha) i hi)) fun f _ => ?_
  rw [ends_ite]
  exact ⟨fun _ => trivial, fun _ => trivial⟩

lemma safe_T_MK_TYPE : Safe env (op_T_MK_TYPE env) 2 (Guard env inst · .T_MK_TYPE) := by
  refine safe_pop₂ fun s p q ⟨hp, hq⟩ => ?_
  simp only [ends_bind]
  refine ends_textPtr rfl hp fun name _ => ?_
  exact ends_mkTuple (namedFields_append (forall_mem_singleton.mpr hq)) fun _ _ => trivial

lemma safe_T_MK_AGG : Safe env (op_T_MK_AGG env) 2 (Guard env inst · .T_MK_AGG) := by
  refine safe_pop₂ fun s p q ⟨hp, hq⟩ => ?_
  simp only [ends_bind]
  refine ends_mkTuple (namedFields_append ?_) fun _ _ => trivial
  exact forall_mem_cons.mpr ⟨hq, forall_mem_singleton.mpr hp⟩

lemma safe_mkExpression {name : List UInt8} : Safe env (mkExpression env name) 3 fun _ =>
    on3 fun p q r => p ≠ none ∧ q ≠ none ∧ r ≠ none := by
  refine safe_pop₃ fun s p q r ⟨hp, hq, hr⟩ => ?_
  simp only [ends_bind]
  refine ends_mkTuple (namedFields_append ?_) fun _ _ => trivial
  exact forall_mem_cons.mpr ⟨hp, forall_mem_cons.mpr ⟨hq, forall_mem_singleton.mpr hr⟩⟩

/-! ## Operations that call helpers -/

section Helpers

variable {f : Helper}

lemma safe_helperOp_zero : Safe env (helperOp env f 0 []) 0 fun h _ => HelperFine env.host h f [] := by
  intro s _ _ hf
  unfold helperOp
  rw [ends_bind]
  exact ends_callHelper rfl hf .nil fun _ _ => trivial

lemma safe_helperOp_one : Safe env (helperOp env f 1 []) 1 fun h =>
    on1 fun p => HelperFine env.host h f [p] := by
  refine safe_of fun h err res k p st hf => ?_
  unfold helperOp helperOp
  simp only [ends_bind, ends_pop]
  exact ends_callHelper rfl hf (.cons passed_self .nil) fun _ _ => trivial

lemma safe_helperOp_two : Safe env (helperOp env f 2 []) 2 fun h =>
    on2 fun p q => HelperFine env.host h f [p, q] := by
  refine safe_of fun h err res k p q st hf => ?_
  unfold helperOp helperOp helperOp
  simp only [ends_bind, ends_pop]
  exact ends_callHelper rfl hf (.cons passed_self (.cons passed_self .nil)) fun _ _ => trivial

lemma safe_listHelperOp : Safe env (listHelperOp env f) 1 fun h =>
    on1 fun p => p ≠ none ∧ HelperFine env.host h f [p] := by
  refine safe_pop fun s p ⟨hp, hf⟩ => ?_
  simp only [ends_bind]
  refine (quiet_castList rfl hp).ends_imp fun a h1 ha hs => ?_
  exact ends_callHelper hs hf (.cons (passed_list ha) .nil) fun _ _ => trivial

lemma ends_callHelper_lists {h₀ : Heap} {s : State} {p q : Ptr} (hs : s.heap.parts = h₀.parts)
    (hp : p ≠ none) (hq : q ≠ none) (hf : HelperFine env.host h₀ f [p, q]) : EndsWell h₀ (do
      let a ← castList p
      let b ← castList q
      stackPush (← callHelper env f [some (.list a), some (.list b)])) s := by
  simp only [EndsWell, ends_bind]
  refine (quiet_castList hs hp).ends_imp fun a h1 ha hs1 => ?_
  refine (quiet_castList hs1 hq).ends_imp fun b h2 hb hs2 => ?_
  exact ends_callHelper hs2 hf (.cons (passed_list ha) (.cons (passed_list hb) .nil))
    fun _ _ => trivial

lemma safe_listsHelperOp : Safe env (listsHelperOp env f) 2 fun h =>
    on2 fun p q => p ≠ none ∧ q ≠ none ∧ HelperFine env.host h f [p, q] := by
  refine safe_of ?_
  rintro h err res k p q st ⟨hp, hq, hf⟩
  unfold listsHelperOp
  rw [ends_bind, ends_pop, ends_bind, ends_pop]
  exact ends_callHelper_lists rfl hp hq hf

lemma safe_O_SELECT : Safe env (op_O_SELECT env) 2 (Guard env inst · .O_SELECT) := by
  refine safe_of ?_
  rintro h err res k p q st ⟨hp, hq, hf⟩
  unfold op_O_SELECT
  rw [ends_bind, ends_pop, ends_bind, ends_pop]
  exact ends_callHelper_lists rfl hq hp hf

lemma safe_listValueHelperOp : Safe env (listValueHelperOp env f) 2 fun h =>
    on2 fun p q => p ≠ none ∧ HelperFine env.host h f [p, q] := by
  refine safe_pop₂ fun s p q ⟨hp, hf⟩ => ?_
  simp only [ends_bind]
  refine (quiet_castList rfl hp).ends_imp fun a h1 ha hs => ?_
  exact ends_callHelper hs hf (.cons (passed_list ha) (.cons passed_self .nil)) fun _ _ => trivial

lemma safe_L_POS_ATTR : Safe env (op_L_POS_ATTR env) 2 (Guard env inst · .L_POS_ATTR) := by
  refine safe_pop₂ fun s p q ⟨hq, hf⟩ => ?_
  simp only [ends_bind]
  refine (quiet_castList rfl hq).ends_imp fun a h1 ha hs => ?_
  exact ends_callHelper hs hf (.cons (passed_list ha) (.cons passed_self .nil)) fun _ _ => trivial

lemma safe_MASK : Safe env (op_MASK env) 3 (Guard env inst · .MASK) := by
  refine safe_pop₃ fun s p q r ⟨hp, hq, hr, hf⟩ => ?_
  simp only [ends_bind]
  refine (quiet_castList rfl hq).ends_imp fun b h1 hb hs1 => ?_
  refine (quiet_castList hs1 hp).ends_imp fun a h2 ha hs2 => ?_
  refine ends_read_imp hs2 (fine_castInt64 hr) fun i hi => ?_
  exact ends_callHelper hs2 hf (.cons (passed_list ha) (.cons (passed_list hb)
    (.cons (Or.inr (Or.inr (Or.inl ⟨i, rfl, hi⟩))) .nil))) fun _ _ => trivial

lemma safe_L_CASTASSIGN : Safe env (op_L_CASTASSIGN env) 3 (Guard env inst · .L_CASTASSIGN) := by
  refine safe_pop₃ fun s p q r ⟨hp, hq, hr, hf⟩ => ?_
  simp only [ends_bind]
  refine (quiet_castList rfl hp).ends_imp fun a h1 ha hs1 => ?_
  refine (quiet_castList hs1 hq).ends_imp fun b h2 hb hs2 => ?_
  refine ends_read_imp hs2 (fine_castTuple hr) fun t ht => ?_
  exact ends_callHelper hs2 hf (.cons (passed_list ha) (.cons (passed_list hb)
    (.cons (Or.inr (Or.inr (Or.inr ⟨t, rfl, ht⟩))) .nil))) fun _ _ => trivial

lemma safe_L_SORTATTR : Safe env (op_L_SORTATTR env) 4 (Guard env inst · .L_SORTATTR) := by
  refine safe_of ?_
  rintro h err res k p q r u st ⟨hp, hr, hf⟩
  unfold op_L_SORTATTR
  simp only [ends_bind, ends_pop]
  refine (quiet_castList rfl hp).ends_imp fun a h1 ha hs1 => ?_
  refine (quiet_castList hs1 hr).ends_imp fun b h2 hb hs2 => ?_
  exact ends_callHelper hs2 hf (.cons (passed_list ha) (.cons passed_self
    (.cons (passed_list hb) (.cons passed_self .nil)))) fun _ _ => trivial

lemma safe_L_ADORNMENT : Safe env (op_L_ADORNMENT env) 2 (Guard env inst · .L_ADORNMENT) := by
  refine safe_pop₂ fun s p q ⟨hr, hq, hf, hnew⟩ => ?_
  simp only [ends_bind]
  refine (quiet_compare rfl hr).2.1.ends_imp fun b h1 _ hs1 => ?_
  rw [ends_ite]
  refine ⟨fun _ => ?_, fun _ => ?_⟩
  · exact ends_callHelper_lists hs1 hr.ne_none hq hf
  · exact ends_callHelper_lists hs1 (Option.some_ne_none _) hq hnew

lemma safe_L_PREFIX : Safe env (op_L_PREFIX env) 2 (Guard env inst · .L_PREFIX) := by
  refine safe_pop₂ fun s p q ⟨hrp, hrq, hf⟩ => ?_
  simp only [ends_bind]
  refine (Quiet.orM (quiet_compare rfl hrp).1 fun h1 hs1 => (quiet_compare hs1 hrq).1).ends_imp
    fun b h2 _ hs2 => ?_
  rw [ends_ite]
  exact ⟨fun _ => trivial, fun _ => ends_callHelper_lists hs2 hrp.ne_none hrq.ne_none hf⟩

lemma safe_L_SUBSET : Safe env (op_L_SUBSET env) 2 (Guard env inst · .L_SUBSET) := by
  refine safe_pop₂ fun s p q ⟨hp, hq, hf⟩ => ?_
  have htest : ∀ {u : Ptr} {t : State}, u ≠ none → t.heap.parts = s.heap.parts →
      Quietly s.heap (do return (← typeOf u) == .LIST) t :=
    fun hu hs => (quiet_typeOf hs hu).bind fun _ h1 _ hs1 => quiet_pure hs1 trivial
  simp only [ends_bind]
  refine (Quiet.andM (htest hp rfl) fun h1 hs1 => htest hq hs1).ends_imp fun b h2 _ hs2 => ?_
  simp only [ends_ite, ends_bind]
  refine ⟨fun _ => ?_, fun _ => trivial⟩
  exact ends_callHelper hs2 hf (.cons passed_self (.cons passed_self .nil)) fun _ _ => trivial

lemma safe_GEN : Safe env (op_GEN env) 3 (Guard env inst · .GEN) := by
  refine safe_of ?_
  rintro h err res k p q r st ⟨hq, hf⟩
  unfold op_GEN
  simp only [ends_bind, ends_pop, ends_stackTop]
  refine ends_read_imp rfl (fine_castInt64 hq) fun i hi => ?_
  exact ends_callHelper rfl hf (.cons passed_self (.cons (Or.inr (Or.inr (Or.inl ⟨i, rfl, hi⟩)))
    (.cons passed_self .nil))) fun _ _ => trivial

lemma safe_VERIFY : Safe env (op_VERIFY env) 6 (Guard env inst · .VERIFY) := by
  refine safe_of ?_
  rintro h err res k p q r u v w st ⟨hq, hr, hu, hv, hw, hf⟩
  unfold op_VERIFY
  simp only [ends_bind, ends_pop, ends_stackTop]
  refine ends_read_imp rfl (fine_castInt64 hv) fun i hi => ?_
  refine (quiet_typeOf rfl hq).ends_imp fun _ h1 _ hs1 => ?_
  refine (quiet_typeOf hs1 hr).ends_imp fun _ h2 _ hs2 => ?_
  refine (quiet_typeOf hs2 hu).ends_imp fun _ h3 _ hs3 => ?_
  refine (quiet_typeOf hs3 hw).ends_imp fun _ h4 _ hs4 => ?_
  refine ends_callHelper hs4 hf ?_ fun _ _ => trivial
  exact .cons passed_self (.cons passed_self (.cons passed_self (.cons passed_self
    (.cons (Or.inr (Or.inr (Or.inl ⟨i, rfl, hi⟩))) (.cons passed_self .nil)))))

end Helpers

/-! ## List and set operations -/

lemma safe_L_FACT : Safe env (op_L_FACT env) 2 (Guard env inst · .L_FACT) := by
  refine safe_pop₂ fun s p q ⟨hp, hq, hfact⟩ => ?_
  simp only [ends_bind]
  refine ends_textPtr rfl hp fun name _ => ?_
  refine (quiet_castList rfl hq).ends_imp fun a h1 ha hs => ?_
  have hvalues : ∀ r ∈ h1.list a, Factual h1 r := by
    intro r hr
    rw [list_eq_elementsOf hs ha] at hr
    refine ⟨(hfact r hr).1, fun t ht => ?_⟩
    obtain ⟨b, rfl, u, hu, hune⟩ := (hfact r hr).2 t ht
    refine ⟨b, rfl, u, ?_, hune⟩
    rw [show (h1.tuple b).fields = (s.heap.tuple b).fields from congrFun hs (.tuple (some b))]
    exact hu
  have hfine : ∀ r ∈ h1.list a,
      Fine (factValue env r h1) ∧ ∀ q, factValue env r h1 = .ok q → q ≠ none :=
    fun r hr => fine_factValue (hvalues r hr)
  refine ends_read_imp hs (Fine.mapM fun r hr => (hfine r hr).1) fun fields hfields => ?_
  refine ends_mkTuple (namedFields_append ?_) fun _ _ => trivial
  exact forall_of_mapM (fun r hr => (hfine r hr).2) hfields

lemma safe_L_INDEXMATCH : Safe env (op_L_INDEXMATCH env) 3 (Guard env inst · .L_INDEXMATCH) := by
  refine safe_pop₃ fun s p q r ⟨hp, hq, hr, helements, hkeys⟩ => ?_
  simp only [ends_bind]
  refine (quiet_castList rfl hp).ends_imp fun a h1 ha hs1 => ?_
  refine (quiet_castList hs1 hq).ends_imp fun b h2 hb hs2 => ?_
  refine (quiet_castList hs2 hr).ends_imp fun c h3 hc hs3 => ?_
  refine ends_read_imp hs3 (hkeys h3 a b hs3 ha hb) fun indexKey _ => ?_
  refine ends_read_imp hs3 (fine_indexLoop ?_) fun _ _ => trivial
  rw [list_eq_elementsOf hs3 hc]
  exact helements

lemma safe_L_GROUP : Safe env (op_L_GROUP env) 1 (Guard env inst · .L_GROUP) := by
  refine safe_of fun h err res k p st hp => ?_
  unfold op_L_GROUP
  simp only [ends_bind, ends_stackTop]
  refine (quiet_castList rfl (ne_none_of_valid (valid_of_nested hp))).ends_imp
    fun a h1 ha hs => ?_
  refine ends_read_imp hs (Fine.mapM fun q hq => fine_textPtr ?_) fun _ _ => trivial
  rw [list_eq_elementsOf hs ha] at hq
  rw [sound_congr hs]
  exact sound_elementsOf hp q hq

lemma fine_compare_elements {h h1 : Heap} {a : Addr} {p q : Ptr} (hs : h1.parts = h.parts)
    (ha : h.list a = h.elementsOf p) (hp : whole env.host h p) (hq : whole env.host h q) :
    ∀ r ∈ h1.list a, Fine (compareTo h1 env.host.room r q) := by
  intro r hr
  rw [list_eq_elementsOf hs ha] at hr
  have hr' := whole_elementsOf hp r hr
  rw [← whole_congr hs] at hr' hq
  exact fine_compareTo (Or.inl hr') hq

lemma ne_none_of_whole {host : Host} {h : Heap} {p : Ptr} (hp : whole host h p) : p ≠ none :=
  ne_none_of_valid (valid_of_nested hp)

lemma safe_L_REMOVEVAR : Safe env (op_L_REMOVEVAR env) 2 (Guard env inst · .L_REMOVEVAR) := by
  refine safe_pop₂ fun s p q ⟨hp, hq⟩ => ?_
  simp only [ends_bind]
  refine (quiet_castList rfl (ne_none_of_whole hq)).ends_imp fun a h1 ha hs => ?_
  exact ends_read_imp hs (fine_removeVar (fine_compare_elements hs ha hq hp)) fun _ _ => trivial

lemma safe_L_CONTAINS : Safe env (op_L_CONTAINS env) 2 (Guard env inst · .L_CONTAINS) := by
  refine safe_pop₂ fun s p q ⟨hp, hq⟩ => ?_
  simp only [ends_bind]
  refine (quiet_castList rfl (ne_none_of_whole hq)).ends_imp fun a h1 ha hs => ?_
  exact ends_read_imp hs (fine_listMember (fine_compare_elements hs ha hq hp)) fun _ _ => trivial

lemma safe_L_MEMBER : Safe env (op_L_MEMBER env) 2 (Guard env inst · .L_MEMBER) := by
  refine safe_pop₂ fun s p q ⟨hp, hq⟩ => ?_
  have hqne := ne_none_of_whole hq
  simp only [ends_bind]
  refine (quiet_typeOf rfl hqne).ends_imp fun _ h1 _ hs1 => ?_
  simp only [ends_ite, ends_bind]
  refine ⟨fun _ => ?_, fun _ => ?_⟩
  · refine (quiet_castList hs1 hqne).ends_imp fun a h2 ha hs2 => ?_
    exact ends_read_imp hs2 (fine_listMember (fine_compare_elements hs2 ha hq hp)) fun _ _ => trivial
  · refine (quiet_castSet hs1 hqne).ends_imp fun a h2 ha hs2 => ?_
    refine ends_read_imp hs2 (fine_setMember fun r hr => ?_) fun _ _ => trivial
    rw [show h2.set a = s.heap.elementsOf q from (congrFun hs2 (.set a)).trans ha] at hr
    have hr' := whole_elementsOf hq r hr
    rw [← whole_congr hs2] at hr' hp
    exact ⟨fine_ltSet hr' hp, fine_ltSet hp hr'⟩

lemma safe_L_REMOVEPOS : Safe env op_L_REMOVEPOS 2 (Guard env inst · .L_REMOVEPOS) := by
  refine safe_pop₂ fun s p q ⟨hp, hq⟩ => ?_
  simp only [ends_bind]
  refine (quiet_castList rfl hq).ends_imp fun a h1 ha hs => ?_
  exact ends_read_imp hs (fine_castInt64 hp) fun _ _ => trivial

lemma safe_L_GET_ATTR : Safe env (op_L_GET_ATTR env) 2 (Guard env inst · .L_GET_ATTR) := by
  refine safe_pop₂ fun s p q ⟨hp, hq, htype⟩ => ?_
  simp only [ends_bind]
  refine (quiet_castList rfl hq).ends_imp fun a h1 ha hs => ?_
  refine ends_read_imp hs (fine_deref hp) fun o ho => ?_
  cases o with
  | int64 i => trivial
  | str type =>
    obtain rfl : p = some (.str type) := by
      cases p with
      | none => exact absurd rfl hp
      | some o => rw [Except.ok.inj (show Except.ok o = Except.ok (.str type) from ho)]
    have hguard := htype type rfl
    simp only [ends_ite, ends_bind]
    refine ⟨fun hloc => ?_, fun hloc => ?_⟩
    · rw [if_pos hloc] at hguard
      refine ends_callHelper hs hguard (.cons (passed_list ha) .nil) fun location h2 => ?_
      refine ⟨fun _ => trivial, fun hne => ?_⟩
      exact ends_mkTuple (namedFields_append (forall_mem_singleton.mpr hne))
        fun _ _ => trivial
    · rw [if_neg hloc] at hguard
      refine ends_read_imp hs (fine_findAttr fun r hr => ?_) fun _ _ => trivial
      rw [list_eq_elementsOf hs ha] at hr
      refine ⟨(hguard r hr).1, fun b hb => ?_⟩
      obtain ⟨u, hu, hsound⟩ := (hguard r hr).2 b hb
      refine ⟨u, ?_, ?_⟩
      · rw [show (h1.tuple b).fields = (s.heap.tuple b).fields from congrFun hs (.tuple (some b))]
        exact hu
      · rw [sound_congr hs]
        exact hsound
  | _ => trivial

lemma safe_L_CONCAT : Safe env op_L_CONCAT 2 (Guard env inst · .L_CONCAT) := by
  refine safe_pop₂ fun s p q ⟨hp, hq⟩ => ?_
  simp only [ends_bind]
  refine (quiet_castList rfl hp).ends_imp fun a h1 ha hs => ?_
  exact (quiet_castList hs hq).ends_imp fun _ _ _ _ => trivial

lemma safe_L_APPEND : Safe env op_L_APPEND 2 (Guard env inst · .L_APPEND) := by
  refine safe_pop₂ fun s p q hq => ?_
  simp only [ends_bind]
  refine (quiet_castList rfl hq).ends_imp fun a h1 ha hs => ?_
  simp only [ends_get, ends_ite]
  exact ⟨fun _ => trivial, fun _ => trivial⟩

lemma safe_L_INTERSECT : Safe env (op_L_INTERSECT env) 2 (Guard env inst · .L_INTERSECT) := by
  refine safe_pop₂ fun s p q ⟨hp, hq⟩ => ?_
  simp only [ends_bind]
  refine (quiet_castList rfl (ne_none_of_whole hp)).ends_imp fun a h1 ha hs1 => ?_
  refine (quiet_castList hs1 (ne_none_of_whole hq)).ends_imp fun b h2 hb hs2 => ?_
  refine ends_read_imp hs2 (fine_listIntersect ?_ ?_) fun _ _ => trivial
  · intro r hr
    rw [list_eq_elementsOf hs2 ha] at hr
    rw [whole_congr hs2]
    exact whole_elementsOf hp r hr
  · intro r hr
    rw [list_eq_elementsOf hs2 hb] at hr
    rw [whole_congr hs2]
    exact whole_elementsOf hq r hr

lemma safe_L_MULTISET_INTERSECT :
    Safe env (op_L_MULTISET_INTERSECT env) 2 (Guard env inst · .L_MULTISET_INTERSECT) := by
  refine safe_pop₂ fun s p q ⟨hp, hq⟩ => ?_
  have htexts : ∀ {h2 : Heap} {a : Addr} {u : Ptr}, h2.parts = s.heap.parts →
      s.heap.list a = s.heap.elementsOf u → sound env.host s.heap u →
        Fine (withTexts env h2 (h2.list a)) := by
    intro h2 a u hs ha hu
    refine Fine.mapM fun r hr => Fine.bind (fine_textPtr ?_) fun _ _ => fine_ok _
    rw [list_eq_elementsOf hs ha] at hr
    rw [sound_congr hs]
    exact sound_elementsOf hu r hr
  simp only [ends_bind]
  refine (quiet_castList rfl (ne_none_of_whole (whole_of_sound hp))).ends_imp fun a h1 ha hs1 => ?_
  refine (quiet_castList hs1 (ne_none_of_whole (whole_of_sound hq))).ends_imp fun b h2 hb hs2 => ?_
  refine ends_read_imp hs2 ?_ fun _ _ => trivial
  exact (htexts hs2 hb hq).bind fun _ _ => (htexts hs2 ha hp).bind fun _ _ => fine_ok _

lemma safe_L_CONS : Safe env op_L_CONS 2 (Guard env inst · .L_CONS) := by
  refine safe_pop₂ fun s p q ⟨hp, hq⟩ => ?_
  have hcons : ∀ {u : Ptr}, u ≠ none → Fine (consElements u s.heap) := by
    intro u hu
    cases u with
    | none => exact absurd rfl hu
    | some o => cases o <;> exact fine_ok _
  simp only [ends_bind]
  refine ends_read_imp rfl (hcons hp) fun _ _ => ?_
  exact ends_read_imp rfl (hcons hq) fun _ _ => trivial

lemma safe_nonEmptyListOp {f : Addr → Ptr → List Ptr → VM Unit}
    (hf : ∀ h₀ a p ps s, EndsWell h₀ (f a p ps) s) :
    Safe env (nonEmptyListOp f) 1 fun _ => on1 fun p => p ≠ none := by
  refine safe_pop fun s p hp => ?_
  simp only [ends_bind]
  refine (quiet_castList rfl hp).ends_imp fun a h1 ha hs => ?_
  rw [ends_get]
  split
  · trivial
  · exact hf s.heap a _ _ _

lemma safe_SETMOD : Safe env op_SETMOD 1 (Guard env inst · .SETMOD) := by
  refine safe_pop fun s p hp => ?_
  simp only [ends_bind]
  refine (quiet_typeOf rfl hp).ends_imp fun _ h1 _ hs1 => ?_
  simp only [ends_ite, ends_bind]
  exact ⟨fun _ => (quiet_castSet hs1 hp).ends_imp fun _ _ _ _ => trivial, fun _ => trivial⟩

/-! ## Vector and matrix operations -/

lemma safe_V_INITVEC : Safe env (op_V_INITVEC env) 1 (Guard env inst · .V_INITVEC) := by
  refine safe_of ?_
  rintro h err res k p st ⟨hp, hsize⟩
  unfold op_V_INITVEC
  rw [ends_bind]
  refine ends_pop_signed rfl hp fun i hi => ?_
  simp only [ends_bind, ends_ite]
  exact ⟨fun hlarge => absurd (hsize i hi) (not_le.mpr hlarge), fun _ => trivial⟩

lemma eq_vector_of_cast {p : Ptr} {a : Addr} (hp : castVector p = .ok a) : p = some (.vector a) := by
  cases p with
  | none => cases hp
  | some o =>
    cases o with
    | vector b => rw [Except.ok.inj (show Except.ok b = Except.ok a from hp)]
    | _ => cases hp

lemma eq_matrix_of_cast {p : Ptr} {a : Addr} (hp : castMatrix p = .ok a) : p = some (.matrix a) := by
  cases p with
  | none => cases hp
  | some o =>
    cases o with
    | matrix b => rw [Except.ok.inj (show Except.ok b = Except.ok a from hp)]
    | _ => cases hp

lemma safe_V_GETOFFSET : Safe env op_V_GETOFFSET 2 (Guard env inst · .V_GETOFFSET) := by
  refine safe_of ?_
  rintro h err res k p q st ⟨hp, hq, hindex⟩
  unfold op_V_GETOFFSET
  rw [ends_bind]
  refine ends_pop_signed rfl hp fun i hi => ?_
  simp only [ends_bind, ends_pop]
  refine ends_read_imp rfl (fine_castVector hq) fun a ha => ?_
  have hlt := hindex i a hi (eq_vector_of_cast ha)
  refine ends_read_imp rfl (fine_orThrow ?_) fun _ _ => trivial
  rw [List.getElem?_eq_getElem hlt]
  rfl

lemma safe_V_SETOFFSET : Safe env op_V_SETOFFSET 3 (Guard env inst · .V_SETOFFSET) := by
  refine safe_of ?_
  rintro h err res k v p q st ⟨hp, hq, hindex⟩
  unfold op_V_SETOFFSET
  simp only [ends_bind, ends_pop]
  refine ends_pop_signed rfl hp fun i hi => ?_
  refine ends_read_imp rfl (fine_castVector hq) fun a ha => ?_
  have hlt := hindex i a hi (eq_vector_of_cast ha)
  simp only [ends_get, ends_ite]
  exact ⟨fun hge => absurd hlt (not_lt.mpr hge), fun _ => trivial⟩

lemma safe_V_COMPAREVEC : Safe env (op_V_COMPAREVEC env) 2 (Guard env inst · .V_COMPAREVEC) := by
  refine safe_pop₂ fun s p q ⟨hp, hq⟩ => ?_
  simp only [ends_bind]
  refine ends_read_imp rfl (fine_castVector (ne_none_of_whole hq)) fun a ha => ?_
  obtain rfl := eq_vector_of_cast ha
  exact (quiet_comparePtr rfl (Or.inl hq) hp).ends_imp fun _ _ _ _ => trivial

lemma safe_M_INITMAT : Safe env (op_M_INITMAT env) 2 (Guard env inst · .M_INITMAT) := by
  refine safe_of ?_
  rintro h err res k p q st ⟨hp, hq, hsize⟩
  unfold op_M_INITMAT
  rw [ends_bind]
  refine ends_pop_signed rfl hp fun i hi => ?_
  rw [ends_bind]
  refine ends_pop_signed rfl hq fun j hj => ?_
  simp only [ends_bind, ends_ite]
  exact ⟨fun hlarge => absurd (hsize i j hi hj) (not_le.mpr hlarge), fun _ => trivial⟩

lemma isSome_place {m : MatrixBody} {i j : ℕ} (hij : i < m.size1 ∧ j < m.size2) :
    (m.place i j).isSome := by
  unfold MatrixBody.place
  rw [if_pos hij]
  rfl

lemma safe_M_GETOFFSET : Safe env op_M_GETOFFSET 3 (Guard env inst · .M_GETOFFSET) := by
  refine safe_of ?_
  rintro h err res k p q r st ⟨hp, hq, hr, hindex⟩
  unfold op_M_GETOFFSET
  rw [ends_bind]
  refine ends_pop_signed rfl hp fun i hi => ?_
  rw [ends_bind]
  refine ends_pop_signed rfl hq fun j hj => ?_
  simp only [ends_bind, ends_pop]
  refine ends_read_imp rfl (fine_castMatrix hr) fun a ha => ?_
  have hplace := isSome_place (hindex i j a hi hj (eq_matrix_of_cast ha))
  exact ends_read_imp rfl (fine_orThrow hplace) fun _ _ => trivial

lemma safe_M_SETOFFSET : Safe env op_M_SETOFFSET 4 (Guard env inst · .M_SETOFFSET) := by
  refine safe_of ?_
  rintro h err res k v p q r st ⟨hp, hq, hr, hindex⟩
  unfold op_M_SETOFFSET
  simp only [ends_bind, ends_pop]
  refine ends_pop_signed rfl hp fun i hi => ?_
  refine ends_pop_signed rfl hq fun j hj => ?_
  refine ends_read_imp rfl (fine_castMatrix hr) fun a ha => ?_
  have hplace := isSome_place (hindex i j a hi hj (eq_matrix_of_cast ha))
  exact ends_read_imp rfl (fine_orThrow hplace) fun _ _ => trivial

lemma safe_M_COMPAREMAT : Safe env (op_M_COMPAREMAT env) 3 (Guard env inst · .M_COMPAREMAT) := by
  refine safe_of ?_
  rintro h err res k p q r st ⟨hp, hq⟩
  unfold op_M_COMPAREMAT
  simp only [ends_bind, ends_pop]
  refine ends_read_imp rfl (fine_castMatrix (ne_none_of_whole hq)) fun a ha => ?_
  obtain rfl := eq_matrix_of_cast ha
  exact (quiet_comparePtr rfl (Or.inl hq) hp).ends_imp fun _ _ _ _ => trivial

/-! ## Boolean operations and arithmetic -/

lemma safe_signed {f : Int64 → Ptr} :
    Safe env (do stackPush (f (← pop_signed))) 1 fun _ => on1 fun p => p ≠ none := by
  refine safe_of fun h err res k p st hp => ?_
  rw [ends_bind]
  exact ends_pop_signed rfl hp fun _ _ => trivial

lemma safe_signed_two {f : Int64 → Int64 → Ptr} :
    Safe env (do
      let v2 ← pop_signed
      let v1 ← pop_signed
      stackPush (f v1 v2)) 2 fun _ => on2 fun p q => p ≠ none ∧ q ≠ none := by
  refine safe_of ?_
  rintro h err res k p q st ⟨hp, hq⟩
  rw [ends_bind]
  refine ends_pop_signed rfl hp fun _ _ => ?_
  rw [ends_bind]
  exact ends_pop_signed rfl hq fun _ _ => trivial

lemma safe_COIN : Safe env (op_COIN env) 1 (Guard env inst · .COIN) := by
  refine safe_of fun h err res k p st hp => ?_
  unfold op_COIN
  simp only [ends_bind, ends_query]
  exact ends_pop_double rfl hp fun _ => trivial

lemma safe_doubleFn {f : Double → Double} :
    Safe env (doubleFn env f) 1 fun _ => on1 fun p => p ≠ none := by
  refine safe_of fun h err res k p st hp => ?_
  unfold doubleFn
  rw [ends_bind]
  exact ends_pop_double rfl hp fun _ => trivial

lemma safe_binaryOp {f : Ptr → Ptr → VM Ptr}
    (hf : ∀ (s : State) v1 v2, OperReady env.host s.heap v1 v2 → EndsWell s.heap (f v1 v2) s) :
    Safe env (binaryOp f) 2 fun h => on2 fun p q => OperReady env.host h q p :=
  safe_two (fun s p q => hf s q p) fun _ _ _ _ _ => trivial

lemma safe_unaryOp {f : Ptr → VM Ptr}
    (hf : ∀ (s : State) v, OperReady env.host s.heap v v → EndsWell s.heap (f v) s) :
    Safe env (unaryOp f) 1 fun h => on1 fun p => OperReady env.host h p p :=
  safe_one hf fun _ _ _ _ => trivial

lemma safe_compareOp {f : Ptr → Ptr → VM Bool}
    (hf : ∀ (s : State) v1 v2, OperReady env.host s.heap v1 v2 → Quietly s.heap (f v1 v2) s) :
    Safe env (compareOp f) 2 fun h => on2 fun p q => OperReady env.host h q p :=
  safe_two (fun s p q hr => (hf s q p hr).ends) fun _ _ _ _ _ => trivial

lemma safe_DIV : Safe env (op_DIV env) 2 (Guard env inst · .DIV) := by
  refine safe_pop₂ fun s p q ⟨hzero, hr, htrap⟩ => ?_
  simp only [ends_bind]
  refine (quiet_compare rfl hzero).2.1.ends_imp fun b h1 _ hs1 => ?_
  simp only [ends_ite, ends_tryCatch, ends_bind, ends_get]
  refine ⟨fun _ => ?_, fun _ => ⟨fun _ => trivial, fun _ => trivial⟩⟩
  refine (ends_divide hs1 hr htrap).mono (fun e t he => ⟨fun _ => trivial, fun hne => ?_⟩)
    fun _ _ _ => trivial
  rcases he with he | ⟨he, -⟩
  · exact he
  · exact absurd he hne

lemma safe_MOD : Safe env (op_MOD env) 2 (Guard env inst · .MOD) := by
  refine safe_pop₂ fun s p q ⟨hzero, hr, htrap, hcast⟩ => ?_
  simp only [ends_bind]
  refine (quiet_compare rfl hzero).2.1.ends_imp fun b h1 _ hs1 => ?_
  simp only [ends_ite, ends_bind, ends_get]
  refine ⟨fun _ => ?_, fun _ => ⟨fun _ => trivial, fun _ => trivial⟩⟩
  exact (ends_mod hs1 hr htrap hcast).imp fun _ _ _ => trivial

lemma safe_APPEND : Safe env (op_APPEND env) 2 (Guard env inst · .APPEND) := by
  refine safe_pop₂ fun s p q ⟨hp, hq⟩ => ?_
  simp only [ends_bind]
  refine ends_textPtr rfl hp fun _ _ => ?_
  exact ends_textPtr rfl hq fun _ _ => trivial

/-! ## Comparisons, intervals and times -/

lemma safe_intervalOp {f : Ptr → Ptr → Ptr → VM Bool}
    (hf : ∀ (s : State) v src dest, IntervalReady env.host s.heap v src dest →
      Quietly s.heap (f v src dest) s) :
    Safe env (intervalOp f) 3 fun h => on3 fun p q r => IntervalReady env.host h r q p := by
  refine safe_pop₃ fun s p q r hr => ?_
  simp only [ends_bind]
  exact (hf s r q p hr).ends_imp fun _ _ _ _ => trivial

lemma safe_timeOp {f : TimeRep → TimeRep → Ptr} : Safe env (timeOp env f) 2 fun _ =>
    on2 fun p q => readable env.host p ∧ readable env.host q := by
  refine safe_of ?_
  rintro h err res k p q st ⟨hp, hq⟩
  unfold timeOp
  simp only [ends_bind]
  exact ends_pop_time rfl hp fun _ => ends_pop_time rfl hq fun _ => trivial

lemma safe_durationsOp {f : TimeRep → TimeRep → Ptr} : Safe env (durationsOp env f) 2 fun h =>
    on2 fun p q => whole env.host h p ∧ whole env.host h q := by
  refine safe_of ?_
  rintro h err res k p q st ⟨hp, hq⟩
  unfold durationsOp
  simp only [ends_bind]
  exact ends_pop_time_duration rfl hp fun _ => ends_pop_time_duration rfl hq fun _ => trivial

/-! ## Strings and conversions -/

lemma safe_string {f : List UInt8 → Ptr} : Safe env (do stackPush (f (← pop_string env))) 1 fun h =>
    on1 fun p => sound env.host h p := by
  refine safe_of fun h err res k p st hp => ?_
  rw [ends_bind]
  exact ends_pop_string rfl hp fun _ _ => trivial

lemma safe_string_two {f : List UInt8 → List UInt8 → Ptr} :
    Safe env (do
      let s1 ← pop_string env
      let s2 ← pop_string env
      stackPush (f s1 s2)) 2 fun h => on2 fun p q => sound env.host h p ∧ sound env.host h q := by
  refine safe_of ?_
  rintro h err res k p q st ⟨hp, hq⟩
  simp only [ends_bind]
  exact ends_pop_string rfl hp fun _ _ => ends_pop_string rfl hq fun _ _ => trivial

lemma safe_STR_SUBSTR : Safe env (op_STR_SUBSTR env) 3 (Guard env inst · .STR_SUBSTR) := by
  refine safe_of ?_
  rintro h err res k p q r st ⟨hp, hq, hr⟩
  unfold op_STR_SUBSTR
  simp only [ends_bind]
  refine ends_pop_signed rfl hp fun len _ => ?_
  refine ends_pop_signed rfl hq fun pos _ => ?_
  refine ends_pop_string rfl hr fun s _ => ?_
  rw [ends_ite]
  exact ⟨fun _ => trivial, fun _ => trivial⟩

lemma safe_STR_MATCH : Safe env (op_STR_MATCH env) 2 (Guard env inst · .STR_MATCH) := by
  refine safe_of ?_
  rintro h err res k p q st ⟨hp, hq, hmatch⟩
  unfold op_STR_MATCH
  simp only [ends_bind]
  refine ends_pop_string rfl hp fun re hre => ?_
  refine ends_pop_string rfl hq fun text htext => ?_
  exact ends_read_imp rfl (fine_orThrow (hmatch re text hre htext)) fun _ _ => trivial

lemma safe_STR_REPLACE : Safe env (op_STR_REPLACE env) 3 (Guard env inst · .STR_REPLACE) := by
  refine safe_pop₃ fun s p q r ⟨hp, hq, hr, hbound⟩ => ?_
  simp only [ends_bind]
  refine ends_textPtr rfl hp fun pattern hpattern => ?_
  refine ends_textPtr rfl hq fun replace hreplace => ?_
  refine ends_textPtr rfl hr fun value hvalue => ?_
  have hfine := fine_replaceLoop (hbound pattern replace value hpattern hreplace hvalue)
  exact ends_read_imp rfl hfine fun _ _ => trivial

lemma safe_STR_CONV : Safe env (op_STR_CONV env) 1 (Guard env inst · .STR_CONV) := by
  refine safe_of fun h err res k p st hp => ?_
  have hsingle : Convertible env.host h p → EndsWell h (do
      let text ← read (convText env p)
      stackPush (some (.str text))) ⟨h, st, err, res, k⟩ := by
    intro hconv
    rw [EndsWell, ends_bind]
    exact ends_read_imp rfl (fine_convText hconv) fun _ _ => trivial
  unfold op_STR_CONV
  cases p with
  | none => exact absurd hp id
  | some o =>
    cases o with
    | list a =>
      show Ends (Allowed h) (do
        let texts ← read fun h => (h.list a).mapM fun p => convText env p h
        stackPush (some (.str texts.flatten))) ⟨h, st, err, res, k⟩ _
      rw [ends_bind]
      exact ends_read_imp rfl (Fine.mapM fun q hq => fine_convText (hp q hq)) fun _ _ => trivial
    | _ => exact hsingle hp

lemma safe_CONV_TIME : Safe env (op_CONV_TIME env) 1 (Guard env inst · .CONV_TIME) := by
  refine safe_of fun h err res k p st hp => ?_
  unfold op_CONV_TIME
  rw [ends_bind]
  exact ends_pop_time rfl hp fun _ => trivial

lemma safe_CONV_TIME_DURATION :
    Safe env (op_CONV_TIME_DURATION env) 1 (Guard env inst · .CONV_TIME_DURATION) := by
  refine safe_of fun h err res k p st hp => ?_
  unfold op_CONV_TIME_DURATION
  rw [ends_bind]
  exact ends_pop_time_duration rfl hp fun _ => trivial

/-! ## The jump table -/

/-- **The table and the bodies agree.** Each opcode ends well from every stack with as many values
as its arity says, if its condition holds. -/
theorem safe_jump_table : ∀ e ∈ jump_table,
    Safe env (e.fn.fn env inst) e.arity (Guard env inst · e.fn) := by
  unfold jump_table
  simp only [forall_mem_cons]
  refine ⟨safe_of fun _ _ _ _ _ _ _ => trivial, safe_of fun _ _ _ _ _ _ _ _ => trivial,
    safe_of fun _ _ _ _ _ _ _ => trivial, safe_pushFrom, safe_pushFrom, safe_POP, safe_POP_ALL,
    safe_PEEK, safe_IFELSE, safe_IFPOP, safe_IFPOP_TUPLE, safe_IFSTOP, safe_DUMPSTACK,
    safe_of fun _ _ _ _ _ _ _ => trivial,
    safe_one (fun _ _ hp => ends_read rfl (fine_textPtr hp)) fun _ _ _ _ => trivial,
    safe_two (fun _ _ _ hr => (quiet_compare rfl hr).2.2.2.1.ends) fun _ _ _ _ _ => trivial,
    safe_two (fun _ _ _ hr => (quiet_compare rfl hr).2.2.2.1.ends) fun _ _ _ _ _ => trivial,
    fun _ _ _ _ => trivial, safe_T_MKTUPLE, safe_T_APPEND, safe_T_UNBOX, safe_T_UNBOXPOP,
    safe_T_FIELD, fun _ _ _ _ => trivial,
    safe_one (fun _ _ hp => (quiet_typeOf rfl hp).ends) fun _ _ _ _ => trivial,
    safe_two (fun _ _ _ hg => (quiet_comparePtr rfl (Or.inl hg.1) hg.2).ends) fun _ _ _ _ _ =>
      trivial, safe_L_FACT,
    safe_one (fun _ _ hp => (quiet_castList rfl hp).ends) fun _ _ _ _ => trivial, safe_L_APPEND,
    safe_L_CONCAT, safe_L_MEMBER, safe_L_SUBSET, safe_L_INTERSECT, safe_L_MULTISET_INTERSECT,
    safe_V_INITVEC, safe_V_GETOFFSET, safe_V_SETOFFSET, safe_V_COMPAREVEC, safe_M_INITMAT,
    safe_M_GETOFFSET, safe_M_SETOFFSET, safe_M_COMPAREMAT, safe_signed, safe_signed_two,
    safe_signed_two, fun _ _ _ _ => trivial, safe_COIN, fun _ _ _ _ => trivial, safe_L_CONS,
    safe_nonEmptyListOp fun _ _ _ _ _ => trivial, safe_nonEmptyListOp fun _ _ _ _ _ => trivial,
    safe_L_CONTAINS, safe_nonEmptyListOp fun _ _ _ _ _ => trivial,
    safe_nonEmptyListOp fun _ _ _ _ _ => trivial,
    safe_one (fun _ _ hp => (quiet_castList rfl hp).ends) fun _ _ _ _ => trivial,
    safe_binaryOp fun _ _ _ hr => (ends_arith rfl hr).2.1,
    safe_binaryOp fun _ _ _ hr => (ends_arith rfl hr).1,
    safe_binaryOp fun _ _ _ hr => (ends_arith rfl hr).2.2.2.2.2.1,
    safe_binaryOp fun _ _ _ hr => (ends_arith rfl hr).2.2.2.2.2.2.1,
    safe_binaryOp fun _ _ _ hr => (ends_arith rfl hr).2.2.2.2.2.2.2,
    safe_unaryOp fun _ _ hr => (ends_unary rfl hr).1, safe_MOD, safe_APPEND, safe_timeOp,
    safe_timeOp, safe_timeOp, safe_timeOp, safe_timeOp, safe_timeOp, fun _ _ _ _ => trivial,
    safe_durationsOp, safe_durationsOp, safe_durationsOp, safe_durationsOp, safe_durationsOp,
    safe_durationsOp, safe_durationsOp, safe_unaryOp fun _ _ hr => (ends_unary rfl hr).2.2.1,
    safe_unaryOp fun _ _ hr => (ends_unary rfl hr).2.2.2,
    safe_intervalOp fun _ _ _ _ hr => (quiet_interval rfl hr).1,
    safe_intervalOp fun _ _ _ _ hr => (quiet_interval rfl hr).2.1,
    safe_intervalOp fun _ _ _ _ hr => (quiet_interval rfl hr).2.2.1,
    safe_intervalOp fun _ _ _ _ hr => (quiet_interval rfl hr).2.2.2, safe_string_two, safe_string,
    safe_string, safe_string, safe_STR_SUBSTR, safe_STR_MATCH, safe_STR_CONV, safe_STR_REPLACE,
    safe_string_two, safe_of fun _ _ _ _ _ _ _ _ => trivial, safe_O_SELECT,
    safe_of fun _ _ _ _ _ _ _ _ => trivial, safe_listValueHelperOp, safe_helperOp_one,
    safe_helperOp_one, safe_helperOp_one, safe_L_GET_ATTR, safe_T_MK_TYPE, safe_mkExpression,
    safe_mkExpression, safe_T_MK_AGG, safe_L_POS_ATTR, safe_listHelperOp, safe_listHelperOp,
    safe_listHelperOp, safe_L_INDEXMATCH, safe_L_CASTASSIGN, safe_helperOp_one, safe_listsHelperOp,
    safe_L_REMOVEVAR, safe_L_REMOVEPOS, safe_listsHelperOp, safe_L_GROUP, safe_L_PREFIX,
    safe_L_SORTATTR, safe_listsHelperOp, safe_L_ADORNMENT, safe_listValueHelperOp, safe_VERIFY,
    safe_GEN, safe_SETMOD, fun _ _ _ _ => trivial, safe_of fun _ _ _ _ _ _ _ => trivial,
    safe_helperOp_two, safe_helperOp_two, safe_helperOp_zero, safe_helperOp_zero,
    safe_helperOp_one, safe_helperOp_one, safe_helperOp_one, safe_helperOp_one,
    safe_of fun _ _ _ _ _ _ _ => trivial,
    safe_two (fun _ _ _ hp => (quiet_castList rfl hp).ends) fun _ _ _ _ _ => trivial,
    safe_helperOp_one, safe_MASK, safe_unaryOp fun _ _ hr => (ends_unary rfl hr).2.1,
    safe_binaryOp fun _ _ _ hr => (ends_arith rfl hr).2.2.1,
    safe_binaryOp fun _ _ _ hr => (ends_arith rfl hr).2.2.2.1,
    safe_binaryOp fun _ _ _ hr => (ends_arith rfl hr).2.2.2.2.1, safe_DIV,
    safe_compareOp fun _ _ _ hr => (quiet_compare rfl hr).1,
    safe_compareOp fun _ _ _ hr => (quiet_compare rfl hr).2.2.2.2.1,
    safe_compareOp fun _ _ _ hr => (quiet_compare rfl hr).2.2.2.2.2,
    safe_compareOp fun _ _ _ hr => (quiet_compare rfl hr).2.2.1,
    safe_compareOp fun _ _ _ hr => (quiet_compare rfl hr).2.2.2.1, safe_signed, safe_doubleFn,
    safe_doubleFn, safe_doubleFn, safe_doubleFn, fun _ _ _ _ => trivial, safe_signed,
    safe_doubleFn, safe_string, safe_CONV_TIME, safe_CONV_TIME_DURATION,
    safe_one (fun _ _ hp => ends_read rfl (fine_castID hp)) fun _ _ _ _ => trivial, ?_⟩
  exact forall_mem_nil _

end Opcodes

/-! ## Runs -/

/-- **The condition of a step**: the opcode is not the number of opcodes, the operand tuple can be
written, and the operands meet the condition of the opcode. -/
def StepReady (env : Env) (inst : UInt32) (s : State) : Prop :=
  (inst &&& 0xFFFF).toNat ≠ NUM_OPCODES ∧
    ∀ e, jump_table[(inst &&& 0xFFFF).toNat]? = some e → e.arity ≤ s.st.length →
      OperandReady env s.heap ∧ Guard env inst s.heap e.fn s.st

/-- A run of a program comes to an instruction in a state: all instructions before it succeeded. -/
inductive Executes (env : Env) : List UInt32 → State → UInt32 → State → Prop
  | first {inst : UInt32} {ops : List UInt32} {s : State} : Executes env (inst :: ops) s inst s
  | next {inst inst' : UInt32} {ops : List UInt32} {s t t' : State} :
      execute_instruction env inst s = .ok .PE_SUCCESS t →
      Executes env ops { t with error := .PE_SUCCESS } inst' t' →
      Executes env (inst :: ops) s inst' t'

section Runs

variable {env : Env} {inst : UInt32} {s : State}

lemma ends_handle {h₀ : Heap} {e : Trouble} {E : Trouble → State → Prop} (hop : OperandReady env h₀)
    (he : Allowed h₀ e s) : Ends E (handle env e) s fun _ _ => True := by
  obtain ⟨hcaught, hs⟩ := he
  rcases hcaught with rfl | rfl
  · trivial
  · have hsound : sound env.host s.heap (some (.tuple (some env.operand))) := by
      rw [sound_congr hs]
      exact hop
    obtain ⟨text, htext⟩ := toString_of_nested hsound
    show Ends E (textPtr env _ >>= fun _ => setError _) s _
    rw [ends_bind]
    refine ends_ofExcept.mpr ⟨fun _ _ => trivial, fun e he => ?_⟩
    cases htext.symm.trans he

lemma ends_execute_instruction (hready : StepReady env inst s) :
    Ends (fun _ _ => False) (execute_instruction env inst) s fun _ _ => True := by
  obtain ⟨hop, hguard⟩ := hready
  unfold execute_instruction
  simp only [ends_bind, ends_ite]
  refine ⟨fun _ => trivial, fun hle => ?_⟩
  have hlt : (inst &&& 0xFFFF).toNat < jump_table.length := by
    rw [length_jump_table]
    omega
  have hentry := List.getElem?_eq_getElem hlt
  rw [hentry] at hguard ⊢
  simp only [ends_bind, ends_get, ends_ite, ends_tryCatch]
  refine ⟨fun _ => trivial, fun harity => ?_⟩
  obtain ⟨hoperand, hg⟩ := hguard _ rfl (not_lt.mp harity)
  refine (safe_jump_table _ (getElem_mem hlt) s (not_lt.mp harity) hoperand hg).mono ?_ ?_
  · exact fun e t he => ends_handle hoperand he
  · exact fun _ _ _ => trivial

lemma ends_executeFrom (ops : List UInt32) (s : State)
    (hsteps : ∀ inst t, Executes env ops s inst t → StepReady env inst t) :
    Ends (fun _ _ => False) (executeFrom env ops) s fun _ _ => True := by
  induction ops generalizing s with
  | nil => trivial
  | cons inst ops ih =>
    obtain ⟨error, t, ht, -⟩ := ends_false.mp (ends_execute_instruction (hsteps inst s .first))
    unfold executeFrom
    rw [ends_bind, ends_of_eq ht]
    simp only [ends_bind, ends_setError, ends_ite]
    refine ⟨fun _ => trivial, fun _ => ⟨fun _ => trivial, fun hsuccess => ?_⟩⟩
    obtain rfl := not_not.mp hsuccess
    exact ih _ fun inst' t' ht' => hsteps inst' t' (.next ht ht')

end Runs

/-- **Safety of the machine.** A program ends with an error code, if each instruction that the run
comes to meets the condition of its opcode.
Hyps: `hsteps` — the condition, in the state before each instruction. -/
theorem execute_ends (env : Env) (ops : List UInt32) (s : State)
    (hsteps : ∀ inst t, Executes env ops { s with error := .PE_SUCCESS, result := none } inst t →
      StepReady env inst t) :
    ∃ code t, execute env ops s = .ok code t := by
  have hends : Ends (fun _ _ => False) (execute env ops) s fun _ _ => True :=
    ends_executeFrom ops _ hsteps
  obtain ⟨code, t, ht, -⟩ := ends_false.mp hends
  exact ⟨code, t, ht⟩

def sampleEnv : Env := ⟨sampleHost, 0, 1⟩

def sampleState : State where
  heap := ⟨[⟨[], true⟩, ⟨[some (.int64 7)], true⟩], [], [], [], []⟩
  st := []
  error := .PE_SUCCESS
  result := none
  queries := 0

theorem execute_ends_push_pop : ∃ code t, execute sampleEnv [4, 5] sampleState = .ok code t := by
  refine execute_ends sampleEnv [4, 5] sampleState fun inst t ht => ?_
  cases ht with
  | first =>
    refine ⟨by decide, fun e he _ => ?_⟩
    obtain rfl := Option.some.inj he
    exact ⟨rfl, (by decide : (0 : ℕ) ≠ 1)⟩
  | next hpush ht =>
    cases hpush
    cases ht with
    | first =>
      refine ⟨by decide, fun e he _ => ?_⟩
      obtain rfl := Option.some.inj he
      exact ⟨rfl, (rfl : valid (some (.int64 7)) = true)⟩
    | next hpop ht => cases ht

/-- The opcode that equals the number of opcodes is looked up behind the end of the jump table, and the
field that equals the size of the operand tuple is asked for: neither run returns an error code. -/
theorem table_end_faults_and_field_end_throws :
    sampleState.st = [] ∧
    (¬ ∃ code t, execute sampleEnv [160] sampleState = .ok code t) ∧
    execute sampleEnv [160] sampleState = .error (.faults .jumpTable) sampleState ∧
    (¬ ∃ code t, execute sampleEnv [0x10004] sampleState = .ok code t) ∧
    execute sampleEnv [0x10004] sampleState = .error (.throws .library) sampleState := by
  have htable : execute sampleEnv [160] sampleState = .error (.faults .jumpTable) sampleState := rfl
  have hfield : execute sampleEnv [0x10004] sampleState = .error (.throws .library) sampleState := rfl
  refine ⟨rfl, ?_, htable, ?_, hfield⟩
  · rintro ⟨code, t, ht⟩
    cases ht
  · rintro ⟨code, t, ht⟩
    rw [hfield] at ht
    cases ht

end P2.Pel
