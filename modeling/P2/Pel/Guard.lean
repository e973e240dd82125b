import P2.Pel.Opcode

/-!
# Conditions under which an opcode ends well

The bodies of the opcodes check little of what they pop. `Guard` says for each opcode what its operands
have to be for its body to end with a result or with an exception that the machine catches.
-/

namespace P2.Pel

open P2.Value P2.Lib.Exec List Option

/-! ## Operands -/

def on1 (P : Ptr → Prop) : List Ptr → Prop
  | p :: _ => P p
  | _ => True

def on2 (P : Ptr → Ptr → Prop) : List Ptr → Prop
  | p :: q :: _ => P p q
  | _ => True

def on3 (P : Ptr → Ptr → Ptr → Prop) : List Ptr → Prop
  | p :: q :: r :: _ => P p q r
  | _ => True

def on4 (P : Ptr → Ptr → Ptr → Ptr → Prop) : List Ptr → Prop
  | p :: q :: r :: u :: _ => P p q r u
  | _ => True

def on6 (P : Ptr → Ptr → Ptr → Ptr → Ptr → Ptr → Prop) : List Ptr → Prop
  | p :: q :: r :: u :: v :: w :: _ => P p q r u v w
  | _ => True

/-- A value that is a tuple, or of a type that a cast to a tuple refuses with an exception. The null
value is cast to a null pointer. -/
def unboxable (p : Ptr) : Bool := valid p && p != some .null

/-- A condition on the fields of the tuple that a value holds, if it holds one. -/
def OnFields (h : Heap) (p : Ptr) (P : TupleBody → Prop) : Prop :=
  ∀ a, p = some (.tuple (some a)) → P (h.tuple a)

/-- What a helper is given for an operand: the operand, a list with its elements, or what it was cast
to. -/
def Passed (h : Heap) (p q : Ptr) : Prop :=
  q = p ∨ (∃ a, q = some (.list a) ∧ h.list a = h.elementsOf p) ∨
    (∃ i, q = some (.int64 i) ∧ castInt64 p = .ok i) ∨ ∃ t, q = some (.tuple t) ∧ castTuple p = .ok t

/-- A helper returns, or throws an exception that is caught, whatever it is given for the operands. -/
def HelperFine (host : Host) (h : Heap) (f : Helper) (operands : List Ptr) : Prop :=
  ∀ h' args, h'.parts = h.parts → List.Forall₂ (Passed h) operands args → Fine (host.helper f args h')

/-- A replacement that does not make the text longer than the memory allows: it is not longer than the
pattern, or it has the first character of the pattern at most in front, so that no place of the text is
replaced twice. -/
def ReplaceBounded (maxSize : ℕ) (pattern replace value : List UInt8) : Prop :=
  (replace.length ≤ pattern.length ∧ value.length ≤ maxSize) ∨
    ∃ c ps, pattern = c :: ps ∧ c ∉ replace.tail ∧
      value.length + value.count c * replace.length ≤ maxSize

def Convertible (host : Host) (h : Heap) : Ptr → Prop
  | none => False
  | some (.tuple t) => Fine (host.exprString h t)
  | some o => sound host h (some o)

/-- A value that `L_FACT` can take: not a tuple, or one with a third field. -/
def Factual (h : Heap) (p : Ptr) : Prop :=
  p ≠ none ∧ ∀ t, p = some (.tuple t) →
    ∃ a, t = some a ∧ ∃ q, (h.tuple a).fields[2]? = some q ∧ q ≠ none

def Named (host : Host) (h : Heap) (p : Ptr) : Prop :=
  unboxable p ∧ OnFields h p fun b => ∃ q, b.fields[0]? = some q ∧ sound host h q

/-- **What the operands of an opcode have to be**, the top of the stack first. Where the stack has
fewer values than the arity, the opcode is not run. -/
def Guard (env : Env) (inst : UInt32) (h : Heap) : Op → List Ptr → Prop
  | .DROP | .SWAP | .DUP | .FUNC0 | .T_IDGEN | .T_SWALLOW | .RAND | .L_INIT | .TIME_NOW | .O_STATUS
  | .O_RANGEAM | .EMPTY | .INITSET | .INITMASK | .DRAND48 => fun _ => True
  | .PUSH_CONST => fun _ => (inst >>> 16).toNat ≠ (h.tuple env.constPool).fields.length
  | .PUSH_FIELD => fun _ => (inst >>> 16).toNat ≠ (h.tuple env.operand).fields.length
  | .POP => on1 fun p => valid p
  | .POP_ALL => fun st => ∀ p ∈ st, valid p
  | .DUMPSTACK => fun st => ∀ p ∈ st, sound env.host h p
  | .PEEK | .IFPOP_TUPLE | .IFSTOP | .T_MKTUPLE | .TYPEOF | .L_CREATEKEY | .NOT | .COIN | .L_CAR
  | .L_CDR | .L_REMOVELAST | .L_LAST | .L_SIZE | .SETMOD | .INT_ABS | .DBL_FLOOR | .DBL_CEIL | .EXP
  | .LN | .CONV_I64 | .CONV_DBL | .CONV_ID => on1 fun p => p ≠ none
  | .IFELSE => on3 fun _ _ p => p ≠ none
  | .IFPOP | .L_CONCAT | .AND | .OR | .L_CONS | .L_REMOVEPOS | .T_MK_AGG =>
    on2 fun p q => p ≠ none ∧ q ≠ none
  | .T_MK_BOOL | .T_MK_MATH => on3 fun p q r => p ≠ none ∧ q ≠ none ∧ r ≠ none
  | .L_APPEND => on2 fun _ q => q ≠ none
  | .COMBINEMASK => on2 fun p _ => p ≠ none
  -- values that are written, compared or read as times
  | .H_SHA1 | .STR_LEN | .STR_UPPER | .STR_LOWER | .CONV_STR | .L_GROUP =>
    on1 fun p => sound env.host h p
  | .APPEND | .STR_CAT | .STR_FIND | .L_MULTISET_INTERSECT =>
    on2 fun p q => sound env.host h p ∧ sound env.host h q
  | .TOTALCOMP | .L_MEMBER | .L_INTERSECT | .V_COMPAREVEC | .L_CONTAINS | .L_REMOVEVAR
  | .TIME_DURATION_LT | .TIME_DURATION_LTE | .TIME_DURATION_GT | .TIME_DURATION_GTE
  | .TIME_DURATION_EQ | .TIME_DURATION_PLUS | .TIME_DURATION_MINUS =>
    on2 fun p q => whole env.host h p ∧ whole env.host h q
  | .M_COMPAREMAT => on3 fun p q _ => whole env.host h p ∧ whole env.host h q
  | .TIME_LT | .TIME_LTE | .TIME_GT | .TIME_GTE | .TIME_EQ | .TIME_MINUS =>
    on2 fun p q => readable env.host p ∧ readable env.host q
  | .CONV_TIME => on1 fun p => readable env.host p
  | .CONV_TIME_DURATION => on1 fun p => whole env.host h p
  -- operators
  | .MAX | .MIN => on2 fun p q => OperReady env.host h p q
  | .ASR | .ASL | .BIT_AND | .BIT_OR | .BIT_XOR | .PLUS | .MINUS | .MUL | .EQ | .LT | .LTE | .GT
  | .GTE => on2 fun p q => OperReady env.host h q p
  | .BIT_NOT | .NEG | .MINUSMINUS | .PLUSPLUS => on1 fun p => OperReady env.host h p p
  | .INOO | .INOC | .INCO | .INCC => on3 fun p q r => IntervalReady env.host h r q p
  | .DIV => on2 fun p q =>
    OperReady env.host h p (some (.int64 0)) ∧ OperReady env.host h q p ∧ NoOverflow q p
  | .MOD => on2 fun p q =>
    OperReady env.host h p (some (.int64 0)) ∧ OperReady env.host h q p ∧ NoOverflow q p ∧
      (rowOf q = some .int64 → castInt64 p ≠ .ok 0)
  -- tuples
  | .T_APPEND => on2 fun p q => p ≠ none ∧ unboxable q ∧ OnFields h q fun b => b.frozen = false
  | .T_UNBOX => on1 fun p => unboxable p
  | .T_UNBOXPOP => on1 fun p => unboxable p ∧ OnFields h p fun b => ∀ q ∈ b.fields, q ≠ none
  | .T_FIELD => on2 fun p q => p ≠ none ∧ unboxable q ∧ OnFields h q fun b =>
    ∀ i, castInt64 p = .ok i → i.toUInt64.toUInt32.toNat < b.fields.length
  | .T_MK_TYPE => on2 fun p q => sound env.host h p ∧ q ≠ none
  -- vectors and matrices
  | .V_INITVEC => on1 fun p => p ≠ none ∧
      ∀ i, castInt64 p = .ok i → i.toUInt64.toNat ≤ env.host.maxSize
  | .V_GETOFFSET => on2 fun p q => p ≠ none ∧ q ≠ none ∧ ∀ i a, castInt64 p = .ok i →
      q = some (.vector a) → i.toUInt64.toNat < (h.vector a).length
  | .V_SETOFFSET => on3 fun _ p q => p ≠ none ∧ q ≠ none ∧ ∀ i a, castInt64 p = .ok i →
      q = some (.vector a) → i.toUInt64.toNat < (h.vector a).length
  | .M_INITMAT => on2 fun p q => p ≠ none ∧ q ≠ none ∧ ∀ i j, castInt64 p = .ok i →
      castInt64 q = .ok j → j.toUInt64.toNat * i.toUInt64.toNat ≤ env.host.maxSize
  | .M_GETOFFSET => on3 fun p q r => p ≠ none ∧ q ≠ none ∧ r ≠ none ∧ ∀ i j a,
      castInt64 p = .ok i → castInt64 q = .ok j → r = some (.matrix a) →
        i.toUInt64.toNat < (h.matrix a).size1 ∧ j.toUInt64.toNat < (h.matrix a).size2
  | .M_SETOFFSET => on4 fun _ p q r => p ≠ none ∧ q ≠ none ∧ r ≠ none ∧ ∀ i j a,
      castInt64 p = .ok i → castInt64 q = .ok j → r = some (.matrix a) →
        i.toUInt64.toNat < (h.matrix a).size1 ∧ j.toUInt64.toNat < (h.matrix a).size2
  -- lists
  | .L_FACT => on2 fun p q =>
    sound env.host h p ∧ q ≠ none ∧ ∀ r ∈ h.elementsOf q, Factual h r
  | .L_GET_ATTR => on2 fun p q => p ≠ none ∧ q ≠ none ∧ ∀ type, p = some (.str type) →
      if type = ascii "Location" then HelperFine env.host h .location [q]
      else ∀ r ∈ h.elementsOf q, Named env.host h r
  | .L_INDEXMATCH => on3 fun p q r => p ≠ none ∧ q ≠ none ∧ r ≠ none ∧
      (∀ u ∈ h.elementsOf r, u ≠ none) ∧ ∀ h' a b, h'.parts = h.parts →
        h.list a = h.elementsOf p → h.list b = h.elementsOf q → Fine (env.host.joinKeys h' a b)
  -- strings
  | .STR_SUBSTR => on3 fun p q r => p ≠ none ∧ q ≠ none ∧ sound env.host h r
  | .STR_MATCH => on2 fun p q => sound env.host h p ∧ sound env.host h q ∧ ∀ re text,
      castStr env.host h p = .ok re → castStr env.host h q = .ok text →
        (env.host.regexMatch re text).isSome
  | .STR_REPLACE => on3 fun p q r =>
    sound env.host h p ∧ sound env.host h q ∧ sound env.host h r ∧ ∀ pattern replace value,
      castStr env.host h p = .ok pattern → castStr env.host h q = .ok replace →
        castStr env.host h r = .ok value → ReplaceBounded env.host.maxSize pattern replace value
  | .STR_CONV => on1 fun p => match p with
      | some (.list a) => ∀ q ∈ h.list a, Convertible env.host h q
      | p => Convertible env.host h p
  -- helpers
  | .A_TO_VAR => on1 fun p => HelperFine env.host h .toVar [p]
  | .A_UNIQUE_SCHEMA => on1 fun p => HelperFine env.host h .uniqueSchema [p]
  | .ISTHETA => on1 fun p => HelperFine env.host h .isTheta [p]
  | .L_VARIABLES => on1 fun p => HelperFine env.host h .variables [p]
  | .GETMASK => on1 fun p => HelperFine env.host h .getMask [p]
  | .IS_LOCSPEC => on1 fun p => HelperFine env.host h .isLocSpec [p]
  | .GET_CERT => on1 fun p => HelperFine env.host h .getCert [p]
  | .LOADKEYFILE => on1 fun p => HelperFine env.host h .loadFile [p]
  | .IS_SAYS => on1 fun p => HelperFine env.host h .isSaysHint [p]
  | .SERIALIZE => on2 fun p q => HelperFine env.host h .processGen [p, q]
  | .DESERIALIZE => on2 fun p q => HelperFine env.host h .processExtract [p, q]
  | .CREATEVER => fun _ => HelperFine env.host h .generateVersion []
  | .CREATELOCSPEC => fun _ => HelperFine env.host h .generateLocSpec []
  | .L_FLATTEN => on1 fun p => p ≠ none ∧ HelperFine env.host h .flatten [p]
  | .L_GROUPBY_ATTR => on1 fun p => p ≠ none ∧ HelperFine env.host h .groupby [p]
  | .L_AGG_ATTR => on1 fun p => p ≠ none ∧ HelperFine env.host h .aggregation [p]
  | .L_PROJECT => on2 fun p q => p ≠ none ∧ q ≠ none ∧ HelperFine env.host h .project [p, q]
  | .L_MERGE => on2 fun p q => p ≠ none ∧ q ≠ none ∧ HelperFine env.host h .merge [p, q]
  | .L_EQUIVALENT => on2 fun p q => p ≠ none ∧ q ≠ none ∧ HelperFine env.host h .equivalent [p, q]
  | .L_SUBSET => on2 fun p q => p ≠ none ∧ q ≠ none ∧ HelperFine env.host h .subset [p, q]
  | .O_SELECT => on2 fun p q => p ≠ none ∧ q ≠ none ∧ HelperFine env.host h .joinSelectivity [q, p]
  | .L_ASSIGNSCHEMA => on2 fun p q => p ≠ none ∧ HelperFine env.host h .assignSchema [p, q]
  | .O_FILTER => on2 fun p q => p ≠ none ∧ HelperFine env.host h .filter [p, q]
  | .L_POS_ATTR => on2 fun p q => q ≠ none ∧ HelperFine env.host h .position [q, p]
  | .MASK => on3 fun p q r =>
    p ≠ none ∧ q ≠ none ∧ r ≠ none ∧ HelperFine env.host h .applyMask [p, q, r]
  | .L_CASTASSIGN => on3 fun p q r =>
    p ≠ none ∧ q ≠ none ∧ r ≠ none ∧ HelperFine env.host h .castassign [p, q, r]
  | .L_SORTATTR => on4 fun p q r u =>
    p ≠ none ∧ r ≠ none ∧ HelperFine env.host h .sortAttr [p, q, r, u]
  | .L_ADORNMENT => on2 fun p q => OperReady env.host h p (some .null) ∧ q ≠ none ∧
      HelperFine env.host h .adornment [p, q] ∧ HelperFine env.host h .adornment [some .null, q]
  | .L_PREFIX => on2 fun p q => OperReady env.host h p (some .null) ∧
      OperReady env.host h q (some .null) ∧ HelperFine env.host h .prefixOf [p, q]
  | .GEN => on3 fun p q r => q ≠ none ∧ HelperFine env.host h .generate [p, q, r]
  | .VERIFY => on6 fun p q r u v w => q ≠ none ∧ r ≠ none ∧ u ≠ none ∧ v ≠ none ∧ w ≠ none ∧
      HelperFine env.host h .verify [p, q, r, u, v, w]

/-! ## Loops of the bodies -/

section Loops

variable {host : Host} {h : Heap} {p : Ptr} {ps qs : List Ptr} {lt : Ptr → Ptr → Except Trouble Bool}
  {cmp : Ptr → Except Trouble Ordering}

lemma fine_textPtr (hp : sound host h p) : Fine (toString host h host.room p) :=
  fine_of_exists (toString_of_nested hp)

lemma sound_elementsOf (hp : sound host h p) : ∀ q ∈ h.elementsOf p, sound host h q :=
  nested_elementsOf hp

lemma fine_removeVar (hcmp : ∀ q ∈ ps, Fine (cmp q)) : Fine (removeVar cmp ps) := by
  induction ps with
  | nil => exact fine_ok _
  | cons p ps ih =>
    refine (hcmp p mem_cons_self).bind fun o _ => ?_
    exact (ih fun q hq => hcmp q (mem_cons_of_mem p hq)).bind fun rest _ => fine_ok _

lemma fine_listMember (hcmp : ∀ q ∈ ps, Fine (cmp q)) : Fine (listMember cmp ps) := by
  induction ps with
  | nil => exact fine_ok _
  | cons p ps ih =>
    refine (hcmp p mem_cons_self).bind fun o _ => ?_
    split_ifs
    · exact fine_ok _
    · exact ih fun q hq => hcmp q (mem_cons_of_mem p hq)

lemma fine_indexLoop {indexKey : List ℕ} (hps : ∀ q ∈ ps, q ≠ none) :
    Fine (indexLoop indexKey ps) := by
  induction ps with
  | nil => exact fine_ok _
  | cons p ps ih =>
    refine (fine_castInt64 (hps p mem_cons_self)).bind fun pos _ => ?_
    split_ifs
    · exact ih fun q hq => hps q (mem_cons_of_mem p hq)
    · exact fine_ok _

lemma fine_insertByOrder (hlt : ∀ q ∈ qs, Fine (lt p q)) :
    Fine (insertByOrder lt p qs) ∧
      ∀ l, insertByOrder lt p qs = .ok l → ∀ q ∈ l, q = p ∨ q ∈ qs := by
  induction qs with
  | nil =>
    refine ⟨fine_ok _, fun l hl q hq => Or.inl ?_⟩
    rw [← Except.ok.inj hl] at hq
    exact mem_singleton.mp hq
  | cons r qs ih =>
    obtain ⟨hfine, hmem⟩ := ih fun q hq => hlt q (mem_cons_of_mem r hq)
    refine ⟨(hlt r mem_cons_self).bind fun b _ => ?_, fun l hl q hq => ?_⟩
    · split_ifs
      · exact fine_ok _
      · exact hfine.bind fun _ _ => fine_ok _
    · obtain ⟨b, -, hl⟩ := exists_of_bind_ok hl
      split_ifs at hl
      · rw [← Except.ok.inj hl] at hq
        exact mem_cons.mp hq
      · obtain ⟨rest, hrest, hl⟩ := exists_of_bind_ok hl
        rw [← Except.ok.inj hl] at hq
        rcases mem_cons.mp hq with rfl | hq
        · exact Or.inr mem_cons_self
        · exact (hmem rest hrest q hq).imp_right (mem_cons_of_mem r)

lemma fine_sortByOrder {P : Ptr → Prop} (hlt : ∀ p q, P p → P q → Fine (lt p q))
    (hqs : ∀ q ∈ qs, P q) (hps : ∀ p ∈ ps, P p) :
    Fine (sortByOrder lt qs ps) ∧ ∀ l, sortByOrder lt qs ps = .ok l → ∀ q ∈ l, P q := by
  induction ps generalizing qs with
  | nil =>
    refine ⟨fine_ok _, fun l hl => ?_⟩
    rw [← Except.ok.inj hl]
    exact hqs
  | cons p ps ih =>
    have hp := hps p mem_cons_self
    obtain ⟨hfine, hmem⟩ := fine_insertByOrder fun q hq => hlt p q hp (hqs q hq)
    unfold sortByOrder
    cases hins : insertByOrder lt p qs with
    | error e =>
      refine ⟨fine_error (hfine e hins), fun l hl => ?_⟩
      cases hl
    | ok qs' =>
      refine ih (fun q hq => ?_) fun q hq => hps q (mem_cons_of_mem p hq)
      rcases hmem qs' hins q hq with rfl | hq
      · exact hp
      · exact hqs q hq

lemma fine_intersectLoop {cmp : Ptr → Ptr → Except Trouble Ordering}
    (hcmp : ∀ p ∈ ps, ∀ q ∈ qs, Fine (cmp p q)) : Fine (intersectLoop cmp ps qs) := by
  fun_induction intersectLoop cmp ps qs with
  | case1 | case2 => exact fine_ok _
  | case3 p ps q qs iheq ihlt ihgt =>
    refine (hcmp p mem_cons_self q mem_cons_self).bind fun o _ => ?_
    cases o with
    | eq =>
      refine (iheq fun p' hp' q' hq' => ?_).bind fun _ _ => fine_ok _
      exact hcmp p' (mem_cons_of_mem p hp') q' (mem_cons_of_mem q hq')
    | lt => exact ihlt fun p' hp' => hcmp p' (mem_cons_of_mem p hp')
    | gt => exact ihgt fun p' hp' q' hq' => hcmp p' hp' q' (mem_cons_of_mem q hq')

variable {env : Env}

lemma fine_listIntersect (hps : ∀ p ∈ ps, whole env.host h p) (hqs : ∀ q ∈ qs, whole env.host h q) :
    Fine (listIntersect env ps qs h) := by
  have hsort : ∀ l : List Ptr, (∀ p ∈ l, whole env.host h p) →
      Fine (sortByOrder (ltSet env.host h) [] l) ∧
        ∀ l', sortByOrder (ltSet env.host h) [] l = .ok l' → ∀ q ∈ l', whole env.host h q :=
    fun l hl => fine_sortByOrder (fun _ _ => fine_ltSet) (forall_mem_nil _) hl
  refine (hsort ps hps).1.bind fun sorted1 h1 => (hsort qs hqs).1.bind fun sorted2 h2 => ?_
  exact fine_intersectLoop fun p hp q hq =>
    fine_compareTo (Or.inl ((hsort ps hps).2 sorted1 h1 p hp)) ((hsort qs hqs).2 sorted2 h2 q hq)

lemma fine_unbox (hp : unboxable p) : Fine (castTuple p >>= deref) := by
  obtain ⟨hvalid, hnull⟩ := Bool.and_eq_true_iff.mp hp
  obtain ⟨o, rfl⟩ := exists_of_valid hvalid
  cases o with
  | null => cases hnull
  | tuple t =>
    cases t with
    | none => cases hvalid
    | some a => exact fine_ok a
  | _ => exact fine_typeError

lemma eq_tuple_of_unbox {a : Addr} (hp : (castTuple p >>= deref) = .ok a) :
    p = some (.tuple (some a)) := by
  cases p with
  | none => cases hp
  | some o =>
    cases o with
    | tuple t =>
      cases t with
      | none => cases hp
      | some b => rw [Except.ok.inj (show Except.ok b = Except.ok a from hp)]
    | _ => cases hp

lemma fine_tupleAt {a : Addr} {i : ℕ} (hi : i < (h.tuple a).fields.length) :
    Fine (tupleAt host a i h) := by
  unfold tupleAt
  rw [List.getElem?_eq_getElem hi]
  exact fine_ok _

lemma fine_factValue (hp : Factual h p) :
    Fine (factValue env p h) ∧ ∀ q, factValue env p h = .ok q → q ≠ none := by
  obtain ⟨hne, htuple⟩ := hp
  cases p with
  | none => exact absurd rfl hne
  | some o =>
    cases o with
    | tuple t =>
      obtain ⟨a, rfl, q, hq, hqne⟩ := htuple t rfl
      have hvalue : factValue env (some (.tuple (some a))) h = .ok q := by
        show tupleAt env.host a 2 h = _
        unfold tupleAt
        rw [hq]
      rw [hvalue]
      exact ⟨fine_ok q, fun r hr => Except.ok.inj hr ▸ hqne⟩
    | _ => exact ⟨fine_ok _, fun r hr => Except.ok.inj hr ▸ some_ne_none _⟩

lemma fine_findAttr {type : List UInt8} (hps : ∀ q ∈ ps, Named env.host h q) :
    Fine (findAttr env type h ps) := by
  induction ps with
  | nil => exact fine_ok _
  | cons p ps ih =>
    obtain ⟨hp, hfields⟩ := hps p mem_cons_self
    refine (fine_unbox hp).bind fun a ha => ?_
    obtain ⟨q, hq, hsound⟩ := hfields a (eq_tuple_of_unbox ha)
    have hat : tupleAt env.host a 0 h = .ok q := by
      unfold tupleAt
      rw [hq]
    rw [hat]
    refine (fine_textPtr hsound).bind fun name _ => ?_
    split_ifs
    · exact fine_ok _
    · exact ih fun q hq => hps q (mem_cons_of_mem p hq)

lemma fine_convText (hp : Convertible env.host h p) : Fine (convText env p h) := by
  cases p with
  | none => exact absurd hp id
  | some o =>
    cases o with
    | tuple t => exact hp
    | _ => exact fine_textPtr hp

end Loops

/-! ## Replacement of patterns -/

section Replace

variable {pattern replace rest : List UInt8} {k : ℕ}

lemma findIn_spec (hk : findIn pattern rest = some k) :
    k + pattern.length ≤ rest.length ∧ pattern <+: rest.drop k := by
  fun_induction findIn pattern rest generalizing k with
  | case1 hnil => simp [hnil, ← some.inj hk]
  | case2 => cases hk
  | case3 c cs hprefix =>
    rw [ isPrefixOf_iff_prefix] at hprefix
    rw [← some.inj hk, Nat.zero_add]
    exact ⟨ hprefix.length_le, hprefix⟩
  | case4 c cs _ ih =>
    obtain ⟨j, hj, rfl⟩ := map_eq_some_iff.mp hk
    have hle := (ih hj).1
    refine ⟨?_, (ih hj).2⟩
    rw [length_cons]
    omega

lemma count_of_findIn {c : UInt8} {ps : List UInt8} (hk : findIn (c :: ps) rest = some k) :
    (rest.drop (k + (c :: ps).length)).count c + 1 ≤ rest.count c := by
  obtain ⟨l, hl⟩ := (findIn_spec hk).2
  have hdrop : rest.drop (k + (c :: ps).length) = l := by
    rw [← drop_drop, ← hl, drop_left]
  have hcount := congrArg (List.count c) (take_append_drop k rest)
  rw [← hl, count_append, count_append, count_cons_self] at hcount
  rw [hdrop]
  omega

/-- The loop ends where each round leaves fewer to go and needs no more room than there was. -/
lemma fine_replaceLoop_of {maxSize : ℕ} (rounds room : List UInt8 → ℕ)
    (hround : ∀ rest k, findIn pattern rest = some k →
      k + (replace ++ rest.drop (k + pattern.length)).length ≤ room rest ∧
        ∀ c cs, replace ++ rest.drop (k + pattern.length) = c :: cs →
          rounds cs < rounds rest ∧ k + 1 + room cs ≤ room rest) (n : ℕ) (done rest : List UInt8)
    (hn : rounds rest < n) (hsize : done.length + room rest ≤ maxSize) :
    Fine (replaceLoop maxSize pattern replace n done rest) := by
  induction n generalizing done rest with
  | zero => exact absurd hn (Nat.not_lt_zero _)
  | succ n ih =>
    unfold replaceLoop
    cases hk : findIn pattern rest with
    | none => exact fine_ok _
    | some k =>
      obtain ⟨hafter, hnext⟩ := hround rest k hk
      have hlen := (findIn_spec hk).1
      have htake : (done ++ rest.take k).length = done.length + k := by
        rw [length_append, length_take]
        omega
      simp only
      rw [if_neg (by omega)]
      cases ha : replace ++ rest.drop (k + pattern.length) with
      | nil => exact fine_ok _
      | cons c cs =>
        obtain ⟨hrounds, hroom⟩ := hnext c cs ha
        refine ih _ _ (by omega) ?_
        rw [length_append, htake, length_singleton]
        omega

/-- **Replacing ends** where the text stays within the memory. -/
theorem fine_replaceLoop {maxSize : ℕ} {value : List UInt8}
    (h : ReplaceBounded maxSize pattern replace value) :
    Fine (replaceLoop maxSize pattern replace (maxSize + value.length + 1) [] value) := by
  rcases h with ⟨hle, hsize⟩ | ⟨c, ps, rfl, hc, hsize⟩
  · refine fine_replaceLoop_of length length (fun rest k hk => ?_) _ [] value (by omega)
      (by rwa [length_nil, Nat.zero_add])
    have hlen := (findIn_spec hk).1
    have hafter : k + (replace ++ rest.drop (k + pattern.length)).length ≤ rest.length := by
      rw [length_append, length_drop]
      omega
    refine ⟨hafter, fun d ds ha => ?_⟩
    rw [ha, length_cons] at hafter
    omega
  · -- the first character of the pattern is met once less in each round
    refine fine_replaceLoop_of (count c)
      (fun rest => rest.length + rest.count c * replace.length) (fun rest k hk => ?_) _ [] value ?_
      (by rwa [length_nil, Nat.zero_add])
    · have hlen := (findIn_spec hk).1
      have hcount := count_of_findIn hk
      have hmul := Nat.mul_le_mul_right replace.length hcount
      rw [Nat.add_mul] at hmul
      have hafter : k + (replace ++ rest.drop (k + (c :: ps).length)).length ≤
          rest.length + replace.length := by
        rw [length_append, length_drop]
        omega
      refine ⟨by omega, fun d ds ha => ?_⟩
      -- behind its first character the replacement brings in no new one
      have hds : ds.count c ≤ (rest.drop (k + (c :: ps).length)).count c := by
        cases replace with
        | nil =>
          rw [nil_append] at ha
          rw [ha]
          exact count_le_count_cons
        | cons r rs =>
          rw [tail_cons] at hc
          rw [cons_append] at ha
          rw [← (List.cons.inj ha).2, count_append, count_eq_zero_of_not_mem hc, Nat.zero_add]
      have hmul' := Nat.mul_le_mul_right replace.length hds
      rw [ha, length_cons] at hafter
      omega
    · have := count_le_length (a := c) (l := value)
      omega

end Replace

end P2.Pel
