import ContractTests.Proofs.Java.Grammar

/-! # What is read as one phrase

Tokens are an operand (`Java.IsOperand`) if they are read as the same tree before everything that
may follow an operand, and a primary (`Java.IsPrimary`) if suffixes may follow them too. There is
one lemma for each way to put phrases together. All of them count the calls that reading takes, so
that the bound of `Java.read` is enough.

The one thing that depends on what stands in parentheses is whether they are a cast. They are not if
a parenthesis opens inside them before one closes, and not if no operand comes after them.
-/

set_option autoImplicit false

namespace ContractTests.Java

/-! ## What follows a phrase -/

/-- Whether the token may follow an operand. -/
def Token.followsOperand : Token → Bool
  | .operator _ => true
  | .question => true
  | .colon => true
  | .comma => true
  | .closing _ => true
  | _ => false

/-- Whether the token may follow a primary. -/
def Token.followsPrimary (t : Token) : Bool :=
  t.followsOperand || t == .dot || t == .opening .square

/-- Whether the token may follow an expression. -/
def Token.followsExpression : Token → Bool
  | .colon => true
  | .comma => true
  | .closing _ => true
  | _ => false

/-- The text ends, or a token of this kind comes next. -/
def StartsWith (p : Token → Bool) (rest : List Token) : Prop := ∀ t ∈ rest.head?, p t = true

variable {ts us vs rest type : List Token} {t u : Token} {n : Nat}
  {tree left right : Tree} {op : BinaryOp}

/-- There is a first token, and it is of this kind. -/
def Opens (p : Token → Bool) (ts : List Token) : Prop := ∃ t ∈ ts.head?, p t = true

theorem startsWith_nil {p : Token → Bool} : StartsWith p [] := nofun

theorem startsWith_cons {p : Token → Bool} (h : p t = true) : StartsWith p (t :: rest) := by
  rintro _ ⟨⟩
  exact h

theorem StartsWith.imp {p q : Token → Bool} (h : StartsWith p rest)
    (hpq : ∀ t, p t = true → q t = true) : StartsWith q rest :=
  fun t ht => hpq t (h t ht)

theorem followsPrimary_of_followsOperand (t : Token) (h : t.followsOperand = true) :
    t.followsPrimary = true := by
  simp [Token.followsPrimary, h]

theorem followsOperand_of_followsExpression (t : Token) (h : t.followsExpression = true) :
    t.followsOperand = true := by
  cases t <;> first | rfl | exact h

@[simp] theorem skip?_cons_self (t : Token) (rest : List Token) : skip? t (t :: rest) = some rest :=
  if_pos rfl

theorem Opens.imp {p q : Token → Bool} (h : Opens p ts) (hpq : ∀ t, p t = true → q t = true) :
    Opens q ts := by
  obtain ⟨t, ht, hp⟩ := h
  exact ⟨t, ht, hpq t hp⟩

theorem Opens.append {p : Token → Bool} (h : Opens p ts) (us : List Token) :
    Opens p (ts ++ us) := by
  obtain ⟨t, ht, hp⟩ := h
  exact ⟨t, by simp [Option.mem_def.1 ht], hp⟩

theorem Opens.startsWith {p : Token → Bool} (h : Opens p ts) : StartsWith p ts := by
  obtain ⟨t, ht, hp⟩ := h
  intro u hu
  obtain rfl : t = u := Option.mem_unique ht hu
  exact hp

theorem skip?_eq_none {p : Token → Bool} (h : StartsWith p rest) (ht : p t = false) :
    skip? t rest = none := by
  cases rest with
  | nil => rfl
  | cons u rest =>
    refine if_neg ?_
    rintro rfl
    simp [h u rfl] at ht

theorem suffixes_eq (h : StartsWith Token.followsOperand rest) :
    suffixes (n + 1) tree rest = some (tree, rest) := by
  match rest with
  | [] => rfl
  | .dot :: _ => exact absurd (h _ rfl) nofun
  | .opening _ :: _ => exact absurd (h _ rfl) nofun
  | .identifier _ :: _ => rfl
  | .keyword _ :: _ => rfl
  | .number _ :: _ => rfl
  | .literal _ :: _ => rfl
  | .operator _ :: _ => rfl
  | .not :: _ => rfl
  | .question :: _ => rfl
  | .colon :: _ => rfl
  | .comma :: _ => rfl
  | .closing _ :: _ => rfl

theorem operationsFrom_eq {level : Nat} (h : ∀ op, rest.head? ≠ some (.operator op)) :
    operationsFrom (n + 1) level tree rest = some (tree, rest) := by
  rw [operationsFrom]
  rintro op rest rfl
  exact h op rfl

/-! ## Parentheses -/

def Token.isParenthesis (t : Token) : Bool := t == .opening .round || t == .closing .round

/-- The first parenthesis, if there is one, is not a closing one. -/
def OpensFirst (ts : List Token) : Prop := ts.find? Token.isParenthesis ≠ some (.closing .round)

theorem OpensFirst.append (hts : OpensFirst ts) (hus : OpensFirst us) : OpensFirst (ts ++ us) := by
  rw [OpensFirst, List.find?_append]
  cases hfound : ts.find? Token.isParenthesis with
  | none => exact hus
  | some t =>
    rw [OpensFirst, hfound] at hts
    exact hts

theorem OpensFirst.cons (hus : OpensFirst us) (ht : t ≠ .closing .round) :
    OpensFirst (t :: us) := by
  rw [OpensFirst, List.find?_cons]
  split
  · exact fun h => ht (Option.some.inj h)
  · exact hus

theorem opensFirst_nil : OpensFirst [] := nofun

/-- After a parenthesis that opens everything may come. -/
theorem opensFirst_parenthesis (ts : List Token) : OpensFirst (.opening .round :: ts) := nofun

theorem OpensFirst.mem_takeWhile (h : OpensFirst ts) (hmem : .closing .round ∈ ts)
    (rest : List Token) : .opening .round ∈ (ts ++ rest).takeWhile (· != .closing .round) := by
  induction ts with
  | nil => cases hmem
  | cons t ts ih =>
    rw [OpensFirst, List.find?_cons] at h
    have ht : t ≠ .closing .round := by
      rintro rfl
      exact h rfl
    rw [List.cons_append, List.takeWhile_cons_of_pos (by simpa using ht)]
    split at h
    · rename_i hparen
      obtain rfl : t = .opening .round := by simpa [Token.isParenthesis, ht] using hparen
      exact List.mem_cons_self
    · exact List.mem_cons_of_mem _ (ih h ((List.mem_cons.1 hmem).resolve_left (Ne.symm ht)))

/-! ## Types -/

theorem next?_eq_none (ht : t.isParenthesis = true ∨ t = .opening .curly) (s : TypeState) :
    s.next? t = none := by
  obtain ⟨place, depth⟩ := s
  obtain rfl | rfl | rfl : t = .opening .round ∨ t = .closing .round ∨ t = .opening .curly := by
    simpa [Token.isParenthesis, or_assoc] using ht
  all_goals cases place <;> cases depth <;> rfl

/-- The tokens of a type may stand in a type. -/
theorem not_mem_of_foldlM {s s' : TypeState} (h : ts.foldlM TypeState.next? s = some s')
    (ht : ∀ s : TypeState, s.next? t = none) : t ∉ ts := by
  induction ts generalizing s with
  | nil => exact List.not_mem_nil
  | cons u ts ih =>
    rw [List.foldlM_cons] at h
    obtain ⟨s₁, hs₁, h⟩ := Option.bind_eq_some_iff.1 h
    rw [List.mem_cons, not_or]
    refine ⟨?_, ih h⟩
    rintro rfl
    cases (ht s).symm.trans hs₁

theorem not_mem_of_endsAt {p : TypePlace → Bool} (h : endsAt p ts = true)
    (ht : ∀ s : TypeState, s.next? t = none) : t ∉ ts := by
  obtain ⟨s, hs, -⟩ := (Option.any_eq_true _ _).1 h
  exact not_mem_of_foldlM hs ht

/-- A type has no parentheses and braces. -/
theorem not_mem_of_isType (h : isType ts = true)
    (ht : t.isParenthesis = true ∨ t = .opening .curly) : t ∉ ts := by
  rw [isType, Bool.or_eq_true] at h
  rcases h with h | h
  · unfold isPrimitive at h
    split at h
    · rintro hmem
      obtain rfl := List.mem_singleton.1 hmem
      exact absurd ht (by simp [Token.isParenthesis])
    · cases h
  · exact not_mem_of_endsAt h (next?_eq_none ht)

/-! ## Casts -/

theorem takeWhile_append_of_not_mem (h : t ∉ ts) (rest : List Token) :
    (ts ++ t :: rest).takeWhile (· != t) = ts ∧
      (ts ++ t :: rest).dropWhile (· != t) = t :: rest := by
  have hall : ∀ u ∈ ts, (u != t) = true := fun u hu =>
    bne_iff_ne.2 fun heq => h (heq ▸ hu)
  rw [List.takeWhile_append_of_pos hall, List.dropWhile_append_of_pos hall]
  simp

/-- A type in parentheses before an operand is a cast. -/
theorem cast?_eq (htype : isPrimitive type = true ∨
      isReferenceType type = true ∧ Opens Token.opensOperand rest) :
    cast? (.opening .round :: (type ++ .closing .round :: rest)) = some (type, rest) := by
  have hmem : .closing .round ∉ type := by
    refine not_mem_of_isType ?_ (.inl rfl)
    rw [isType, Bool.or_eq_true]
    exact htype.imp_right And.left
  obtain ⟨htake, hdrop⟩ := takeWhile_append_of_not_mem hmem rest
  have hcast : (isPrimitive type || (isReferenceType type && rest.head?.any Token.opensOperand)) =
      true := by
    rw [Bool.or_eq_true, Bool.and_eq_true, Option.any_eq_true]
    exact htype.imp_right fun ⟨h, t, ht, hopens⟩ => ⟨h, t, ht, hopens⟩
  simp only [cast?, skip?_cons_self, Option.bind_eq_bind, Option.bind_some, htake, hdrop, hcast,
    if_true]

theorem opensOperand_eq_false (h : t.followsPrimary = true) : t.opensOperand = false := by
  cases t with
  | opening b => cases b <;> first | rfl | exact absurd h (by decide)
  | closing b => rfl
  | identifier name => exact absurd h (by simp [Token.followsPrimary, Token.followsOperand])
  | keyword word => exact absurd h (by simp [Token.followsPrimary, Token.followsOperand])
  | number text => exact absurd h (by simp [Token.followsPrimary, Token.followsOperand])
  | literal text => exact absurd h (by simp [Token.followsPrimary, Token.followsOperand])
  | not => exact absurd h (by decide)
  | _ => rfl

/-- Parentheses around anything but a type and before no operand are no cast. -/
theorem cast?_eq_none (hts : OpensFirst ts) (hprimitive : isPrimitive ts = false)
    (hrest : StartsWith Token.followsPrimary rest) :
    cast? (.opening .round :: (ts ++ .closing .round :: rest)) = none := by
  have hnone : ∀ type after, .opening .round ∈ type →
      (isPrimitive type || (isReferenceType type && after)) = false := by
    intro type after hmem
    rw [Bool.or_eq_false_iff, Bool.and_eq_false_iff, Bool.eq_false_iff, Bool.eq_false_iff]
    refine ⟨fun h => ?_, .inl fun h => not_mem_of_endsAt h (next?_eq_none (.inl rfl)) hmem⟩
    exact not_mem_of_isType (by simp [isType, h]) (.inl rfl) hmem
  simp only [cast?, skip?_cons_self, Option.bind_eq_bind, Option.bind_some]
  by_cases hmem : .closing .round ∈ ts
  -- up to the first closing parenthesis stands an opening one, so that is no type
  · simp [hnone _ _ (hts.mem_takeWhile hmem _)]
  · obtain ⟨htake, hdrop⟩ := takeWhile_append_of_not_mem hmem rest
    have hafter : rest.head?.any Token.opensOperand = false := by
      rw [Bool.eq_false_iff, Ne, Option.any_eq_true]
      rintro ⟨t, ht, hopens⟩
      simp [opensOperand_eq_false (hrest t ht)] at hopens
    simp [htake, hdrop, hprimitive, hafter]

/-! ## Phrases -/

/-- Whether an expression starts with the token. -/
def Token.opensExpression (t : Token) : Bool :=
  t.opensOperand || t == .operator .plus || t == .operator .minus

/-- The tokens are read as `tree`, and suffixes after them belong to it. -/
structure IsPrimary (ts : List Token) (tree : Tree) : Prop where
  opens : Opens Token.opensOperand ts
  parens : OpensFirst ts
  reads : ∀ n rest, StartsWith Token.followsPrimary rest → 4 * ts.length ≤ n →
    ∃ m, n ≤ m + 4 * ts.length ∧ unary n (ts ++ rest) = suffixes m tree rest

/-- The tokens are read as the operand `tree`. -/
structure IsOperand (ts : List Token) (tree : Tree) : Prop where
  opens : Opens Token.opensExpression ts
  parens : OpensFirst ts
  reads : ∀ n rest, StartsWith Token.followsOperand rest → 4 * ts.length + 1 ≤ n →
    unary n (ts ++ rest) = some (tree, rest)

/-- The tokens are read as the expression `tree`. -/
structure IsExpression (ts : List Token) (tree : Tree) : Prop where
  opens : Opens Token.opensExpression ts
  parens : OpensFirst ts
  reads : ∀ n rest, StartsWith Token.followsExpression rest → 4 * ts.length + 3 ≤ n →
    expression n (ts ++ rest) = some (tree, rest)

theorem IsPrimary.operand (h : IsPrimary ts tree) : IsOperand ts tree where
  opens := h.opens.imp fun t hopens => by simp [Token.opensExpression, hopens]
  parens := h.parens
  reads n rest hrest hn := by
    obtain ⟨m, hm, hreads⟩ :=
      h.reads n rest (hrest.imp followsPrimary_of_followsOperand) (Nat.le_of_succ_le hn)
    obtain ⟨k, rfl⟩ : ∃ k, m = k + 1 := ⟨m - 1, by omega⟩
    rw [hreads, suffixes_eq hrest]

/-- An operand before what ends an expression is all that the operators join. -/
theorem IsOperand.operations_eq (h : IsOperand ts tree) (n level : Nat) (rest : List Token)
    (hrest : StartsWith Token.followsOperand rest) (hop : ∀ op, rest.head? ≠ some (.operator op))
    (hn : 4 * ts.length + 2 ≤ n) : operations n level (ts ++ rest) = some (tree, rest) := by
  obtain ⟨k, rfl⟩ : ∃ k, n = k + 2 := ⟨n - 2, by omega⟩
  rw [operations, h.reads _ _ hrest (by omega)]
  exact operationsFrom_eq hop

theorem StartsWith.head?_ne {p : Token → Bool} (h : StartsWith p rest) (ht : p t = false) :
    rest.head? ≠ some t := fun heq => by simp [h t heq] at ht

theorem IsOperand.expression (h : IsOperand ts tree) : IsExpression ts tree where
  opens := h.opens
  parens := h.parens
  reads n rest hrest hn := by
    obtain ⟨k, rfl⟩ : ∃ k, n = k + 1 := ⟨n - 1, by omega⟩
    have hoperations := h.operations_eq k 0 rest
      (hrest.imp followsOperand_of_followsExpression) (fun _ => hrest.head?_ne rfl) (by omega)
    rw [Java.expression, hoperations]
    simp [skip?_eq_none hrest (t := .question) rfl]

/-! ## Operators -/

/-- Two operands with an operator between them. -/
theorem IsOperand.binary (op : BinaryOp) (hleft : IsOperand ts left) (hright : IsOperand us right) :
    IsExpression (ts ++ .operator op :: us) (.binary op left right) where
  opens := hleft.opens.append _
  parens := hleft.parens.append (hright.parens.cons nofun)
  reads n rest hrest hn := by
    rw [List.length_append, List.length_cons] at hn
    obtain ⟨k, rfl⟩ : ∃ k, n = k + 4 := ⟨n - 4, by omega⟩
    -- no operator follows, so the precedences of `op` and of what is around never meet
    have hop : ∀ op, rest.head? ≠ some (.operator op) := fun _ => hrest.head?_ne rfl
    have hl := hleft.reads (k + 2) (.operator op :: (us ++ rest)) (startsWith_cons rfl)
      (by omega)
    have hr := hright.operations_eq (k + 1) (precedence op + 1) rest
      (hrest.imp followsOperand_of_followsExpression) hop (by omega)
    rw [List.append_assoc, List.cons_append, Java.expression, operations, hl]
    simp only [Option.bind_eq_bind, Option.bind_some, operationsFrom, Nat.zero_le, if_true, hr,
      operationsFrom_eq hop]
    simp [skip?_eq_none hrest (t := .question) rfl]

theorem IsOperand.conditional {no : Tree} (hcondition : IsOperand ts tree)
    (hyes : IsOperand us left) (hno : IsOperand vs no) :
    IsExpression (ts ++ .question :: (us ++ .colon :: vs)) (.conditional tree left no) where
  opens := hcondition.opens.append _
  parens := hcondition.parens.append ((hyes.parens.append (hno.parens.cons (by nofun))).cons
    (by nofun))
  reads n rest hrest hn := by
    simp only [List.length_append, List.length_cons] at hn
    obtain ⟨k, rfl⟩ : ∃ k, n = k + 1 := ⟨n - 1, by omega⟩
    have hc := hcondition.operations_eq k 0 (.question :: (us ++ .colon :: (vs ++ rest)))
      (startsWith_cons rfl) nofun (by omega)
    have hy := hyes.expression.reads k (.colon :: (vs ++ rest)) (startsWith_cons rfl) (by omega)
    have hn := hno.expression.reads k rest hrest (by omega)
    simp [Java.expression, hc, hy, hn]

theorem unary_eq_primary (hsign : sign? ts = none) (hcast : cast? ts = none) :
    unary (n + 1) ts = primary n ts := by
  rw [unary, hsign, hcast]

/-- A sign before an operand. -/
theorem IsOperand.signed (op : UnaryOp) (h : IsOperand ts tree) :
    IsOperand (signToken op :: ts) (.unary op tree) where
  opens := ⟨_, rfl, by cases op <;> rfl⟩
  parens := h.parens.cons (by cases op <;> nofun)
  reads n rest hrest hn := by
    rw [List.length_cons] at hn
    obtain ⟨k, rfl⟩ : ∃ k, n = k + 1 := ⟨n - 1, by omega⟩
    have hsign : sign? (signToken op :: (ts ++ rest)) = some (op, ts ++ rest) := by
      cases op <;> rfl
    rw [List.cons_append, unary, hsign]
    simp [h.reads k rest hrest (by omega)]

/-- A cast. Its operand has no sign if the type is not primitive. -/
theorem IsOperand.cast (htype : isPrimitive type = true ∨
      isReferenceType type = true ∧ Opens Token.opensOperand ts) (h : IsOperand ts tree) :
    IsOperand (.opening .round :: (type ++ .closing .round :: ts)) (.cast type tree) where
  opens := ⟨_, rfl, rfl⟩
  parens := opensFirst_parenthesis _
  reads n rest hrest hn := by
    simp only [List.length_append, List.length_cons] at hn
    obtain ⟨k, rfl⟩ : ∃ k, n = k + 1 := ⟨n - 1, by omega⟩
    have hcast : cast? (.opening .round :: (type ++ .closing .round :: (ts ++ rest))) =
        some (type, ts ++ rest) :=
      cast?_eq (htype.imp_right fun h => ⟨h.1, h.2.append rest⟩)
    simp [unary, sign?, hcast, h.reads k rest hrest (by omega)]

/-! ## Primaries -/

theorem isPrimary_singleton (hopens : t.opensOperand = true) (ht : t.isParenthesis = false)
    (hreads : ∀ n rest, StartsWith Token.followsPrimary rest →
      unary (n + 2) (t :: rest) = suffixes n tree rest) : IsPrimary [t] tree where
  opens := ⟨t, rfl, hopens⟩
  parens := by simp [OpensFirst, ht]
  reads n rest hrest hn := by
    rw [List.length_singleton] at hn
    obtain ⟨k, rfl⟩ : ∃ k, n = k + 2 := ⟨n - 2, by omega⟩
    exact ⟨k, by simp, hreads k rest hrest⟩

theorem isPrimary_number (text : String) : IsPrimary [.number text] (.literal text) :=
  isPrimary_singleton rfl rfl fun _ _ _ => rfl

theorem isPrimary_literal (text : String) : IsPrimary [.literal text] (.literal text) :=
  isPrimary_singleton rfl rfl fun _ _ _ => rfl

theorem isPrimary_self : IsPrimary [.keyword "this"] .self :=
  isPrimary_singleton rfl rfl fun _ _ _ => rfl

theorem isPrimary_name (name : String) : IsPrimary [.identifier name] (.name name) := by
  refine isPrimary_singleton rfl rfl fun n rest hrest => ?_
  rw [unary_eq_primary rfl rfl, primary, skip?_eq_none hrest (t := .opening .round) rfl]

theorem isPrimitive_eq_false (h : Opens Token.opensExpression ts) :
    isPrimitive ts = false := by
  obtain ⟨t, ht, hopens⟩ := h
  unfold isPrimitive
  split
  · rename_i word
    cases ht
    rw [Bool.eq_false_iff]
    intro hprimitive
    have hall : ∀ word ∈ primitiveTypes, (Token.keyword word).opensExpression = false := by decide
    simp [hall word (List.contains_iff_mem.1 hprimitive)] at hopens
  · rfl

/-- An expression in parentheses. -/
theorem IsExpression.parenthesized (h : IsExpression ts tree) :
    IsPrimary (.opening .round :: (ts ++ [.closing .round])) tree where
  opens := ⟨_, rfl, rfl⟩
  parens := opensFirst_parenthesis _
  reads n rest hrest hn := by
    simp only [List.length_append, List.length_cons, List.length_nil] at hn ⊢
    obtain ⟨k, rfl⟩ : ∃ k, n = k + 2 := ⟨n - 2, by omega⟩
    have hcast := cast?_eq_none h.parens (isPrimitive_eq_false h.opens) hrest
    have hinside := h.reads k (.closing .round :: rest) (startsWith_cons rfl) (by omega)
    refine ⟨k, by omega, ?_⟩
    rw [List.cons_append, List.append_assoc, List.singleton_append, unary_eq_primary rfl hcast,
      primary, hinside]
    simp

theorem IsPrimary.field (h : IsPrimary ts tree) (name : String) :
    IsPrimary (ts ++ [.dot, .identifier name]) (.field tree name) where
  opens := h.opens.append _
  parens := h.parens.append nofun
  reads n rest hrest hn := by
    simp only [List.length_append, List.length_cons, List.length_nil] at hn ⊢
    obtain ⟨m, hm, hreads⟩ := h.reads n (.dot :: .identifier name :: rest)
      (startsWith_cons rfl) (by omega)
    obtain ⟨k, rfl⟩ : ∃ k, m = k + 1 := ⟨m - 1, by omega⟩
    refine ⟨k, by omega, ?_⟩
    rw [List.append_assoc, List.cons_append, List.singleton_append, hreads, suffixes,
      skip?_eq_none hrest (t := .opening .round) rfl]

theorem IsPrimary.index (h : IsPrimary ts tree) (hposition : IsExpression us right) :
    IsPrimary (ts ++ .opening .square :: (us ++ [.closing .square])) (.index tree right) where
  opens := h.opens.append _
  parens := h.parens.append ((hposition.parens.append (by nofun)).cons (by nofun))
  reads n rest hrest hn := by
    simp only [List.length_append, List.length_cons, List.length_nil] at hn ⊢
    obtain ⟨m, hm, hreads⟩ := h.reads n
      (.opening .square :: (us ++ .closing .square :: rest)) (startsWith_cons rfl) (by omega)
    obtain ⟨k, rfl⟩ : ∃ k, m = k + 1 := ⟨m - 1, by omega⟩
    have hp := hposition.reads k (.closing .square :: rest) (startsWith_cons rfl) (by omega)
    refine ⟨k, by omega, ?_⟩
    simp [hreads, suffixes, hp]

/-! ## Lists -/

/-- The tokens are read as the list of arguments or elements `trees`. -/
structure IsList (ts : List Token) (trees : List Tree) : Prop where
  parens : OpensFirst ts
  reads : ∀ n bracket rest, 4 * ts.length + 5 ≤ n →
    arguments n bracket (ts ++ .closing bracket :: rest) = some (trees, rest)

/-- The same of a list that is not empty. -/
structure IsElements (ts : List Token) (trees : List Tree) : Prop where
  opens : Opens Token.opensExpression ts
  parens : OpensFirst ts
  reads : ∀ n bracket rest, 4 * ts.length + 4 ≤ n →
    elements n bracket (ts ++ .closing bracket :: rest) = some (trees, rest)

theorem isList_nil : IsList [] [] where
  parens := opensFirst_nil
  reads n bracket rest hn := by
    obtain ⟨k, rfl⟩ : ∃ k, n = k + 1 := ⟨n - 1, by omega⟩
    simp [arguments]

theorem IsElements.list {trees : List Tree} (h : IsElements ts trees) : IsList ts trees where
  parens := h.parens
  reads n bracket rest hn := by
    obtain ⟨k, rfl⟩ : ∃ k, n = k + 1 := ⟨n - 1, by omega⟩
    have hskip : skip? (.closing bracket) (ts ++ .closing bracket :: rest) = none :=
      skip?_eq_none (h.opens.append _).startsWith rfl
    rw [arguments, hskip]
    exact h.reads _ _ _ (by omega)

theorem IsExpression.singleton (h : IsExpression ts tree) : IsElements ts [tree] where
  opens := h.opens
  parens := h.parens
  reads n bracket rest hn := by
    obtain ⟨k, rfl⟩ : ∃ k, n = k + 1 := ⟨n - 1, by omega⟩
    have hreads := h.reads k (.closing bracket :: rest) (startsWith_cons rfl) (by omega)
    have hcomma : skip? .comma (.closing bracket :: rest) = none := rfl
    simp [elements, hreads, hcomma]

theorem IsExpression.cons {trees : List Tree} (h : IsExpression ts tree)
    (hothers : IsElements us trees) : IsElements (ts ++ .comma :: us) (tree :: trees) where
  opens := h.opens.append _
  parens := h.parens.append (hothers.parens.cons nofun)
  reads n bracket rest hn := by
    rw [List.length_append, List.length_cons] at hn
    obtain ⟨k, rfl⟩ : ∃ k, n = k + 1 := ⟨n - 1, by omega⟩
    have hfirst := h.reads k (.comma :: (us ++ .closing bracket :: rest))
      (startsWith_cons rfl) (by omega)
    have hrest := hothers.reads k bracket rest (by omega)
    simp [elements, hfirst, hrest]

section Lists

variable {args : List Tree}

theorem IsList.call (h : IsList ts args) (name : String) :
    IsPrimary (.identifier name :: .opening .round :: (ts ++ [.closing .round]))
      (.call name args) where
  opens := ⟨_, rfl, rfl⟩
  parens := (opensFirst_parenthesis _).cons nofun
  reads n rest _ hn := by
    simp only [List.length_append, List.length_cons, List.length_nil] at hn ⊢
    obtain ⟨k, rfl⟩ : ∃ k, n = k + 2 := ⟨n - 2, by omega⟩
    refine ⟨k, by omega, ?_⟩
    rw [List.cons_append, unary_eq_primary rfl rfl, primary]
    simp [h.reads k .round rest (by omega)]

theorem IsPrimary.send (h : IsPrimary ts tree) (name : String) (hargs : IsList us args) :
    IsPrimary (ts ++ .dot :: .identifier name :: .opening .round :: (us ++ [.closing .round]))
      (.send tree name args) where
  opens := h.opens.append _
  parens := h.parens.append (((opensFirst_parenthesis _).cons (by nofun)).cons (by nofun))
  reads n rest _ hn := by
    simp only [List.length_append, List.length_cons, List.length_nil] at hn ⊢
    obtain ⟨m, hm, hreads⟩ := h.reads n
      (.dot :: .identifier name :: .opening .round :: (us ++ .closing .round :: rest))
      (startsWith_cons rfl) (by omega)
    obtain ⟨k, rfl⟩ : ∃ k, m = k + 1 := ⟨m - 1, by omega⟩
    refine ⟨k, by omega, ?_⟩
    simp [hreads, suffixes, hargs.reads k .round rest (by omega)]

end Lists

/-! ## Objects -/

theorem isCreatable_iff : isCreatable type = true ↔ endsAt TypePlace.isClass type = true ∨
    ∃ front, type = front ++ diamond ∧ endsAt (· == .name) front = true := by
  rw [isCreatable, Bool.or_eq_true, Bool.and_eq_true, beq_iff_eq]
  refine or_congr_right ⟨fun ⟨hname, hdiamond⟩ => ⟨_, ?_, hname⟩, ?_⟩
  · rw [← hdiamond, List.take_append_drop]
  · rintro ⟨front, rfl, hname⟩
    have hlength : (front ++ diamond).length - 2 = front.length := by simp [diamond]
    rw [hlength, List.take_left, List.drop_left]
    exact ⟨hname, rfl⟩

theorem not_mem_of_isCreatable (h : isCreatable type = true)
    (ht : ∀ s : TypeState, s.next? t = none) (hdiamond : t ∉ diamond) : t ∉ type := by
  rcases isCreatable_iff.1 h with h | ⟨front, rfl, hname⟩
  · exact not_mem_of_endsAt h ht
  · exact fun hmem => (List.mem_append.1 hmem).elim (not_mem_of_endsAt hname ht) hdiamond

/-- What an object or an array is made of: the type and the bracket of the list after it. -/
def IsCreation (type : List Token) (bracket : Bracket) : Prop :=
  (bracket = .round ∧ isCreatable type = true) ∨ (bracket = .curly ∧ isArrayType type = true)

theorem IsCreation.not_mem {bracket : Bracket} (h : IsCreation type bracket)
    (ht : t.isParenthesis = true ∨ t = .opening .curly) : t ∉ type := by
  rcases h with ⟨-, h⟩ | ⟨-, h⟩
  · refine not_mem_of_isCreatable h (next?_eq_none ht) fun hmem => ?_
    simp only [diamond, List.mem_cons, List.not_mem_nil, or_false] at hmem
    rcases hmem with rfl | rfl <;> simp [Token.isParenthesis] at ht
  · exact not_mem_of_endsAt h (next?_eq_none ht)

theorem IsCreation.created?_eq {bracket : Bracket} (h : IsCreation type bracket) :
    created? (type ++ .opening bracket :: rest) = some (type, bracket, rest) := by
  have hround := h.not_mem (t := .opening .round) (.inl rfl)
  have hcurly := h.not_mem (t := .opening .curly) (.inr rfl)
  have hall : ∀ t ∈ type, (t != .opening .round && t != .opening .curly) = true := by
    intro t ht
    rw [Bool.and_eq_true, bne_iff_ne, bne_iff_ne]
    exact ⟨fun heq => hround (heq ▸ ht), fun heq => hcurly (heq ▸ ht)⟩
  have htake : (type ++ .opening bracket :: rest).takeWhile
      (fun t => t != .opening .round && t != .opening .curly) = type := by
    rw [List.takeWhile_append_of_pos hall, List.takeWhile_cons_of_neg, List.append_nil]
    rcases h with ⟨rfl, -⟩ | ⟨rfl, -⟩ <;> decide
  rw [created?, htake]
  rcases h with ⟨rfl, h⟩ | ⟨rfl, h⟩ <;> simp [h]

theorem IsList.create {bracket : Bracket} {args : List Tree} (h : IsList ts args)
    (htype : IsCreation type bracket) :
    IsPrimary (.keyword "new" :: (type ++ .opening bracket :: (ts ++ [.closing bracket])))
      (.create type args) where
  opens := ⟨_, rfl, rfl⟩
  parens := by
    have hnone : type.find? Token.isParenthesis = none :=
      List.find?_eq_none.2 fun t ht hparen => htype.not_mem (.inl hparen) ht
    have hlist : OpensFirst (.opening bracket :: (ts ++ [.closing bracket])) := by
      rcases htype with ⟨rfl, -⟩ | ⟨rfl, -⟩
      · exact opensFirst_parenthesis _
      · exact (h.parens.append (by nofun)).cons (by nofun)
    have hopens : OpensFirst type := by
      rw [OpensFirst, hnone]
      nofun
    exact (hopens.append hlist).cons (by nofun)
  reads n rest _ hn := by
    simp only [List.length_append, List.length_cons, List.length_nil] at hn ⊢
    obtain ⟨k, rfl⟩ : ∃ k, n = k + 2 := ⟨n - 2, by omega⟩
    refine ⟨k, by omega, ?_⟩
    rw [List.cons_append, unary_eq_primary rfl rfl, primary]
    simp [htype.created?_eq, h.reads k bracket rest (by omega)]

end ContractTests.Java
