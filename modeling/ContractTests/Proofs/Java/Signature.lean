import ContractTests.Proofs.Java.ParameterDeclaration

/-! # Signatures of declared methods

The scanners that read the signature of a method agree on every declaration: the list of parameters
is found in the source, split into the declarations, and each gives its type as a signature spells
it (`signatureOf_declaration`). Modifiers are taken off one by one (`stripModifiers_text`), the name
is what follows the last white space outside angle brackets (`splitLast?_append`), and white space
is dropped before square brackets only (`closeBrackets_text`).
-/

set_option autoImplicit false

namespace ContractTests.Java

open Text Nesting

variable {c : Char} {text u v after : List Char}

/-! ## Modifiers -/

theorem stripModifiers_of_more (h : stripModifier u = .more v) :
    stripModifiers u = stripModifiers v := by
  rw [stripModifiers]
  split
  · rename_i rest heq
    rw [h] at heq
    cases heq
    rfl
  · rename_i rest heq
    rw [h] at heq
    cases heq

theorem stripModifiers_of_done (h : stripModifier u = .done v) : stripModifiers u = v := by
  rw [stripModifiers]
  split
  · rename_i rest heq
    rw [h] at heq
    cases heq
  · rename_i rest heq
    rw [h] at heq
    cases heq
    rfl

/-- White space in front of the modifiers does not matter. -/
theorem stripModifiers_congr (h : trimStart u = trimStart v) :
    stripModifiers u = stripModifiers v := by
  have heq : stripModifier u = stripModifier v := by simp only [stripModifier, h]
  cases hv : stripModifier v with
  | more rest => rw [stripModifiers_of_more (heq.trans hv), stripModifiers_of_more hv]
  | done rest => rw [stripModifiers_of_done (heq.trans hv), stripModifiers_of_done hv]

theorem stripStart?_append (u v : List Char) : stripStart? u (u ++ v) = some v := by
  rw [stripStart?, if_pos (List.isPrefixOf_iff_prefix.2 ⟨v, rfl⟩), List.drop_left]

theorem eq_append_of_stripStart? (h : stripStart? u text = some v) : text = u ++ v := by
  unfold stripStart? at h
  split at h
  · rename_i hprefix
    obtain ⟨rest, rfl⟩ := List.isPrefixOf_iff_prefix.1 hprefix
    rw [List.drop_left, Option.some.injEq] at h
    rw [h]
  · cases h

/-- An annotation without a list is its name. -/
theorem stripModifier_named {named : List Char} (h : trimStart text = '@' :: named)
    (hlist : (trimStart (named.dropWhile isNameChar)).head? ≠ some '(') :
    stripModifier text = .more (named.dropWhile isNameChar) := by
  simp only [stripModifier, h]
  split
  · rename_i list hopen
    exact absurd (congrArg List.head? hopen) hlist
  · rfl

/-- An annotation with a list goes on to the end of the list. -/
theorem stripModifier_list {named list : List Char} (h : trimStart text = '@' :: named)
    (hlist : trimStart (named.dropWhile isNameChar) = '(' :: list) :
    stripModifier text =
      (argumentList? 0 .code list).elim (.done (named.dropWhile isNameChar)) (.more ·.2) := by
  have hopen : trimStart (named.dropWhile fun c => isIdentifierChar c || c == '.') = '(' :: list :=
    hlist
  simp only [stripModifier, h, hopen]
  cases argumentList? 0 .code list <;> rfl

/-- Without an annotation only `final` is taken off. -/
theorem stripModifier_of_ne (h : (trimStart text).head? ≠ some '@') :
    stripModifier text =
      match stripStart? "final".toList (trimStart text) with
      | some (c :: rest) =>
        if isBlank c then .more (c :: rest) else .done (trimStart text)
      | _ => .done (trimStart text) := by
  unfold stripModifier
  split
  · rename_i named hnamed
    exact absurd (congrArg List.head? hnamed) h
  · rfl

theorem takeWhile_isNameChar (hu : ∀ c ∈ u, isNameChar c = true)
    (hv : ∀ c ∈ v.head?, isNameChar c = false) : (u ++ v).takeWhile isNameChar = u := by
  rw [List.takeWhile_append_of_pos hu]
  cases v with
  | nil => simp
  | cons c v => rw [List.takeWhile_cons_of_neg (by simp [hv c rfl]), List.append_nil]

theorem dropWhile_isNameChar (hu : ∀ c ∈ u, isNameChar c = true)
    (hv : ∀ c ∈ v.head?, isNameChar c = false) : (u ++ v).dropWhile isNameChar = v := by
  rw [List.dropWhile_append_of_pos hu]
  cases v with
  | nil => rfl
  | cons c v => exact List.dropWhile_cons_of_neg (by simp [hv c rfl])

/-- White space before what does not go on with a name does not go on with it either. -/
theorem isNameChar_head?_append (hu : IsBlankText u) (hv : ∀ c ∈ v.head?, isNameChar c = false) :
    ∀ c ∈ (u ++ v).head?, isNameChar c = false := by
  cases u with
  | nil => exact hv
  | cons d u =>
    rintro _ ⟨⟩
    exact isNameChar_of_isBlank (hu d List.mem_cons_self)

theorem Gap.exists_cons (gap : Gap) : ∃ c rest, gap.text = c :: rest ∧ isBlank c = true := by
  obtain ⟨c, rest, heq⟩ := List.exists_cons_of_ne_nil gap.nonempty
  exact ⟨c, rest, heq, gap.blank c (by rw [heq]; exact List.mem_cons_self)⟩

/-- A modifier is taken off up to the white space after it. -/
theorem Modifier.stripModifier_eq (m : Modifier) (gap : Gap)
    (hafter : ∃ c ∈ after.head?, isBlank c = false ∧ c ≠ '(') :
    stripModifier (m.text ++ (gap.text ++ after)) = .more (gap.text ++ after) := by
  obtain ⟨d, rest, hgap, hd⟩ := gap.exists_cons
  cases m with
  | final =>
    rw [hgap]
    exact if_pos hd
  | annotated name arguments =>
    have hsign (list : List Char) : trimStart ('@' :: list) = '@' :: list := rfl
    cases arguments with
    | none =>
      obtain ⟨c, hc, hblank, hopen⟩ := hafter
      obtain ⟨list, rfl⟩ : ∃ list, after = c :: list := List.head?_eq_some_iff.1 hc
      have hrest : (name.text ++ (gap.text ++ c :: list)).dropWhile isNameChar =
          gap.text ++ c :: list := dropWhile_isNameChar name.isNameChar <| by
        rw [hgap]
        rintro _ ⟨⟩
        exact isNameChar_of_isBlank hd
      rw [text, Option.elim_none, List.append_nil, List.cons_append,
        stripModifier_named (hsign _), hrest]
      rw [hrest, trimStart_append gap.blank, trimStart_cons hblank]
      exact fun heq => hopen (Option.some.inj heq)
    | some arguments =>
      have hrest : (name.text ++ (arguments.text ++ (gap.text ++ after))).dropWhile isNameChar =
          arguments.text ++ (gap.text ++ after) := dropWhile_isNameChar name.isNameChar <| by
        rw [Arguments.text, List.append_assoc]
        refine isNameChar_head?_append arguments.blank ?_
        rintro _ ⟨⟩
        decide
      have hlist : trimStart (arguments.text ++ (gap.text ++ after)) =
          '(' :: (arguments.list ++ ')' :: (gap.text ++ after)) := by
        have htrim (list : List Char) : trimStart ('(' :: list) = '(' :: list := rfl
        rw [Arguments.text, List.append_assoc, trimStart_append arguments.blank, List.cons_append,
          htrim, List.append_assoc, List.singleton_append]
      rw [text, Option.elim_some, List.cons_append, List.append_assoc,
        stripModifier_list (hsign _) (by rw [hrest, hlist]), arguments.balanced_list.argumentList?_eq,
        Option.elim_some]

theorem ParameterDeclaration.text_cons (m : Modifier) (space : Gap) (ms : List (Modifier × Gap))
    (type : DeclaredType) (gap : Gap) (name : Identifier) :
    (⟨(m, space) :: ms, type, gap, name⟩ : ParameterDeclaration).text =
      m.text ++ (space.text ++ (⟨ms, type, gap, name⟩ : ParameterDeclaration).text) := by
  simp only [ParameterDeclaration.text, ParameterDeclaration.bareText, List.flatMap_cons,
    List.append_assoc]

/-- What follows the name of a type does not go on with it. -/
theorem DeclaredType.head?_after_name (type : DeclaredType) (gap : Gap) (after : List Char) :
    ∀ c ∈ (type.argumentText ++ (type.dimensions.flatMap fun space => space ++ ['[', ']']) ++
      (gap.text ++ after)).head?, isNameChar c = false := by
  obtain ⟨d, rest, hgap, hd⟩ := gap.exists_cons
  obtain ⟨name, notFinal, arguments, dimensions, blank⟩ := type
  cases arguments with
  | some arguments =>
    rintro _ ⟨⟩
    decide
  | none =>
    cases dimensions with
    | nil =>
      rw [hgap]
      rintro _ ⟨⟩
      exact isNameChar_of_isBlank hd
    | cons space dimensions =>
      rw [List.flatMap_cons, argumentText, Option.elim_none, List.nil_append, List.append_assoc,
        List.append_assoc]
      refine isNameChar_head?_append (blank space List.mem_cons_self) ?_
      rintro _ ⟨⟩
      decide

namespace ParameterDeclaration

variable (parameter : ParameterDeclaration)

/-- The type and the name are what is left without modifiers. -/
theorem stripModifier_bareText : stripModifier parameter.bareText = .done parameter.bareText := by
  have htrim : trimStart parameter.bareText = parameter.bareText :=
    trimStart_eq_self parameter.isTrimmed_bareText.head
  have hsign : (trimStart parameter.bareText).head? ≠ some '@' := by
    obtain ⟨c, hc, hfirst⟩ := parameter.head?_bareText
    rw [htrim, Option.mem_def.1 hc]
    rintro ⟨⟩
    exact absurd hfirst (by decide)
  rw [stripModifier_of_ne hsign, htrim]
  split
  · rename_i c rest hstrip
    refine if_neg fun hc => parameter.type.notFinal ?_
    -- `final` would be the name of the type
    have hfinal : parameter.bareText.takeWhile isNameChar = "final".toList := by
      rw [eq_append_of_stripStart? hstrip]
      refine takeWhile_isNameChar (List.all_eq_true.1 (by decide)) ?_
      rintro _ ⟨⟩
      exact isNameChar_of_isBlank hc
    have hname : parameter.bareText.takeWhile isNameChar = parameter.type.name.text := by
      rw [bareText, DeclaredType.text]
      simp only [List.append_assoc]
      refine takeWhile_isNameChar parameter.type.name.isNameChar ?_
      simpa using parameter.type.head?_after_name parameter.gap parameter.name.text
    exact hname.symm.trans hfinal
  · rfl

theorem stripModifiers_text : stripModifiers parameter.text = parameter.bareText := by
  obtain ⟨modifiers, type, gap, name⟩ := parameter
  induction modifiers with
  | nil => exact stripModifiers_of_done (stripModifier_bareText ⟨[], type, gap, name⟩)
  | cons m modifiers ih =>
    obtain ⟨m, space⟩ := m
    rw [text_cons, stripModifiers_of_more (m.stripModifier_eq space (head?_text _)),
      stripModifiers_congr (trimStart_append space.blank _), ih]
    rfl

end ParameterDeclaration

/-! ## Names -/

theorem splitLast?_eq_none (h : ∀ c ∈ text, isBlank c = false) (angle : Int) :
    splitLast? angle text = none := by
  induction text generalizing angle with
  | nil => rfl
  | cons c text ih =>
    obtain ⟨hc, htext⟩ := List.forall_mem_cons.1 h
    rw [splitLast?, ih htext]
    simp [hc]

/-- The last white space outside angle brackets is the one before a word. -/
theorem splitLast?_append (hu : ∀ c ∈ u, isBareChar c = true) {angle : Int}
    (hangle : (run ⟨0, angle, .code⟩ u).angle = 0) (hc : isBlank c = true)
    (hv : ∀ c ∈ v, isBlank c = false) : splitLast? angle (u ++ c :: v) = some (u, c :: v) := by
  induction u generalizing angle with
  | nil =>
    obtain rfl : angle = 0 := hangle
    rw [List.nil_append, splitLast?, splitLast?_eq_none hv]
    simp [hc]
  | cons d u ih =>
    obtain ⟨hd, hu⟩ := List.forall_mem_cons.1 hu
    rw [run_cons, next_bare hd] at hangle
    have hstep : (if d = '<' then angle + 1 else if d = '>' then angle - 1 else angle) =
        angle + angleStep d := by
      unfold angleStep
      repeat' split
      all_goals omega
    rw [List.cons_append, splitLast?]
    simp only [beq_iff_eq, hstep, ih hu hangle]

/-! ## Square brackets -/

theorem closeBrackets_cons (h : ¬ (isBlank c = true ∧ (trimStart text).head? = some '[')) :
    closeBrackets (c :: text) = c :: closeBrackets text := by
  rw [closeBrackets]
  simp only [Bool.and_eq_true, beq_iff_eq, h, if_false]

theorem closeBrackets_sign (h : isBlank c = false) (text : List Char) :
    closeBrackets (c :: text) = c :: closeBrackets text := closeBrackets_cons (by simp [h])

/-- Nothing is dropped from a text without white space. -/
theorem closeBrackets_append (hu : ∀ c ∈ u, isBlank c = false) (v : List Char) :
    closeBrackets (u ++ v) = u ++ closeBrackets v := by
  induction u with
  | nil => rfl
  | cons c u ih =>
    obtain ⟨hc, hu⟩ := List.forall_mem_cons.1 hu
    rw [List.cons_append, closeBrackets_sign hc, ih hu, List.cons_append]

/-- White space before a square bracket is dropped. -/
theorem closeBrackets_blank (hu : IsBlankText u) (v : List Char) :
    closeBrackets (u ++ '[' :: v) = '[' :: closeBrackets v := by
  have hsign : trimStart ('[' :: v) = '[' :: v := rfl
  induction u with
  | nil => exact closeBrackets_sign (by decide) v
  | cons c u ih =>
    obtain ⟨hc, hu⟩ := List.forall_mem_cons.1 hu
    rw [List.cons_append, closeBrackets, trimStart_append hu, hsign, ih hu]
    simp [hc]

/-- White space that a square bracket follows has its end just before the bracket. -/
theorem not_isChain_of_trimStart (hc : isBlank c = true) (h : trimStart text = '[' :: v) :
    ¬ (c :: text).IsChain fun c d => d = '[' → isBlank c = false := by
  induction text generalizing c with
  | nil => cases h
  | cons d text ih =>
    rw [List.isChain_cons_cons]
    rintro ⟨hcd, hrest⟩
    cases hd : isBlank d with
    | true =>
      rw [trimStart_cons_of_blank hd] at h
      exact ih hd h hrest
    | false =>
      rw [trimStart_cons hd] at h
      have hblank := hcd (List.cons.inj h).1
      rw [hc] at hblank
      cases hblank

theorem closeBrackets_list (hu : u.IsChain fun c d => d = '[' → isBlank c = false)
    (v : List Char) : closeBrackets (u ++ '>' :: v) = u ++ '>' :: closeBrackets v := by
  induction u with
  | nil => exact closeBrackets_sign (by decide) v
  | cons c u ih =>
    rw [List.cons_append, closeBrackets_cons, ih hu.of_cons, List.cons_append]
    rintro ⟨hc, hhead⟩
    obtain ⟨list, hlist⟩ := List.head?_eq_some_iff.1 hhead
    rcases trimStart_append_eq_cons hlist with ⟨-, hbracket⟩ | ⟨rest, hbracket, -⟩
    · cases hbracket
    · exact not_isChain_of_trimStart hc hbracket hu

namespace DeclaredType

variable (type : DeclaredType)

theorem closeBrackets_dimensions {dimensions : List (List Char)}
    (h : ∀ space ∈ dimensions, IsBlankText space) :
    closeBrackets (dimensions.flatMap fun space => space ++ ['[', ']']) =
      dimensions.flatMap fun _ => ['[', ']'] := by
  induction dimensions with
  | nil => rfl
  | cons space dimensions ih =>
    obtain ⟨hspace, hrest⟩ := List.forall_mem_cons.1 h
    have hclose (text : List Char) : closeBrackets (']' :: text) = ']' :: closeBrackets text :=
      closeBrackets_sign (by decide) text
    simp only [List.flatMap_cons, List.append_assoc, List.cons_append, List.nil_append,
      closeBrackets_blank hspace, hclose, ih hrest]

theorem closeBrackets_text : closeBrackets type.text =
    type.name.text ++ type.argumentText ++ type.dimensions.flatMap fun _ => ['[', ']'] := by
  have hname (c : Char) (hc : c ∈ type.name.text) : isBlank c = false :=
    isBlank_of_isNameChar (type.name.isNameChar c hc)
  rw [text, List.append_assoc, closeBrackets_append hname, argumentText]
  cases type.arguments with
  | none => simp [closeBrackets_dimensions type.blank]
  | some arguments =>
    have hopen (text : List Char) : closeBrackets ('<' :: text) = '<' :: closeBrackets text :=
      closeBrackets_sign (by decide) text
    simp only [Option.elim, TypeArguments.text, List.cons_append, List.append_assoc,
      List.nil_append, hopen, closeBrackets_list arguments.compact,
      closeBrackets_dimensions type.blank]

end DeclaredType

/-! ## Types -/

/-- A name is all of a text before brackets. -/
theorem eq_of_append_eq {u' v' : List Char} (hu : ∀ c ∈ u, isNameChar c = true)
    (hu' : ∀ c ∈ u', isNameChar c = true) (hv : ∀ c ∈ v.head?, isNameChar c = false)
    (hv' : ∀ c ∈ v'.head?, isNameChar c = false) (h : u ++ v = u' ++ v') : u = u' ∧ v = v' := by
  have heq : u = u' := by
    rw [← takeWhile_isNameChar hu hv, h, takeWhile_isNameChar hu' hv']
  subst heq
  exact ⟨rfl, List.append_cancel_left h⟩

namespace DeclaredType

variable (type : DeclaredType)

/-- Only a string and its arrays are `String` with square brackets. -/
theorem qualifiedString_eq :
    qualifiedString (type.name.text ++ type.argumentText ++
      type.dimensions.flatMap fun _ => ['[', ']']) = type.spelled := by
  have hdimensions : ∀ c ∈ type.dimensions.flatMap fun _ => ['[', ']'], c = '[' ∨ c = ']' := by
    simp
  rw [spelled, qualifiedString, List.append_assoc, List.append_assoc]
  by_cases hstring : type.name.text = "String".toList ∧ type.arguments = none
  · have harguments : type.argumentText = [] := by rw [argumentText, hstring.2]; rfl
    rw [if_pos hstring, hstring.1, stripStart?_append, harguments]
    refine if_pos (List.all_eq_true.2 fun c hc => ?_)
    simpa using hdimensions c hc
  rw [if_neg hstring]
  split
  · rename_i rest hstrip
    refine if_neg fun hbrackets => hstring ?_
    have hrest (c : Char) (hc : c ∈ rest) : isNameChar c = false ∧ c ≠ '<' := by
      have hbracket := List.all_eq_true.1 hbrackets c hc
      simp only [Bool.or_eq_true, beq_iff_eq] at hbracket
      rcases hbracket with rfl | rfl <;> decide
    have hafter : ∀ c ∈ (type.argumentText ++ type.dimensions.flatMap fun _ => ['[', ']']).head?,
        isNameChar c = false := by
      unfold argumentText
      cases type.arguments with
      | none =>
        intro c hc
        rcases hdimensions c (List.mem_of_mem_head? hc) with rfl | rfl <;> decide
      | some arguments =>
        rintro _ ⟨⟩
        decide
    obtain ⟨hname, hlist⟩ := eq_of_append_eq type.name.isNameChar
      (List.all_eq_true.1 (by decide)) hafter
      (fun c hc => (hrest c (List.mem_of_mem_head? hc)).1) (eq_append_of_stripStart? hstrip)
    refine ⟨hname, ?_⟩
    cases harguments : type.arguments with
    | none => rfl
    | some arguments =>
      have hopen : '<' ∈ rest := by
        rw [← hlist, argumentText, harguments]
        exact List.mem_cons_self
      exact absurd rfl (hrest '<' hopen).2
  · rfl

theorem isBareChar_of_mem_text : ∀ c ∈ type.text, isBareChar c = true := by
  have hname (c : Char) (hc : c ∈ type.name.text) : isBareChar c = true :=
    isBareChar_of_isPlainChar (isPlainChar_of_isNameChar (type.name.isNameChar c hc))
  have harguments (c : Char) (hc : c ∈ type.argumentText) : isBareChar c = true := by
    unfold argumentText at hc
    cases harguments : type.arguments with
    | none => simp [harguments] at hc
    | some arguments =>
      simp only [harguments, Option.elim, TypeArguments.text, List.mem_cons, List.mem_append,
        List.not_mem_nil, or_false] at hc
      rcases hc with rfl | hc | rfl
      · decide
      · exact arguments.bare c hc
      · decide
  simp only [text, List.forall_mem_append, List.forall_mem_flatMap]
  refine ⟨⟨hname, harguments⟩, fun space hspace => ⟨fun c hc => ?_,
    List.all_eq_true.1 (by decide)⟩⟩
  exact isBareChar_of_isPlainChar (isPlainChar_of_isBlank (type.blank space hspace c hc))

theorem isTrimmed_text : IsTrimmed type.text := by
  have hname (c : Char) (hc : c ∈ type.name.text) : isBlank c = false :=
    isBlank_of_isNameChar (type.name.isNameChar c hc)
  obtain ⟨c, rest, hfirst, hc⟩ := type.name.exists_cons
  refine ⟨?_, ?_⟩
  · rw [text, hfirst]
    rintro _ ⟨⟩
    exact isBlank_of_isIdentifierChar hc
  refine forall_mem_getLast?_append (forall_mem_getLast?_append
    (isTrimmed_of_forall hname).last ?_) ?_
  · rw [argumentText]
    cases type.arguments with
    | none => simp
    | some arguments =>
      intro d hd
      rw [Option.elim, TypeArguments.text, ← List.cons_append, List.getLast?_concat] at hd
      cases hd
      decide
  · induction type.dimensions with
    | nil => simp
    | cons space dimensions ih =>
      rw [List.flatMap_cons]
      refine forall_mem_getLast?_append (fun d hd => ?_) ih
      rw [List.getLast?_append] at hd
      cases hd
      decide

end DeclaredType

namespace ParameterDeclaration

variable (parameter : ParameterDeclaration)

theorem splitLast?_bareText : ∃ space c, IsBlankText space ∧ isBlank c = true ∧
    splitLast? 0 parameter.bareText =
      some (parameter.type.text ++ space, c :: parameter.name.text) := by
  obtain ⟨space, c, hgap⟩ : ∃ space c, parameter.gap.text = space ++ [c] :=
    (List.eq_nil_or_concat' _).resolve_left parameter.gap.nonempty
  have hblank := parameter.gap.blank
  rw [hgap] at hblank
  obtain ⟨hspace, hlast⟩ := List.forall_mem_append.1 hblank
  have hc : isBlank c = true := hlast c List.mem_cons_self
  have hbare : ∀ d ∈ parameter.type.text ++ space, isBareChar d = true :=
    List.forall_mem_append.2 ⟨parameter.type.isBareChar_of_mem_text, fun d hd =>
      isBareChar_of_isPlainChar (isPlainChar_of_isBlank (hspace d hd))⟩
  have hends : start.run (parameter.type.text ++ space) = .start :=
    (parameter.type.isClosed_text.append (isClosed_of_blank hspace)).ends
  have hangle : (run ⟨0, 0, .code⟩ (parameter.type.text ++ space)).angle = 0 :=
    congrArg Nesting.angle hends
  refine ⟨space, c, hspace, hc, ?_⟩
  rw [bareText, hgap]
  simpa using splitLast?_append hbare hangle hc fun d hd =>
    isBlank_of_isNameChar (parameter.name.isNameChar d hd)

theorem parameterType_text : parameterType parameter.text = parameter.type.spelled := by
  obtain ⟨space, c, hspace, hc, hsplit⟩ := parameter.splitLast?_bareText
  have htrimmed : IsTrimmed parameter.name.text := isTrimmed_of_forall fun d hd =>
    isBlank_of_isNameChar (parameter.name.isNameChar d hd)
  have hname : trim (c :: parameter.name.text) = parameter.name.text := by
    have hblank : IsBlankText [c] := by simpa [IsBlankText] using hc
    simpa using trim_pad htrimmed hblank isBlankText_nil
  have htype : trim (parameter.type.text ++ space) = parameter.type.text := by
    simpa using trim_pad parameter.type.isTrimmed_text isBlankText_nil hspace
  have hword : parameter.name.text.all isIdentifierChar = true :=
    List.all_eq_true.2 parameter.name.isName.chars
  rw [parameterType, stripModifiers_text, trim_eq_self parameter.isTrimmed_bareText]
  simp only [hsplit, hname, hword, if_true, htype, DeclaredType.closeBrackets_text,
    DeclaredType.qualifiedString_eq]

end ParameterDeclaration

/-! ## The signature -/

theorem joined_intercalate (hu : IsBlankText u) (part : List Char) (parts : List (List Char)) :
    Joined (part :: parts) (u ++ List.intercalate [',', ' '] (part :: parts)) := by
  induction parts generalizing u part with
  | nil => simpa using Joined.last part hu isBlankText_nil
  | cons other parts ih =>
    have hblank : IsBlankText [' '] := by decide
    have hcomma := Joined.comma part hu isBlankText_nil (ih hblank other)
    simpa [List.intercalate_cons_cons] using hcomma

/-- The declarations of a method, with a comma and a blank between them. -/
def parameterList (parameters : List ParameterDeclaration) : List Char :=
  List.intercalate [',', ' '] (parameters.map ParameterDeclaration.text)

theorem parameterTexts_parameterList (parameters : List ParameterDeclaration) :
    parameterTexts (parameterList parameters) = .ok (parameters.map ParameterDeclaration.text) := by
  refine parameterTexts_eq_ok_iff.2 ?_
  cases parameters with
  | nil => exact .inl ⟨rfl, isBlankText_nil⟩
  | cons parameter parameters =>
    refine .inr ⟨?_, joined_intercalate isBlankText_nil parameter.text _, ?_⟩
    · obtain ⟨c, hc, -⟩ := parameter.head?_text
      rintro h
      rw [List.map_cons] at h
      rw [(List.cons.inj h).1] at hc
      cases hc
    · exact List.forall_mem_map.2 fun parameter _ =>
        ⟨parameter.isClosed_text, parameter.isTrimmed_text⟩

theorem balanced_parameterList (parameters : List ParameterDeclaration) :
    Balanced (parameterList parameters) := by
  have htext (parameter : ParameterDeclaration) : Balanced parameter.text :=
    balanced_of_isClosed parameter.isClosed_text
  have hcomma : Balanced [',', ' '] := balanced_of_bare (List.all_eq_true.1 (by decide))
  cases parameters with
  | nil => exact balanced_nil
  | cons parameter parameters =>
    induction parameters generalizing parameter with
    | nil => simpa [parameterList] using htext parameter
    | cons other parameters ih =>
      have hrest := (htext parameter).append (hcomma.append (ih other))
      simpa [parameterList, List.intercalate_cons_cons] using hrest

/-- What follows the list. -/
def bodyText : List Char := [' ', '\x7b', '\x7d']

/-- No list follows a name in what precedes the name of the method. -/
theorem passesOver_void {name : List Char} (hname : IsName name) (list : List Char) :
    PassesOver name [] "void ".toList (name ++ '(' :: list) := by
  have hblank (c : Char) (hc : c ∈ "void ".toList.getLast?) : isIdentifierChar c = false := by
    cases hc
    decide
  refine passesOver_of_passesAt hname (fun c hc d _ => .inl (hblank c hc)) fun u v huv => ?_
  refine .inr fun rest hrest => ?_
  rcases trimStart_append_eq_cons hrest with ⟨-, hopen⟩ | ⟨rest, hopen, -⟩
  · obtain ⟨c, name', rfl⟩ := List.exists_cons_of_ne_nil hname.nonempty
    have hc := hname.chars c List.mem_cons_self
    rw [List.cons_append, trimStart_cons (isBlank_of_isIdentifierChar hc)] at hopen
    obtain ⟨rfl, -⟩ := List.cons.inj hopen
    exact absurd hc (by decide)
  · have hmem : '(' ∈ v := (List.dropWhile_sublist _).subset (by
      rw [← trimStart, hopen]
      exact List.mem_cons_self)
    have hvoid : '(' ∈ "void ".toList := by
      rw [huv]
      exact List.mem_append_right _ hmem
    exact absurd hvoid (by decide)

/-- The signature of a declared method has the types of its parameters: white space before square
brackets is gone, and `String` and its arrays have their package. -/
theorem signatureOf_declaration (m : Identifier) (parameters : List ParameterDeclaration) :
    signatureOf
        ("void " ++ String.ofList m.text ++ "(" ++
          String.intercalate ", " (parameters.map fun p => String.ofList p.text) ++
            ") \x7b\x7d")
        (String.ofList m.text) =
      .ok (String.ofList m.text ++ "(" ++
        String.intercalate "," (parameters.map fun p => String.ofList p.type.spelled) ++ ")") := by
  have hsource : ("void " ++ String.ofList m.text ++ "(" ++
      String.intercalate ", " (parameters.map fun p => String.ofList p.text) ++
        ") \x7b\x7d").toList =
      "void ".toList ++ (m.text ++ '(' :: (parameterList parameters ++ ')' :: bodyText)) := by
    simp [parameterList, bodyText, String.toList_intercalate, Function.comp_def]
  have hfound : parameterList? m.text [] 0
      ("void ".toList ++ (m.text ++ '(' :: (parameterList parameters ++ ')' :: bodyText))) =
        .ok (some (parameterList parameters)) := by
    rw [passesOver_void m.isName]
    refine parameterList?_of_isDeclaration m.isName ?_
      ((balanced_parameterList parameters).argumentList?_eq bodyText) (by decide)
    rintro _ ⟨⟩
    decide
  have hsplit : splitParameters (String.ofList (parameterList parameters)) (String.ofList m.text) =
      .ok (parameters.map fun p => String.ofList p.text) := by
    rw [splitParameters_eq_ok_iff, String.toList_ofList, parameterTexts_parameterList]
    simp [Function.comp_def]
  have htypes : ((parameters.map fun p => String.ofList p.text).map fun p =>
      String.ofList (parameterType p.toList)) =
        parameters.map fun p => String.ofList p.type.spelled := by
    simp [ParameterDeclaration.parameterType_text]
  rw [signatureOf, String.toList_ofList, hsource, hfound]
  show (splitParameters (String.ofList (parameterList parameters)) (String.ofList m.text) >>=
    fun parameters => pure _) = _
  rw [hsplit]
  show Except.ok _ = _
  rw [htypes]

/-- A parenthesis in a literal of an annotation, a comma in angle brackets, and white space before
square brackets. -/
theorem signatureOf_declaration_annotated :
    signatureOf "void put(@A(\")\") final Map<K, int[]> [] m, String [] s) \x7b\x7d" "put" =
      .ok "put(Map<K, int[]>[],java.lang.String[])" := by
  exact signatureOf_declaration ⟨"put".toList, by decide⟩
    [{modifiers :=
        [(.annotated ⟨⟨['A'], by decide⟩, []⟩
            (some ⟨[], by decide, "\")\"".toList, by decide, by decide, by decide⟩),
          ⟨[' '], by decide, by decide⟩),
         (.final, ⟨[' '], by decide, by decide⟩)]
      type := ⟨⟨⟨"Map".toList, by decide⟩, []⟩, by decide,
        some ⟨"K, int[]".toList, List.all_eq_true.1 (by decide), by decide, by decide, by decide⟩,
        [[' ']], List.forall_mem_singleton.2 (by decide)⟩
      gap := ⟨[' '], by decide, by decide⟩
      name := ⟨['m'], by decide⟩},
     {modifiers := []
      type := ⟨⟨⟨"String".toList, by decide⟩, []⟩, by decide, none, [[' ']],
        List.forall_mem_singleton.2 (by decide)⟩
      gap := ⟨[' '], by decide, by decide⟩
      name := ⟨['s'], by decide⟩}]

end ContractTests.Java
