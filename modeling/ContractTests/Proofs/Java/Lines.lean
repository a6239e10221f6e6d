import ContractTests.Proofs.TestClass.Vocabulary

/-! # The lines of a class

The scan for the declaration of a test method goes past the lines of settled blocks
(`Stmt.extends_renderAll`), and past the head and the other methods of a class. So it ends at the
declaration of the method, whose list is empty (`TestClass.signatureOf_render`).
-/

set_option autoImplicit false

namespace ContractTests

open Java Text

/-! ## Settled blocks -/

namespace Vocabulary

variable {name : List Char}

/-- Bare names and settled nodes. -/
def settled (name : List Char) : Vocabulary := ⟨IsBare, Expr.IsSettledNode name⟩

theorem lawful_settled (name : List Char) : (settled name).Lawful where
  bare := id
  append hs ht := isBare_append.2 ⟨hs, ht⟩
  trimmed := JavaType.isBare_trimmed
  base := JavaType.isBare_base
  implementation := JavaType.isBare_implementation
  ignoresChildren := Expr.ignoresChildren_isSettledNode name
  added {e} _ hspelled := by
    refine ⟨fun written hwritten => hspelled written ?_, ?_⟩
    · unfold Expr.spelled?
      split
      · cases hwritten
      · exact hwritten
    · rintro s rfl
      exact not_looksLikeCall_of_isBare (hspelled s rfl)

/-- Shared calls are declared as bare variables. -/
theorem settled_shareCalls {body shared : List Stmt} (h : (settled name).OfBlock body)
    (hshared : Stmt.shareCalls body = .ok shared) : (settled name).OfBlock shared := by
  refine (Stmt.rewrites_of_shareCalls hshared).everywhere
    (fun condition declarations condition' hs hc => ?_)
    (fun _ _ _ _ hc => ⟨hc.names, hc.expression⟩) h
  obtain ⟨taken, taken', hshare⟩ := hs
  obtain ⟨rounds, hrounds, hdeclarations, -⟩ := Expr.rounds_of_share hshare
  obtain ⟨hresult, hcalls⟩ := hrounds.everywhere (Expr.ignoresChildren_isSettledNode name)
    (fun taken _ _ => Expr.isSettledNode_resultVariable taken) (hc.expression condition rfl)
  have hvar : IsBare "var" := by decide
  refine ⟨?_, ⟨nofun, fun _ he => Option.some.inj he ▸ hresult⟩⟩
  rw [show declarations = _ from hdeclarations]
  refine ofBlock_map.2 fun r hr => ofStmt_declare.2 ⟨⟨hvar, ?_⟩, (hcalls r hr).1⟩
  exact (hcalls r hr).2.bare _ rfl

end Vocabulary

/-! ## Source texts -/

/-- The second text is the first one with more lines, all of which satisfy the predicate. -/
structure SourceText.Extends (P : String → Prop) (out out' : SourceText) : Prop where
  level : out'.level = out.level
  lines : ∃ more, out'.lines = out.lines ++ more ∧ ∀ line ∈ more, P line

namespace SourceText

variable {P : String → Prop} {out out' out'' : SourceText}

theorem Extends.refl (out : SourceText) : Extends P out out :=
  ⟨rfl, [], (List.append_nil _).symm, List.forall_mem_nil _⟩

theorem Extends.trans (h : Extends P out out') (h' : Extends P out' out'') :
    Extends P out out'' := by
  obtain ⟨hlevel, more, hmore, hP⟩ := h
  obtain ⟨hlevel', more', hmore', hP'⟩ := h'
  refine ⟨hlevel'.trans hlevel, more ++ more', ?_, List.forall_mem_append.2 ⟨hP, hP'⟩⟩
  rw [hmore', hmore, List.append_assoc]

theorem extends_line {text : String} (hempty : P "") (h : P (indentation out.level ++ text)) :
    Extends P out (out.line text) := by
  refine ⟨rfl, [_], rfl, List.forall_mem_singleton.2 ?_⟩
  split
  · exact hempty
  · exact h

theorem lines_line (out : SourceText) {text : String} (h : text ≠ "") :
    (out.line text).lines = out.lines ++ [indentation out.level ++ text] := by
  simp [line, h]

theorem extends_blank (hempty : P "") : Extends P out out.blank :=
  ⟨rfl, [""], rfl, List.forall_mem_singleton.2 hempty⟩

theorem Extends.forall_mem (h : Extends P out out') (hout : ∀ line ∈ out.lines, P line) :
    ∀ line ∈ out'.lines, P line := by
  obtain ⟨-, more, hmore, hP⟩ := h
  rw [hmore]
  exact List.forall_mem_append.2 ⟨hout, hP⟩

/-- The lines of a block stand one level deeper. -/
theorem Extends.nested (h : Extends P out.indent out') : Extends P out out'.dedent := by
  obtain ⟨hlevel, hlines⟩ := h
  refine ⟨?_, hlines⟩
  rw [dedent, hlevel, indent, Nat.add_sub_cancel]

/-- The characters of a text, line by line. -/
theorem toList_text {t : SourceText} (h : t.lines ≠ []) :
    t.text.toList = t.lines.flatMap fun line => line.toList ++ ['\n'] := by
  rw [text, String.toList_append, String.toList_intercalate]
  obtain ⟨first, rest, hlines⟩ := List.exists_cons_of_ne_nil h
  rw [hlines]
  have hbreak : "\n".toList = ['\n'] := rfl
  rw [hbreak]
  clear h hlines
  induction rest generalizing first with
  | nil => simp
  | cons second rest ih =>
    rw [List.map_cons, List.map_cons, List.intercalate_cons_cons, List.append_assoc,
      List.append_assoc, ← List.map_cons, ih, List.flatMap_cons]
    simp

end SourceText

/-! ## Lines -/

namespace Java

/-- A name with an underscore, as those of the test methods. -/
structure IsHelperName (name : List Char) : Prop extends IsName name where
  underscore : '_' ∈ name

/-- The scan goes past the line, whatever follows it. -/
def PassesLine (name : List Char) (line : String) : Prop :=
  ∀ before after, PassesOver name before (line.toList ++ ['\n']) after

variable {name before after : List Char}

/-- A text without underscores. -/
theorem IsHelperName.passesOver (hname : IsHelperName name) {text : List Char}
    (h : '_' ∉ text) (hend : EndsWord text after) : PassesOver name before text after :=
  passesOver_of_not_infix hname.toIsName (fun hoccurs => h (hoccurs.subset hname.underscore)) hend

theorem passesLine_of_no_underscore (hname : IsHelperName name) {line : String}
    (h : '_' ∉ line.toList) : PassesLine name line := by
  intro before after
  have hbreak : '_' ∉ line.toList ++ ['\n'] := by simpa using h
  refine hname.passesOver hbreak fun c hc => ?_
  rw [List.getLast?_append] at hc
  cases hc
  exact fun _ _ => .inl (by decide)

/-- The end of a line that no word stands in. -/
theorem passesOver_lineEnd (hname : IsName name) {close : List Char}
    (h : ∀ c ∈ close, isIdentifierChar c = false) :
    PassesOver name before (close ++ ['\n']) after := by
  refine passesOver_of_no_word hname (List.forall_mem_append.2 ⟨h, ?_⟩)
  exact List.forall_mem_singleton.2 (by decide)

theorem PassesLine.indented (hname : IsName name) {line : String} (h : PassesLine name line)
    (level : Nat) : PassesLine name (SourceText.indentation level ++ line) := by
  intro before after
  rw [String.toList_append, List.append_assoc]
  refine .append (passesOver_of_no_word hname fun c hc => ?_) (h _ _)
  rw [SourceText.indentation, String.toList_ofList] at hc
  rw [List.eq_of_mem_replicate hc]
  decide

/-- A line of a settled text that ends in a sign. -/
theorem Settled.passesLine (hname : IsName name) {text close : String} (h : Settled name text)
    (hclose : IsSeparator close) : PassesLine name (text ++ close) := by
  intro before after
  rw [String.toList_append, List.append_assoc]
  refine .append (h.passes _ _ ?_) (passesOver_lineEnd hname fun c hc => (hclose.sign c hc).1)
  rw [List.append_assoc]
  exact hclose.calm _

end Java

namespace Stmt

variable {name : List Char}

theorem isSeparator_semicolon : IsSeparator ";" := ⟨by decide, ';', [], by decide, by decide⟩

theorem isSeparator_equals : IsSeparator " = " := ⟨by decide, '=', [' '], by decide, by decide⟩

/-- The name of an input stands in its line without any escape. -/
theorem passesLine_inputLine (hname : IsHelperName name) {type written : String}
    (htype : IsBare type) (hwritten : IsBare written) :
    PassesLine name (inputLine type written) := by
  have hblank : IsBare " " := by decide
  have hbare {text : String} (h : IsBare text) : Settled name text :=
    settled_of_isBare hname.toIsName h
  have hdeclared : Settled name (type ++ " " ++ written) :=
    hbare (by simp [htype, hwritten, hblank])
  have hsigns {signs : List Char} (h : (signs.all fun c => !isIdentifierChar c) = true)
      (before after : List Char) : PassesOver name before signs after :=
    passesOver_of_no_word hname.toIsName (by simpa using h)
  have hinput (before after : List Char) : PassesOver name before ("Symbolic.input".toList ++
      (['(', '"'] ++ (written.toList ++ ['"', ')', ';', '\n']))) after :=
    .append (hname.passesOver (by decide) (endsWord_cons (by decide)))
      (.append (hsigns (by decide) _ _) (.append
        ((hbare hwritten).passes _ _ (calm_cons (by decide) (by decide) (by decide) (by decide) _))
        (hsigns (by decide) _ _)))
  have hequals (rest : List Char) : Calm ([' ', '=', ' '] ++ rest) := isSeparator_equals.calm rest
  intro before after
  unfold inputLine
  split
  · have hline : (type ++ " " ++ written ++ " = Symbolic.input(\"" ++ written ++ "\");").toList ++
        ['\n'] = (type ++ " " ++ written).toList ++ ([' ', '=', ' '] ++ ("Symbolic.input".toList ++
          (['(', '"'] ++ (written.toList ++ ['"', ')', ';', '\n'])))) := by simp
    rw [hline]
    refine .append (hdeclared.passes _ _ ?_) (.append (hsigns (by decide) _ _) (hinput _ _))
    rw [List.append_assoc]
    exact hequals _
  · have hline : (type ++ " " ++ written ++ " = (" ++ type ++ ") Symbolic.input(\"" ++ written ++
          "\");").toList ++ ['\n'] =
        (type ++ " " ++ written).toList ++ ([' ', '=', ' '] ++ (['('] ++ (type.toList ++
          ([')', ' '] ++ ("Symbolic.input".toList ++
            (['(', '"'] ++ (written.toList ++ ['"', ')', ';', '\n']))))))) := by simp
    rw [hline]
    refine .append (hdeclared.passes _ _ ?_) (.append (hsigns (by decide) _ _)
      (.append (hsigns (by decide) _ _) (.append ((hbare htype).passes _ _ (calm_closing _))
        (.append (hsigns (by decide) _ _) (hinput _ _)))))
    rw [List.append_assoc]
    exact hequals _

/-- The head of a block. -/
theorem passesLine_head (hname : IsHelperName name) {text : String} (h : Settled name text) :
    PassesLine name ("if (" ++ text ++ ") \x7b") := by
  intro before after
  have hline : ("if (" ++ text ++ ") \x7b").toList ++ ['\n'] =
      ['i', 'f'] ++ ([' ', '('] ++ (text.toList ++ ([')', ' ', '\x7b'] ++ ['\n']))) := by simp
  rw [hline]
  refine .append (hname.passesOver (by decide) (endsWord_cons (by decide)))
    (.append (passesOver_of_no_word hname.toIsName ?_)
      (.append (h.passes _ _ (calm_closing _)) (passesOver_lineEnd hname.toIsName ?_)))
  · simp only [List.forall_mem_cons]
    exact ⟨by decide, by decide, List.forall_mem_nil _⟩
  · simp only [List.forall_mem_cons]
    exact ⟨by decide, by decide, by decide, List.forall_mem_nil _⟩

theorem passesLine_check (hname : IsHelperName name) {text : String} (h : Settled name text)
    (check : String) (hcheck : IsBare check) : PassesLine name (check ++ "(" ++ text ++ ");") := by
  have hline : check ++ "(" ++ text ++ ");" = (check ++ "(" ++ text ++ ")") ++ ";" := by
    simp [← String.toList_inj]
  rw [hline]
  exact (h.list hname.toIsName check hcheck).passesLine hname.toIsName isSeparator_semicolon

theorem extends_line (hname : IsHelperName name) {out : SourceText} {text : String}
    (h : PassesLine name text) : out.Extends (PassesLine name) (out.line text) :=
  SourceText.extends_line (passesLine_of_no_underscore hname (by decide))
    (h.indented hname.toIsName out.level)

mutual

/-- The scan goes past the lines of a settled statement. -/
theorem extends_render (hname : IsHelperName name) : ∀ {out out' : SourceText} {s : Stmt},
    (Vocabulary.settled name).OfStmt s → s.render out = .ok out' →
      out.Extends (PassesLine name) out'
  | out, _, .input type written, h, hout => by
    obtain ⟨htype, hwritten⟩ : IsBare type ∧ IsBare written := Vocabulary.ofStmt_input.1 h
    cases hout
    exact extends_line hname (passesLine_inputLine hname htype hwritten)
  | out, _, .declare type written init, h, hout => by
    obtain ⟨⟨htype, hwritten⟩, hinit⟩ : (IsBare type ∧ IsBare written) ∧ init.IsSettled name :=
      Vocabulary.ofStmt_declare.1 h
    obtain ⟨text, htext, hout⟩ := bind_eq_ok_iff.1 hout
    cases hout
    have hblank : IsBare " " := by decide
    have hdeclared : Settled name (type ++ " " ++ written) :=
      settled_of_isBare hname.toIsName (by simp [htype, hwritten, hblank])
    exact extends_line hname ((hdeclared.separated hname.toIsName isSeparator_equals
      (hinit.render hname.toIsName htext)).passesLine hname.toIsName isSeparator_semicolon)
  | out, _, .assign target value, h, hout => by
    obtain ⟨htarget, hvalue⟩ : IsBare target ∧ value.IsSettled name :=
      Vocabulary.ofStmt_assign.1 h
    obtain ⟨text, htext, hout⟩ := bind_eq_ok_iff.1 hout
    cases hout
    exact extends_line hname (((settled_of_isBare hname.toIsName htarget).separated hname.toIsName
      isSeparator_equals (hvalue.render hname.toIsName htext)).passesLine hname.toIsName
      isSeparator_semicolon)
  | out, _, .assume condition, h, hout => by
    have hcondition : condition.IsSettled name := Vocabulary.ofStmt_assume.1 h
    obtain ⟨text, htext, hout⟩ := bind_eq_ok_iff.1 hout
    cases hout
    exact extends_line hname (passesLine_check hname (hcondition.render hname.toIsName htext)
      "assume" (by decide))
  | out, _, .assert condition, h, hout => by
    have hcondition : condition.IsSettled name := Vocabulary.ofStmt_assert.1 h
    obtain ⟨text, htext, hout⟩ := bind_eq_ok_iff.1 hout
    cases hout
    exact extends_line hname (passesLine_check hname (hcondition.render hname.toIsName htext)
      "assert" (by decide))
  | out, _, .perform call, h, hout => by
    have hcall : call.IsSettled name := Vocabulary.ofStmt_perform.1 h
    obtain ⟨text, htext, hout⟩ := bind_eq_ok_iff.1 hout
    cases hout
    exact extends_line hname ((hcall.render hname.toIsName htext).passesLine hname.toIsName
      isSeparator_semicolon)
  | out, _, .whenever condition body returns, h, hout => by
    obtain ⟨hcondition, hbody⟩ :
        condition.IsSettled name ∧ (Vocabulary.settled name).OfBlock body :=
      Vocabulary.ofStmt_whenever.1 h
    obtain ⟨text, htext, hout⟩ := bind_eq_ok_iff.1 hout
    obtain ⟨inner, hinner, hout⟩ := bind_eq_ok_iff.1 hout
    cases hout
    have hhead := passesLine_head hname (hcondition.renderBare hname.toIsName htext)
    have hinner := extends_renderAll hname hbody hinner
    have hlines : (out.line ("if (" ++ text ++ ") \x7b")).indent.Extends (PassesLine name)
        (if returns then inner.line "return;" else inner) := by
      split
      · exact hinner.trans (extends_line hname (passesLine_of_no_underscore hname (by decide)))
      · exact hinner
    exact ((extends_line hname hhead).trans hlines.nested).trans
      (extends_line hname (passesLine_of_no_underscore hname (by decide)))

theorem extends_renderAll (hname : IsHelperName name) : ∀ {out out' : SourceText}
    {body : List Stmt}, (Vocabulary.settled name).OfBlock body → renderAll out body = .ok out' →
      out.Extends (PassesLine name) out'
  | out, _, [], _, hout => by
    cases hout
    exact .refl out
  | out, out'', s :: rest, h, hout => by
    obtain ⟨hs, hrest⟩ := Vocabulary.ofBlock_cons.1 h
    obtain ⟨out', hout', hout''⟩ := bind_eq_ok_iff.1 hout
    exact (extends_render hname hs hout').trans (extends_renderAll hname hrest hout'')

end

end Stmt

/-! ## Methods -/

namespace Java

variable {name before after : List Char}

/-- The scan goes past another word. -/
theorem passesOver_word (hname : IsName name) {word : List Char}
    (hword : ∀ c ∈ word, isIdentifierChar c = true) (hne : word ≠ name)
    (hafter : ∀ c ∈ after.head?, isIdentifierChar c = false) :
    PassesOver name before word after := by
  refine passesOver_of_passesAt hname (fun _ _ d hd => .inr (hafter d hd)) fun u v huv => ?_
  cases v with
  | nil =>
    rw [List.append_nil] at huv
    obtain ⟨c, hc⟩ : ∃ c, c ∈ u.reverse.head? := by
      rw [List.head?_reverse]
      refine Option.isSome_iff_exists.1 (List.getLast?_isSome.2 ?_)
      rintro rfl
      exact hne huv
    have hmem : c ∈ word := by
      rw [huv]
      exact List.mem_append_left _ (List.mem_reverse.1 (List.mem_of_mem_head? hc))
    have hhead : c ∈ (u.reverse ++ before).head? := by
      rw [List.head?_append, Option.mem_def.1 hc]
      rfl
    refine .inl fun hstarts => ?_
    have hother := (hstarts c hhead).1
    rw [hword c hmem] at hother
    cases hother
  | cons d v =>
    have hd : isIdentifierChar d = true := hword d (by rw [huv]; simp)
    refine .inr fun list hlist => ?_
    rw [List.cons_append, trimStart,
      List.dropWhile_cons_of_neg (by simp [isBlank_of_isIdentifierChar hd])] at hlist
    cases hlist
    exact absurd hd (by decide)

/-- The characters before the name of a method in its first line. -/
def methodHead : List Char := ['p', 'u', 'b', 'l', 'i', 'c', ' ', 'v', 'o', 'i', 'd', ' ']

theorem passesOver_methodHead (hname : IsHelperName name) :
    PassesOver name before methodHead after := by
  refine hname.passesOver (by decide) ?_
  rintro _ ⟨⟩ _ _
  exact .inl (by decide)

/-- The first line of another method. -/
theorem passesLine_method (hname : IsHelperName name) {other : String}
    (hother : ∀ c ∈ other.toList, isIdentifierChar c = true) (hne : other.toList ≠ name) :
    PassesLine name ("public void " ++ other ++ "() \x7b") := by
  intro before after
  have hline : ("public void " ++ other ++ "() \x7b").toList ++ ['\n'] =
      methodHead ++ (other.toList ++ (['(', ')', ' ', '\x7b'] ++ ['\n'])) := by
    simp [methodHead]
  rw [hline]
  refine (passesOver_methodHead hname).append
    ((passesOver_word hname.toIsName hother hne ?_).append (passesOver_lineEnd hname.toIsName ?_))
  · rintro _ ⟨⟩
    decide
  · simp only [List.forall_mem_cons]
    exact ⟨by decide, by decide, by decide, by decide, List.forall_mem_nil _⟩

/-- The first line of the method declares it without parameters. -/
theorem parameterList?_method (hname : IsHelperName name) (before after : List Char) :
    parameterList? name before 0 (methodHead ++ (name ++ '(' :: ')' :: ' ' :: '\x7b' :: after)) =
      .ok (some []) := by
  have hpasses : PassesOver name before methodHead (name ++ '(' :: ')' :: ' ' :: '\x7b' :: after) :=
    passesOver_methodHead hname
  have hlist : argumentList? 0 .code (')' :: ' ' :: '\x7b' :: after) =
      some ([], ' ' :: '\x7b' :: after) := rfl
  rw [hpasses]
  refine parameterList?_of_isDeclaration hname.toIsName ?_ hlist rfl
  rintro _ ⟨⟩
  exact ⟨by decide, by decide⟩

theorem passesOver_lines {lines : List String} (h : ∀ line ∈ lines, PassesLine name line)
    (before after : List Char) :
    PassesOver name before (lines.flatMap fun line => line.toList ++ ['\n']) after := by
  induction lines generalizing before with
  | nil => rfl
  | cons first rest ih =>
    obtain ⟨hfirst, hrest⟩ := List.forall_mem_cons.1 h
    exact (hfirst _ _).append (ih hrest _)

/-- A method whose first line comes after lines that the scan goes past has no parameters. -/
theorem signatureOf_text {t : SourceText} {method : String} (hname : IsHelperName method.toList)
    {lines rest : List String} {level : Nat}
    (hlines : ∀ line ∈ lines, PassesLine method.toList line)
    (ht : t.lines = lines ++
      (SourceText.indentation level ++ ("public void " ++ method ++ "() \x7b")) :: rest) :
    signatureOf t.text method = .ok (method ++ "()") := by
  have hindentation (before after : List Char) :
      PassesOver method.toList before (SourceText.indentation level).toList after :=
    passesOver_of_no_word hname.toIsName fun c hc => by
      rw [SourceText.indentation, String.toList_ofList] at hc
      rw [List.eq_of_mem_replicate hc]
      decide
  have hfirst (after : List Char) : ("public void " ++ method ++ "() \x7b").toList ++ after =
      methodHead ++ (method.toList ++ '(' :: ')' :: ' ' :: '\x7b' :: after) := by
    simp [methodHead]
  have hlist : parameterList? method.toList [] 0 t.text.toList = .ok (some []) := by
    rw [SourceText.toList_text (by rw [ht]; simp), ht, List.flatMap_append, List.flatMap_cons,
      passesOver_lines hlines, String.toList_append, List.append_assoc, List.append_assoc,
      hindentation, hfirst, parameterList?_method hname]
  have hparameters : splitParameters (String.ofList []) method = .ok [] := rfl
  simp only [signatureOf, hlist, hparameters, bind, Except.bind, pure, Except.pure]
  rw [List.map_nil, String.intercalate_nil]
  simp [← String.toList_inj]

end Java

/-! ## Classes -/

namespace TestClass

variable {name : List Char} {c : TestClass}

/-- The names of the class are bare, those of its methods are identifiers, and its statements are
settled. -/
structure IsSettled (name : List Char) (c : TestClass) : Prop where
  package : IsBare c.package
  className : IsBare c.name
  imports : ∀ i ∈ c.imports, IsBare i
  identifiers : ∀ m ∈ c.methods, ∀ ch ∈ m.name.toList, isIdentifierChar ch = true
  methods : ∀ m ∈ c.methods, (Vocabulary.settled name).OfBlock m.body
  main : (Vocabulary.settled name).OfBlock c.main

theorem extends_renderHead (hname : IsHelperName name) (h : c.IsSettled name) :
    SourceText.empty.Extends (PassesLine name) c.renderHead := by
  have hblank (out : SourceText) : out.Extends (PassesLine name) out.blank :=
    SourceText.extends_blank (passesLine_of_no_underscore hname (by decide))
  have hentry (out : SourceText) {keyword written : String} (hkeyword : IsBare keyword)
      (hwritten : IsBare written) :
      out.Extends (PassesLine name) (out.line (keyword ++ written ++ ";")) :=
    Stmt.extends_line hname ((settled_of_isBare hname.toIsName
      (isBare_append.2 ⟨hkeyword, hwritten⟩)).passesLine hname.toIsName Stmt.isSeparator_semicolon)
  have himports (out : SourceText) {imports : List String} (hi : ∀ i ∈ imports, IsBare i) :
      out.Extends (PassesLine name)
        (imports.foldl (fun out i => out.line ("import " ++ i ++ ";")) out) := by
    induction imports generalizing out with
    | nil => exact .refl out
    | cons i rest ih =>
      obtain ⟨hi, hrest⟩ := List.forall_mem_cons.1 hi
      exact (hentry out (by decide) hi).trans (ih _ hrest)
  have hpackage : SourceText.empty.Extends (PassesLine name)
      (if c.package == "" then SourceText.empty
        else (SourceText.empty.line ("package " ++ c.package ++ ";")).blank) := by
    split
    · exact .refl _
    · exact (hentry _ (by decide) h.package).trans (hblank _)
  unfold renderHead
  dsimp only
  split
  · exact hpackage.trans (himports _ h.imports)
  · exact (hpackage.trans (himports _ h.imports)).trans (hblank _)

theorem extends_classLine (hname : IsHelperName name) (h : c.IsSettled name) (out : SourceText) :
    out.Extends (PassesLine name) (out.line ("public class " ++ c.name ++ " \x7b")) := by
  refine Stmt.extends_line hname fun before after => ?_
  have hline : ("public class " ++ c.name ++ " \x7b").toList ++ ['\n'] =
      ("public class " ++ c.name).toList ++ ([' ', '\x7b'] ++ ['\n']) := by simp
  have hbare : IsBare ("public class " ++ c.name) := isBare_append.2 ⟨by decide, h.className⟩
  have hsigns : ∀ c ∈ [' ', '\x7b'], isIdentifierChar c = false := by
    simp only [List.forall_mem_cons]
    exact ⟨by decide, by decide, List.forall_mem_nil _⟩
  have htrim : trimStart ([' ', '\x7b'] ++ ['\n'] ++ after) = '\x7b' :: '\n' :: after := rfl
  rw [hline]
  refine (hbare.passesOver hname.toIsName ⟨?_, ?_⟩).append
    (passesOver_lineEnd hname.toIsName hsigns)
  · rintro _ ⟨⟩
    decide
  · rw [htrim]
    simp

/-- The scan goes past the body of a method. -/
theorem extends_methodBody (hname : IsHelperName name) {m : TestMethod}
    (hbody : (Vocabulary.settled name).OfBlock m.body) {out out' : SourceText}
    (hout : renderMethod out m = .ok out') :
    ((out.line "@Test").line ("public void " ++ m.name ++ "() \x7b")).Extends (PassesLine name)
      out' := by
  obtain ⟨body, hshared, hout⟩ := bind_eq_ok_iff.1 hout
  obtain ⟨inner, hinner, hout⟩ := bind_eq_ok_iff.1 hout
  cases hout
  have hlines := Stmt.extends_renderAll hname (Vocabulary.settled_shareCalls hbody hshared) hinner
  exact hlines.nested.trans
    (Stmt.extends_line hname (passesLine_of_no_underscore hname (by decide)))

theorem extends_testLine (hname : IsHelperName name) (out : SourceText) :
    out.Extends (PassesLine name) (out.blank.line "@Test") :=
  (SourceText.extends_blank (passesLine_of_no_underscore hname (by decide))).trans
    (Stmt.extends_line hname (passesLine_of_no_underscore hname (by decide)))

/-- A method of another name with a settled body. -/
structure IsOther (name : List Char) (m : TestMethod) : Prop where
  body : (Vocabulary.settled name).OfBlock m.body
  identifier : ∀ ch ∈ m.name.toList, isIdentifierChar ch = true
  differs : m.name.toList ≠ name

/-- The methods of a settled class before and after one of them. -/
theorem IsSettled.isOther {m : TestMethod} {earlier later : List TestMethod}
    (h : c.IsSettled m.name.toList) (hnames : (c.methods.map (·.name)).Nodup)
    (hmethods : c.methods = earlier ++ m :: later) :
    ∀ other ∈ earlier ++ later, IsOther m.name.toList other := by
  intro other hother
  have hmem : other ∈ c.methods := by
    rw [hmethods, List.mem_append, List.mem_cons]
    exact (List.mem_append.1 hother).imp_right .inr
  refine ⟨h.methods other hmem, h.identifiers other hmem, fun heq => ?_⟩
  have heq : other.name = m.name := String.toList_inj.1 heq
  rw [hmethods, List.map_append, List.map_cons, List.nodup_middle, List.nodup_cons,
    ← List.map_append, ← heq] at hnames
  exact hnames.1 (List.mem_map_of_mem hother)

/-- The scan goes past other methods. -/
theorem extends_renderMethods (hname : IsHelperName name) {methods : List TestMethod}
    (h : ∀ m ∈ methods, IsOther name m) {out out' : SourceText}
    (hout : renderMethods out methods = .ok out') : out.Extends (PassesLine name) out' := by
  induction methods generalizing out with
  | nil =>
    cases hout
    exact .refl _
  | cons m rest ih =>
    obtain ⟨hm, hrest⟩ := List.forall_mem_cons.1 h
    obtain ⟨first, hfirst, hout⟩ := bind_eq_ok_iff.1 hout
    have hhead : (out.blank.line "@Test").Extends (PassesLine name)
        ((out.blank.line "@Test").line ("public void " ++ m.name ++ "() \x7b")) :=
      Stmt.extends_line hname (passesLine_method hname hm.identifier hm.differs)
    have hmethod := (extends_testLine hname out).trans hhead
    exact (hmethod.trans (extends_methodBody hname hm.body hfirst)).trans (ih hrest hout)

theorem renderMethods_append (out : SourceText) (methods rest : List TestMethod) :
    renderMethods out (methods ++ rest) = (do
      let out ← renderMethods out methods
      renderMethods out rest) := by
  induction methods generalizing out with
  | nil => rfl
  | cons m methods ih => simp only [List.cons_append, renderMethods, ih, bind_assoc]

/-- The text of a settled class declares its methods without parameters. -/
theorem signatureOf_render {text : String} {m : TestMethod} (hname : IsHelperName m.name.toList)
    (h : c.IsSettled m.name.toList) (hnames : (c.methods.map (·.name)).Nodup)
    (hm : m ∈ c.methods) (htext : c.render = .ok text) :
    signatureOf text m.name = .ok (m.name ++ "()") := by
  obtain ⟨earlier, later, hmethods⟩ := List.append_of_mem hm
  obtain ⟨hearlier, hlater⟩ := List.forall_mem_append.1 (h.isOther hnames hmethods)
  obtain ⟨methods, hrendered, htext⟩ := bind_eq_ok_iff.1 htext
  obtain ⟨main, hmain, htext⟩ := bind_eq_ok_iff.1 htext
  cases htext
  rw [hmethods, renderMethods_append] at hrendered
  obtain ⟨first, hfirst, hrendered⟩ := bind_eq_ok_iff.1 hrendered
  obtain ⟨second, hsecond, hrest⟩ := bind_eq_ok_iff.1 hrendered
  obtain ⟨test, htest⟩ : ∃ test, test = first.blank.line "@Test" := ⟨_, rfl⟩
  have hline : (test.line ("public void " ++ m.name ++ "() \x7b")).lines = test.lines ++
      [SourceText.indentation test.level ++ ("public void " ++ m.name ++ "() \x7b")] :=
    test.lines_line (by simp [← String.toList_inj])
  -- the lines before the method's first one are passed
  have hbefore : ∀ line ∈ test.lines, PassesLine m.name.toList line := by
    have hhead := (extends_renderHead hname h).trans (extends_classLine hname h _)
    have hmethods := extends_renderMethods hname hearlier hfirst
    rw [htest]
    exact (extends_testLine hname first).forall_mem
      (hmethods.forall_mem (hhead.forall_mem (List.forall_mem_nil _)))
  -- and it does not matter what comes after it
  have hmethod := extends_methodBody hname (h.methods m hm) hsecond
  have hmainHead : methods.Extends (PassesLine m.name.toList)
      (methods.blank.line "public static void main(String[] args) \x7b") :=
    (SourceText.extends_blank (passesLine_of_no_underscore hname (by decide))).trans
      (Stmt.extends_line hname (passesLine_of_no_underscore hname (by decide)))
  have hmain := (Stmt.extends_renderAll hname h.main hmain).nested
  obtain ⟨-, more, hmore, -⟩ := ((hmethod.trans (extends_renderMethods hname hlater hrest)).trans
    hmainHead).trans hmain
  obtain ⟨methodsEnd, hmethodsEnd⟩ : ∃ line, (main.dedent.line "\x7d").lines =
      main.dedent.lines ++ [line] := ⟨_, main.dedent.lines_line (by decide)⟩
  obtain ⟨classEnd, hclassEnd⟩ : ∃ line, ((main.dedent.line "\x7d").dedent.line "\x7d").lines =
      (main.dedent.line "\x7d").lines ++ [line] :=
    ⟨_, (main.dedent.line "\x7d").dedent.lines_line (by decide)⟩
  have hclass : ((main.dedent.line "\x7d").dedent.line "\x7d").lines = test.lines ++
      (SourceText.indentation test.level ++ ("public void " ++ m.name ++ "() \x7b")) ::
        (more ++ [methodsEnd, classEnd]) := by
    rw [hclassEnd, hmethodsEnd, hmore, ← htest, hline]
    simp
  exact signatureOf_text hname hbefore hclass

end TestClass

end ContractTests
