import ContractTests.Java.Expression
import ContractTests.Proofs.Expr.Traversal
import ContractTests.Proofs.Java.Reading
import ContractTests.Proofs.Java.Words

/-! # Texts of phrases

A text `Java.Reads` as a tree if its tokens are a phrase of a kind and are read as the tree. There
is one lemma for each form of text that is written for an expression: parentheses, operators, calls
and the calls of the library that stand for collections and objects.
-/

set_option autoImplicit false

namespace ContractTests.Java

/-- An operand that does not start with a plus or minus. -/
structure IsUnsigned (ts : List Token) (tree : Tree) : Prop extends IsOperand ts tree where
  unsigned : Opens Token.opensOperand ts

theorem IsPrimary.unsigned {ts : List Token} {tree : Tree} (h : IsPrimary ts tree) :
    IsUnsigned ts tree :=
  ⟨h.operand, h.opens⟩

/-- A primary that a point may follow. -/
structure IsReceiver (ts : List Token) (tree : Tree) : Prop extends IsPrimary ts tree where
  point : ∀ t ∈ ts.getLast?, t.takesPoint = false

theorem point_of_getLast? {ts : List Token} {t : Token} (hlast : ts.getLast? = some t)
    (ht : t.takesPoint = false) : ∀ u ∈ ts.getLast?, u.takesPoint = false := by
  rw [hlast]
  rintro _ ⟨⟩
  exact ht

/-- The tokens of the text are a phrase of the kind `P`, and `tree` is what is read. -/
def Reads {τ : Type} (α : Alphabet) (P : List Token → τ → Prop) (text : String) (tree : τ) : Prop :=
  ∃ ts, Lexes α text.toList ts ∧ P ts tree

variable {α : Alphabet} {text text' : String} {tree tree' : Tree} {τ υ : Type}
  {P : List Token → τ → Prop} {Q : List Token → υ → Prop}

theorem Reads.imp {t : τ} {u : υ} (h : Reads α P text t) (hPQ : ∀ {ts}, P ts t → Q ts u) :
    Reads α Q text u :=
  Exists.imp (fun _ ⟨hts, hP⟩ => ⟨hts, hPQ hP⟩) h

theorem Reads.of_toList_eq {t : τ} (h : Reads α P text t) (heq : text.toList = text'.toList) :
    Reads α P text' t :=
  String.toList_inj.1 heq ▸ h

theorem Reads.primary (h : Reads α IsReceiver text tree) : Reads α IsPrimary text tree :=
  h.imp IsReceiver.toIsPrimary

theorem Reads.operand (h : Reads α IsPrimary text tree) : Reads α IsOperand text tree :=
  h.imp IsPrimary.operand

theorem Reads.expression (h : Reads α IsOperand text tree) : Reads α IsExpression text tree :=
  h.imp IsOperand.expression

/-- The text of an expression is read as its tree. -/
theorem Reads.read_eq (h : Reads α IsExpression text tree) : read α text = some tree := by
  obtain ⟨ts, hts, hreads⟩ := h
  have hexpression := hreads.reads (4 * (ts.length + 1)) [] startsWith_nil (by omega)
  rw [List.append_nil] at hexpression
  have hlex : lex α text.toList = some ts := hts
  simp [read, hlex, hexpression]

/-! ## Operators -/

theorem lexes_closing {c : Char} {t : Token} (hc : isSeparator c = true)
    (ht : symbolToken? [c] = some t) : Lexes α [c] [t] :=
  lexes_nil.separator hc ht

theorem Reads.parenthesized (h : Reads α IsExpression text tree) :
    Reads α IsReceiver ("(" ++ text ++ ")") tree := by
  obtain ⟨ts, hts, hreads⟩ := h
  have hclose := hts.append (lexes_closing (α := α) (c := ')') rfl rfl) rfl
  refine ⟨_, ?_, hreads.parenthesized,
    point_of_getLast? (t := .closing .round) (by simp [List.getLast?_cons]) rfl⟩
  simpa using hclose.separator (c := '(') rfl rfl

theorem Reads.binary (op : BinaryOp) (h : Reads α IsOperand text tree)
    (h' : Reads α IsOperand text' tree') :
    Reads α IsExpression (text ++ " " ++ op.symbol ++ " " ++ text') (.binary op tree tree') := by
  obtain ⟨ts, hts, hreads⟩ := h
  obtain ⟨us, hus, hreads'⟩ := h'
  refine ⟨_, ?_, hreads.binary op hreads'⟩
  have hright := (lexes_symbol op).append hus.blank rfl
  simpa using hts.append hright.blank rfl

theorem Reads.conditional {text'' : String} {tree'' : Tree} (h : Reads α IsOperand text tree)
    (h' : Reads α IsOperand text' tree') (h'' : Reads α IsOperand text'' tree'') :
    Reads α IsExpression (text ++ " ? " ++ text' ++ " : " ++ text'')
      (.conditional tree tree' tree'') := by
  obtain ⟨ts, hts, hreads⟩ := h
  obtain ⟨us, hus, hreads'⟩ := h'
  obtain ⟨vs, hvs, hreads''⟩ := h''
  refine ⟨_, ?_, hreads.conditional hreads' hreads''⟩
  have hquestion : Lexes α ['?'] [.question] := rfl
  have hcolon : Lexes α [':'] [.colon] := rfl
  have hno := hcolon.append hvs.blank rfl
  have hyes := hquestion.append (hus.append hno.blank rfl).blank rfl
  simpa using hts.append hyes.blank rfl

/-- The sign is the first token. -/
theorem Reads.headed (op : UnaryOp) (h : Reads α IsPrimary text tree) :
    Reads α (fun ts t => IsOperand ts t ∧ ts.head? = some (signToken op)) (op.symbol ++ text)
      (.unary op tree) := by
  obtain ⟨ts, hts, hreads⟩ := h
  refine ⟨_, ?_, hreads.operand.signed op, rfl⟩
  obtain ⟨t, ht, hopens⟩ := hreads.opens
  obtain ⟨us, rfl⟩ := List.head?_eq_some_iff.1 ht
  rw [String.toList_append]
  exact hts.signed op fun op' heq => by simp [heq, Token.opensOperand] at hopens

theorem Reads.signed (op : UnaryOp) (h : Reads α IsPrimary text tree) :
    Reads α IsOperand (op.symbol ++ text) (.unary op tree) :=
  (h.headed op).imp And.left

theorem Reads.negation (h : Reads α IsPrimary text tree) :
    Reads α IsUnsigned (UnaryOp.not.symbol ++ text) (.unary .not tree) :=
  (h.headed .not).imp fun ⟨hreads, hhead⟩ => ⟨hreads, _, hhead, rfl⟩

/-- A cast to a primitive type stands before every operand, one to another type before those
without a sign. -/
theorem Reads.cast {type : List Token} {written : String} (htype : Lexes α written.toList type)
    (h : isPrimitive type = true ∧ Reads α IsOperand text tree ∨
      isReferenceType type = true ∧ Reads α IsUnsigned text tree) :
    Reads α IsOperand ("(" ++ written ++ ") " ++ text) (.cast type tree) := by
  obtain ⟨ts, hts, hreads, hopens⟩ : ∃ ts, Lexes α text.toList ts ∧ IsOperand ts tree ∧
      (isPrimitive type = true ∨
        isReferenceType type = true ∧ Opens Token.opensOperand ts) := by
    rcases h with ⟨hprimitive, ts, hts, hreads⟩ | ⟨hreference, ts, hts, hreads⟩
    · exact ⟨ts, hts, hreads, .inl hprimitive⟩
    · exact ⟨ts, hts, hreads.toIsOperand, .inr ⟨hreference, hreads.unsigned⟩⟩
  refine ⟨_, ?_, hreads.cast hopens⟩
  have hclose := hts.blank.separator (c := ')') rfl rfl
  simpa using (htype.append hclose rfl).separator (c := '(') rfl rfl

/-! ## Suffixes -/

theorem Reads.field {name : String} (h : Reads α IsReceiver text tree)
    (hname : α.isIdentifier name = true) :
    Reads α IsReceiver (text ++ "." ++ name) (.field tree name) := by
  obtain ⟨ts, hts, hreads⟩ := h
  refine ⟨_, ?_, hreads.toIsPrimary.field name,
    point_of_getLast? (t := .identifier name) (by simp) rfl⟩
  have hfield := (lexes_identifier hname).separator (c := '.') rfl rfl
  simpa using hts.append_point hfield hreads.point

theorem Reads.index (h : Reads α IsPrimary text tree) (h' : Reads α IsExpression text' tree') :
    Reads α IsReceiver (text ++ "[" ++ text' ++ "]") (.index tree tree') := by
  obtain ⟨ts, hts, hreads⟩ := h
  obtain ⟨us, hus, hreads'⟩ := h'
  refine ⟨_, ?_, hreads.index hreads',
    point_of_getLast? (t := .closing .square) (by simp [List.getLast?_cons]) rfl⟩
  have hclose := hus.append (lexes_closing (α := α) (c := ']') rfl rfl) rfl
  simpa using hts.append (hclose.separator (c := '[') rfl rfl) rfl

/-! ## Names and literals -/

theorem reads_name {name : String} (hname : α.isIdentifier name = true) :
    Reads α IsReceiver name (.name name) :=
  ⟨_, lexes_identifier hname, isPrimary_name name, point_of_getLast? rfl rfl⟩

theorem reads_self : Reads α IsReceiver "this" .self :=
  ⟨_, lexes_ascii "this" (by decide), isPrimary_self, point_of_getLast? rfl rfl⟩

theorem reads_literal (hts : Lexes α text.toList [.literal text]) :
    Reads α IsReceiver text (.literal text) :=
  ⟨_, hts, isPrimary_literal text, point_of_getLast? rfl rfl⟩

theorem reads_number (hts : Lexes α text.toList [.number text]) :
    Reads α IsPrimary text (.literal text) :=
  ⟨_, hts, isPrimary_number text⟩

/-- A point may follow a number with a point or a suffix. -/
theorem reads_closedNumber (hts : Lexes α text.toList [.number text])
    (htext : '.' ∈ text.toList ∨ 'L' ∈ text.toList) : Reads α IsReceiver text (.literal text) :=
  ⟨_, hts, isPrimary_number text, point_of_getLast? rfl (goesOn_point_of_mem htext)⟩

/-! ## Lists -/

theorem reads_elements {first : String} {firstTree : Tree} {texts : List String}
    {trees : List Tree} (hfirst : Reads α IsExpression first firstTree)
    (h : List.Forall₂ (Reads α IsExpression) texts trees) :
    Reads α IsElements (commaSeparated (first :: texts)) (firstTree :: trees) := by
  induction h generalizing first firstTree with
  | nil =>
    rw [commaSeparated, String.intercalate_singleton]
    exact hfirst.imp IsExpression.singleton
  | cons hsecond _ ih =>
    obtain ⟨ts, hts, hreads⟩ := hfirst
    obtain ⟨us, hus, hothers⟩ := ih hsecond
    refine ⟨_, ?_, hreads.cons hothers⟩
    have hcomma := hus.blank.separator (c := ',') rfl rfl
    simpa [commaSeparated, String.intercalate_cons_cons] using hts.append hcomma rfl

theorem reads_commaSeparated {texts : List String} {trees : List Tree}
    (h : List.Forall₂ (Reads α IsExpression) texts trees) :
    Reads α IsList (commaSeparated texts) trees := by
  cases h with
  | nil => exact ⟨[], lexes_nil, isList_nil⟩
  | cons hfirst hothers => exact (reads_elements hfirst hothers).imp IsElements.list

section Calls

variable {texts : List String} {args : List Tree} {name : String}

theorem reads_call (hname : α.isIdentifier name = true)
    (h : List.Forall₂ (Reads α IsExpression) texts args) :
    Reads α IsReceiver (name ++ "(" ++ commaSeparated texts ++ ")") (.call name args) := by
  obtain ⟨ts, hts, hlist⟩ := reads_commaSeparated h
  refine ⟨_, ?_, hlist.call name,
    point_of_getLast? (t := .closing .round) (by simp [List.getLast?_cons]) rfl⟩
  have hclose := hts.append (lexes_closing (α := α) (c := ')') rfl rfl) rfl
  simpa using (lexes_identifier hname).append (hclose.separator (c := '(') rfl rfl) rfl

theorem Reads.send (hreceiver : Reads α IsReceiver text tree) (hname : α.isIdentifier name = true)
    (h : List.Forall₂ (Reads α IsExpression) texts args) :
    Reads α IsReceiver (text ++ "." ++ name ++ "(" ++ commaSeparated texts ++ ")")
      (.send tree name args) := by
  obtain ⟨ts, hts, hreads⟩ := hreceiver
  obtain ⟨us, hus, hlist⟩ := reads_commaSeparated h
  refine ⟨_, ?_, hreads.toIsPrimary.send name hlist,
    point_of_getLast? (t := .closing .round) (by simp [List.getLast?_cons]) rfl⟩
  have hclose := hus.append (lexes_closing (α := α) (c := ')') rfl rfl) rfl
  have hcall := (lexes_identifier hname).append (hclose.separator (c := '(') rfl rfl) rfl
  simpa using hts.append_point (hcall.separator (c := '.') rfl rfl) hreads.point

/-- A static method of the library. -/
theorem reads_library {className : String} (hclass : α.isIdentifier className = true)
    (hname : α.isIdentifier name = true) (h : List.Forall₂ (Reads α IsExpression) texts args) :
    Reads α IsReceiver (className ++ "." ++ name ++ "(" ++ commaSeparated texts ++ ")")
      (.send (.name className) name args) :=
  (reads_name hclass).send hname h

/-- A new object of a class. -/
theorem reads_object {type : List Token} {written : String} (hwritten : Lexes α written.toList type)
    (htype : isCreatable type = true) (h : List.Forall₂ (Reads α IsExpression) texts args) :
    Reads α IsReceiver ("new " ++ written ++ "(" ++ commaSeparated texts ++ ")")
      (.create type args) := by
  obtain ⟨ts, hts, hlist⟩ := reads_commaSeparated h
  refine ⟨_, ?_, hlist.create (.inl ⟨rfl, htype⟩),
    point_of_getLast? (t := .closing .round) (by simp [List.getLast?_cons]) rfl⟩
  have hclose := hts.append (lexes_closing (α := α) (c := ')') rfl rfl) rfl
  have hobject := hwritten.append (hclose.separator (c := '(') rfl rfl) rfl
  have hnew : Lexes α "new".toList [.keyword "new"] := lexes_ascii _ (by decide)
  simpa using hnew.append hobject.blank rfl

/-- A new array with its elements. -/
theorem reads_array {type : List Token} {element : List Char}
    (helement : Lexes α (element ++ ['[', ']']) type) (htype : isArrayType type = true)
    (h : List.Forall₂ (Reads α IsExpression) texts args) :
    Reads α IsReceiver
      ("new " ++ String.ofList element ++ "[]\x7b" ++ commaSeparated texts ++ "\x7d")
      (.create type args) := by
  obtain ⟨ts, hts, hlist⟩ := reads_commaSeparated h
  refine ⟨_, ?_, hlist.create (.inr ⟨rfl, htype⟩),
    point_of_getLast? (t := .closing .curly) (by simp [List.getLast?_cons]) rfl⟩
  have hclose := hts.append (lexes_closing (α := α) (c := '\x7d') rfl rfl) rfl
  have harray := helement.append (hclose.separator (c := '\x7b') rfl rfl) rfl
  have hnew : Lexes α "new".toList [.keyword "new"] := lexes_ascii _ (by decide)
  simpa using hnew.append harray.blank rfl

end Calls

end ContractTests.Java
