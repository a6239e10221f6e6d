import ContractTests.Proofs.Java.Declaration
import ContractTests.Proofs.Java.ParameterList

/-! # Declared parameters

`Java.ParameterDeclaration` is a parameter in the way a method declares it: modifiers, a type and a
name. All brackets and literals of its text are closed in it and no white space stands around it
(`ParameterDeclaration.isClosed_text`, `ParameterDeclaration.isTrimmed_text`), so that a list of such
parameters is split into them.
-/

set_option autoImplicit false

namespace ContractTests.Java

open Text Nesting

/-! ## The grammar -/

/-- White space between two words. -/
structure Gap where
  text : List Char
  nonempty : text ≠ []
  blank : IsBlankText text

structure Identifier where
  text : List Char
  isName : IsName text

/-- Identifiers with dots between them. -/
structure QualifiedName where
  first : Identifier
  others : List Identifier

def QualifiedName.text (name : QualifiedName) : List Char :=
  name.first.text ++ name.others.flatMap fun other => '.' :: other.text

instance decidableForallPrefix {p : List Char → Prop} [DecidablePred p] (text : List Char) :
    Decidable (∀ u, u <+: text → p u) :=
  decidable_of_iff (∀ k < text.length + 1, p (text.take k))
    ⟨fun h u hu => by
      rw [List.prefix_iff_eq_take.1 hu]
      exact h _ (Nat.lt_succ_of_le hu.length_le), fun h k _ => h _ (List.take_prefix k text)⟩

/-- What stands in parentheses after the name of an annotation: the parentheses in it are balanced
outside literals, and its literals are closed. White space may precede it. -/
structure Arguments where
  space : List Char
  blank : IsBlankText space
  list : List Char
  nested : ∀ u, u <+: list → 0 ≤ (start.run u).paren
  balanced : (start.run list).paren = 0
  closed : (start.run list).state = .code

def Arguments.text (arguments : Arguments) : List Char :=
  arguments.space ++ '(' :: (arguments.list ++ [')'])

inductive Modifier where
  | final
  | annotated (name : QualifiedName) (arguments : Option Arguments)

def Modifier.text : Modifier → List Char
  | .final => "final".toList
  | .annotated name arguments => '@' :: (name.text ++ arguments.elim [] Arguments.text)

/-- What stands in angle brackets after the name of a type: the angle brackets in it are balanced, and
it has neither quotes nor parentheses nor white space before a square bracket. -/
structure TypeArguments where
  list : List Char
  bare : ∀ c ∈ list, isBareChar c = true
  nested : ∀ u, u <+: list → 0 ≤ (start.run u).angle
  balanced : (start.run list).angle = 0
  compact : list.IsChain fun c d => d = '[' → isBlank c = false

def TypeArguments.text (arguments : TypeArguments) : List Char :=
  '<' :: (arguments.list ++ ['>'])

/-- A type, with the white space before each pair of its square brackets. -/
structure DeclaredType where
  name : QualifiedName
  notFinal : name.text ≠ "final".toList
  arguments : Option TypeArguments
  dimensions : List (List Char)
  blank : ∀ space ∈ dimensions, IsBlankText space

namespace DeclaredType

def argumentText (type : DeclaredType) : List Char := type.arguments.elim [] TypeArguments.text

def text (type : DeclaredType) : List Char :=
  type.name.text ++ type.argumentText ++ type.dimensions.flatMap fun space => space ++ ['[', ']']

/-- The type as a signature has it: without white space before square brackets, strings with their
package. -/
def spelled (type : DeclaredType) : List Char :=
  (if type.name.text = "String".toList ∧ type.arguments = none then "java.lang.String".toList
    else type.name.text) ++ type.argumentText ++ type.dimensions.flatMap fun _ => ['[', ']']

end DeclaredType

structure ParameterDeclaration where
  /-- Each with the white space after it. -/
  modifiers : List (Modifier × Gap)
  type : DeclaredType
  gap : Gap
  name : Identifier

namespace ParameterDeclaration

/-- The type and the name. -/
def bareText (parameter : ParameterDeclaration) : List Char :=
  parameter.type.text ++ parameter.gap.text ++ parameter.name.text

def text (parameter : ParameterDeclaration) : List Char :=
  (parameter.modifiers.flatMap fun m => m.1.text ++ m.2.text) ++ parameter.bareText

end ParameterDeclaration

variable {n : Nesting} {c closing : Char} {text after : List Char} {state : Lexical}

/-! ## Characters of names -/

/-- A character of a qualified name. -/
def isNameChar (c : Char) : Bool := isIdentifierChar c || c == '.'

theorem ne_of_isNameChar (h : isNameChar c = true) {d : Char} (hd : isNameChar d = false) : c ≠ d :=
  ne_of_apply_ne isNameChar (by simp [h, hd])

theorem isBlank_of_isNameChar (h : isNameChar c = true) : isBlank c = false := by
  simp only [isNameChar, Bool.or_eq_true, beq_iff_eq] at h
  rcases h with h | rfl
  · exact isBlank_of_isIdentifierChar h
  · decide

theorem isNameChar_of_isBlank (h : isBlank c = true) : isNameChar c = false :=
  Bool.eq_false_iff.2 fun hname => by simp [isBlank_of_isNameChar hname] at h

theorem Identifier.isNameChar (identifier : Identifier) :
    ∀ c ∈ identifier.text, Java.isNameChar c = true := fun c hc => by
  simp [Java.isNameChar, identifier.isName.chars c hc]

theorem Identifier.exists_cons (identifier : Identifier) :
    ∃ c rest, identifier.text = c :: rest ∧ isIdentifierChar c = true := by
  obtain ⟨c, rest, heq⟩ := List.exists_cons_of_ne_nil identifier.isName.nonempty
  exact ⟨c, rest, heq, identifier.isName.chars c (by rw [heq]; exact List.mem_cons_self)⟩

theorem QualifiedName.isNameChar (name : QualifiedName) :
    ∀ c ∈ name.text, Java.isNameChar c = true := by
  simp only [text, List.mem_append, List.mem_flatMap, List.mem_cons]
  rintro c (hc | ⟨other, _, rfl | hc⟩)
  · exact name.first.isNameChar c hc
  · decide
  · exact other.isNameChar c hc

theorem QualifiedName.exists_cons (name : QualifiedName) :
    ∃ c rest, name.text = c :: rest ∧ isIdentifierChar c = true := by
  obtain ⟨c, rest, heq, hc⟩ := name.first.exists_cons
  exact ⟨c, rest ++ name.others.flatMap fun other => '.' :: other.text, by rw [text, heq]; rfl, hc⟩

/-! ## Bare texts -/

/-- What a character adds to the depth of angle brackets. -/
def angleStep (c : Char) : Int := if c = '<' then 1 else if c = '>' then -1 else 0

theorem next_bare (h : isBareChar c = true) (angle : Int) :
    next ⟨0, angle, .code⟩ c = ⟨0, angle + angleStep c, .code⟩ := by
  simp only [isBareChar, Bool.and_eq_true, Bool.not_eq_true', bne_iff_ne] at h
  obtain ⟨⟨hquote, hopen⟩, hclose⟩ := h
  simp only [next, Lexical.covers, hquote, Bool.false_eq_true, if_false, hopen, hclose, and_true,
    angleStep]
  repeat' split
  all_goals simp [Int.sub_eq_add_neg]

/-- In further angle brackets a bare text adds as much to the depth. -/
theorem run_bare (h : ∀ c ∈ text, isBareChar c = true) (angle outer : Int) :
    run ⟨0, outer + angle, .code⟩ text = ⟨0, outer + (run ⟨0, angle, .code⟩ text).angle, .code⟩ := by
  induction text generalizing angle with
  | nil => rfl
  | cons c text ih =>
    obtain ⟨hc, htext⟩ := List.forall_mem_cons.1 h
    rw [run_cons, run_cons, next_bare hc, next_bare hc, Int.add_assoc, ih htext]

/-- A bare character that is neither an angle bracket nor a comma. -/
def isPlainChar (c : Char) : Bool := isBareChar c && c != '<' && c != '>' && c != ','

theorem isBareChar_of_isPlainChar (h : isPlainChar c = true) : isBareChar c = true := by
  simp only [isPlainChar, Bool.and_eq_true] at h
  exact h.1.1.1

theorem isClosed_of_plain (h : ∀ c ∈ text, isPlainChar c = true) : IsClosed text := by
  refine isClosed_of_forall fun c hc => ?_
  have hplain := h c hc
  simp only [isPlainChar, Bool.and_eq_true, bne_iff_ne, and_assoc] at hplain
  obtain ⟨hbare, hless, hgreater, hcomma⟩ := hplain
  refine ⟨?_, hcomma⟩
  rw [start, next_bare hbare, angleStep, if_neg hless, if_neg hgreater, Int.add_zero]

theorem isPlainChar_of_isNameChar (h : isNameChar c = true) : isPlainChar c = true := by
  have hne {d : Char} (hd : isNameChar d = false) : c ≠ d := ne_of_isNameChar h hd
  have hdouble : c ≠ '"' := hne (by decide)
  have hsingle : c ≠ '\x27' := hne (by decide)
  have hopen : c ≠ '(' := hne (by decide)
  have hclose : c ≠ ')' := hne (by decide)
  have hless : c ≠ '<' := hne (by decide)
  have hgreater : c ≠ '>' := hne (by decide)
  have hcomma : c ≠ ',' := hne (by decide)
  simp [isPlainChar, isBareChar, isQuote, hdouble, hsingle, hopen, hclose, hless, hgreater, hcomma]

theorem isPlainChar_of_isBlank (h : isBlank c = true) : isPlainChar c = true := by
  have hne {d : Char} (hd : isBlank d = false) : c ≠ d := ne_of_isBlank h hd
  have hquote : isQuote c = false := isQuote_of_isBlank h
  have hopen : c ≠ '(' := hne (by decide)
  have hclose : c ≠ ')' := hne (by decide)
  have hless : c ≠ '<' := hne (by decide)
  have hgreater : c ≠ '>' := hne (by decide)
  have hcomma : c ≠ ',' := hne (by decide)
  simp [isPlainChar, isBareChar, hquote, hopen, hclose, hless, hgreater, hcomma]

/-! ## Enclosed texts -/

theorem closesFrom_enclosed
    (hinside : ∀ u, u <+: text → (n.run u).IsSound ∧ n.run u ≠ .start)
    (hends : (n.run text).next closing = .start) : ClosesFrom n (text ++ [closing]) := by
  induction text generalizing n with
  | nil =>
    obtain ⟨hsound, hopen⟩ := hinside [] List.prefix_rfl
    refine closesFrom_cons.2 ⟨hsound, fun _ => hopen, ?_⟩
    rw [run_nil] at hends
    rw [hends]
    exact isClosed_nil
  | cons c text ih =>
    obtain ⟨hsound, hopen⟩ := hinside [] List.nil_prefix
    refine closesFrom_cons.2 ⟨hsound, fun _ => hopen, ih (fun u hu => ?_) hends⟩
    exact hinside (c :: u) (List.cons_prefix_cons.2 ⟨rfl, hu⟩)

/-- A text between two brackets is closed when the first bracket is open in all of it. -/
theorem isClosed_enclosed {opening : Char} (hopening : opening ≠ ',')
    (hinside : ∀ u, u <+: text →
      ((start.next opening).run u).IsSound ∧ (start.next opening).run u ≠ .start)
    (hends : ((start.next opening).run text).next closing = .start) :
    IsClosed (opening :: (text ++ [closing])) :=
  closesFrom_cons.2
    ⟨isSound_start, fun h => absurd h hopening, closesFrom_enclosed hinside hends⟩

/-- Inside a further parenthesis the depths are one higher, and angle brackets do not count. -/
theorem run_inside {paren angle : Int}
    (h : ∀ u, u <+: text → 0 ≤ (run ⟨paren, angle, state⟩ u).paren) (outer : Int) :
    run ⟨paren + 1, outer, state⟩ text =
      ⟨(run ⟨paren, angle, state⟩ text).paren + 1, outer, (run ⟨paren, angle, state⟩ text).state⟩ := by
  induction text generalizing paren angle state with
  | nil => rfl
  | cons c text ih =>
    have hparen : 0 ≤ paren := h [] List.nil_prefix
    have hnext : next ⟨paren + 1, outer, state⟩ c =
        ⟨(next ⟨paren, angle, state⟩ c).paren + 1, outer, (next ⟨paren, angle, state⟩ c).state⟩ := by
      have hne : ¬ paren + 1 = 0 := by omega
      unfold next
      simp only [hne, and_false, if_false]
      repeat' split
      all_goals simp
    rw [run_cons, run_cons, hnext]
    exact ih fun u hu => h (c :: u) (List.cons_prefix_cons.2 ⟨rfl, hu⟩)

theorem Arguments.isClosed_text (arguments : Arguments) : IsClosed arguments.text := by
  have hdeeper {u : List Char} (hu : u <+: arguments.list) :
      (start.next '(').run u = ⟨(start.run u).paren + 1, 0, (start.run u).state⟩ :=
    run_inside (fun w hw => arguments.nested w (hw.trans hu)) 0
  refine (isClosed_of_blank arguments.blank).append (isClosed_enclosed (by decide) ?_ ?_)
  · intro u hu
    have hle := arguments.nested u hu
    rw [hdeeper hu, isSound_mk]
    refine ⟨⟨by omega, Int.le_refl 0⟩, fun h => ?_⟩
    have hzero : (start.run u).paren + 1 = 0 := congrArg Nesting.paren h
    omega
  · rw [hdeeper List.prefix_rfl, arguments.balanced, arguments.closed]
    decide

theorem TypeArguments.isClosed_text (arguments : TypeArguments) : IsClosed arguments.text := by
  have hdeeper {u : List Char} (hu : u <+: arguments.list) :
      (start.next '<').run u = ⟨0, 1 + (start.run u).angle, .code⟩ :=
    run_bare (fun c hc => arguments.bare c (hu.subset hc)) 0 1
  refine isClosed_enclosed (by decide) (fun u hu => ?_) ?_
  · have hle := arguments.nested u hu
    rw [hdeeper hu, isSound_mk]
    refine ⟨⟨Int.le_refl 0, by omega⟩, fun h => ?_⟩
    have hzero : 1 + (start.run u).angle = 0 := congrArg Nesting.angle h
    omega
  · rw [hdeeper List.prefix_rfl, arguments.balanced]
    decide

/-- The parentheses and literals of the text are closed in it. -/
theorem balanced_of_run (h : ∀ u, u <+: text → 0 ≤ (start.run u).paren)
    (hparen : (start.run text).paren = 0) (hstate : (start.run text).state = .code) :
    Balanced text := fun depth after => by
  have hlist := argumentList?_append h depth after
  rwa [hparen, hstate] at hlist

theorem Arguments.balanced_list (arguments : Arguments) : Balanced arguments.list :=
  balanced_of_run arguments.nested arguments.balanced arguments.closed

theorem balanced_of_isClosed (h : IsClosed text) : Balanced text :=
  balanced_of_run (fun u hu => (h.nested u hu).1) (by rw [h.ends]; rfl) (by rw [h.ends]; rfl)

/-! ## Closed and trimmed declarations -/

theorem QualifiedName.isClosed_text (name : QualifiedName) : IsClosed name.text :=
  isClosed_of_plain fun c hc => isPlainChar_of_isNameChar (name.isNameChar c hc)

theorem Gap.isClosed_text (gap : Gap) : IsClosed gap.text := isClosed_of_blank gap.blank

theorem Modifier.isClosed_text (m : Modifier) : IsClosed m.text := by
  cases m with
  | final => exact isClosed_of_plain (List.all_eq_true.1 (by decide))
  | annotated name arguments =>
    have hsign : IsClosed ['@'] := isClosed_of_plain (List.all_eq_true.1 (by decide))
    refine hsign.append (name.isClosed_text.append ?_)
    cases arguments with
    | none => exact isClosed_nil
    | some arguments => exact arguments.isClosed_text

theorem isClosed_flatMap {α : Type} {xs : List α} {f : α → List Char}
    (h : ∀ x ∈ xs, IsClosed (f x)) : IsClosed (xs.flatMap f) := by
  induction xs with
  | nil => exact isClosed_nil
  | cons x xs ih =>
    obtain ⟨hx, hxs⟩ := List.forall_mem_cons.1 h
    rw [List.flatMap_cons]
    exact hx.append (ih hxs)

theorem DeclaredType.isClosed_text (type : DeclaredType) : IsClosed type.text := by
  refine (type.name.isClosed_text.append ?_).append (isClosed_flatMap fun space hspace => ?_)
  · unfold argumentText
    cases type.arguments with
    | none => exact isClosed_nil
    | some arguments => exact arguments.isClosed_text
  · exact (isClosed_of_blank (type.blank space hspace)).append
      (isClosed_of_plain (List.all_eq_true.1 (by decide)))

namespace ParameterDeclaration

theorem isClosed_text (parameter : ParameterDeclaration) : IsClosed parameter.text := by
  refine (isClosed_flatMap fun m _ => ?_).append
    ((parameter.type.isClosed_text.append parameter.gap.isClosed_text).append ?_)
  · exact m.1.isClosed_text.append m.2.isClosed_text
  · exact isClosed_of_plain fun c hc => isPlainChar_of_isNameChar (parameter.name.isNameChar c hc)

end ParameterDeclaration

/-- What a declaration begins with. -/
theorem Modifier.exists_cons (m : Modifier) :
    ∃ c rest, m.text = c :: rest ∧ isBlank c = false ∧ c ≠ '(' := by
  cases m with
  | final => exact ⟨'f', _, rfl, by decide⟩
  | annotated name arguments => exact ⟨'@', _, rfl, by decide⟩

namespace ParameterDeclaration

theorem head?_bareText (parameter : ParameterDeclaration) :
    ∃ c ∈ parameter.bareText.head?, isIdentifierChar c = true := by
  obtain ⟨c, rest, heq, hc⟩ := parameter.type.name.exists_cons
  refine ⟨c, ?_, hc⟩
  rw [bareText, DeclaredType.text, heq]
  rfl

theorem getLast?_bareText (parameter : ParameterDeclaration) :
    ∃ c ∈ parameter.bareText.getLast?, isIdentifierChar c = true := by
  obtain ⟨c, hc⟩ := Option.isSome_iff_exists.1
    (List.getLast?_isSome.2 parameter.name.isName.nonempty)
  refine ⟨c, ?_, parameter.name.isName.chars c (List.mem_of_getLast? hc)⟩
  rw [bareText, List.getLast?_append, hc]
  rfl

theorem isTrimmed_bareText (parameter : ParameterDeclaration) : IsTrimmed parameter.bareText := by
  obtain ⟨c, hc, hhead⟩ := parameter.head?_bareText
  obtain ⟨d, hd, hlast⟩ := parameter.getLast?_bareText
  refine ⟨fun e he => ?_, fun e he => ?_⟩
  · rw [Option.mem_unique he hc]
    exact isBlank_of_isIdentifierChar hhead
  · rw [Option.mem_unique he hd]
    exact isBlank_of_isIdentifierChar hlast

/-- A declaration begins neither with white space nor with a list. -/
theorem head?_text (parameter : ParameterDeclaration) :
    ∃ c ∈ parameter.text.head?, isBlank c = false ∧ c ≠ '(' := by
  rw [text]
  cases parameter.modifiers with
  | nil =>
    obtain ⟨c, hc, hhead⟩ := parameter.head?_bareText
    refine ⟨c, hc, isBlank_of_isIdentifierChar hhead, ?_⟩
    rintro rfl
    exact absurd hhead (by decide)
  | cons m ms =>
    obtain ⟨c, rest, heq, hc⟩ := m.1.exists_cons
    refine ⟨c, ?_, hc⟩
    rw [List.flatMap_cons, heq]
    rfl

theorem isTrimmed_text (parameter : ParameterDeclaration) : IsTrimmed parameter.text := by
  obtain ⟨c, hc, hhead, -⟩ := parameter.head?_text
  obtain ⟨d, hd, -⟩ := parameter.getLast?_bareText
  refine ⟨fun e he => ?_, fun e he => ?_⟩
  · rwa [Option.mem_unique he hc]
  · rw [text, List.getLast?_append, Option.mem_def.1 hd] at he
    exact parameter.isTrimmed_bareText.last e (by rwa [Option.mem_def.1 hd])

end ParameterDeclaration

end ContractTests.Java
