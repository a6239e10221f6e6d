import ContractTests.Proofs.Decimal.Shortest
import ContractTests.Proofs.Java.Collections
import ContractTests.Proofs.Java.Plain

/-! # The text of an expression reads as the expression

`Expr.tree` is the tree that an expression stands for in Java: a negative number is the negation of
its absolute value, and collections and objects are the calls that are written for them. The text of
an expression whose names are identifiers and type names reads as this tree (`Expr.read_render`),
except where a node is written without the parentheses that it needs (`Expr.IsClear`): a negative
number before a field, a call or an index, a number without point and suffix before a point, and a
sign after a cast to a type that is not primitive.
-/

set_option autoImplicit false

namespace ContractTests

open Java

/-! ## Trees of expressions -/

/-- The tree of a number: what follows its sign is negated. -/
def numberTree (text : String) : Tree :=
  match text.toList with
  | '-' :: digits => .unary .negate (.literal (String.ofList digits))
  | _ => .literal text

/-- A constant of the class `Double`. -/
def doubleTree (name : String) : Tree := .field (.name "Double") name

def Literal.tree : Literal → Tree
  | .integer n => numberTree (Literal.integer n).java
  | .float x =>
    if x.isNaN then doubleTree "NaN"
    else if x.isInfinite then
      doubleTree (if x.isNegative then "NEGATIVE_INFINITY" else "POSITIVE_INFINITY")
    else numberTree x.plain
  | .boolean b => .literal (Literal.boolean b).java
  | .string s => .literal (Literal.string s).java
  | .null => .literal Literal.null.java

namespace Expr

mutual

/-- The tree that an expression stands for. Post-state has no text, and its tree does not matter. -/
def tree (α : Alphabet) : Expr → Tree
  | .literal value => value.tree
  | .var name => .name name
  | .postState name => .name name
  | .binary op left right => .binary op (tree α left) (tree α right)
  | .unary op operand => .unary op (tree α operand)
  | .field scope name => .field (tree α scope) name
  | .index base position => .index (tree α base) (tree α position)
  | .call name args => .call name (trees α args)
  | .send receiver name args => .send (tree α receiver) name (trees α args)
  | .create type args => objectTree α type (trees α args)
  | .set elements => setTree α (trees α elements)
  | .map entries => mapTree α (entryTrees α entries)
  | .tuple elements => asList (trees α elements)
  | .conditional condition yes no => .conditional (tree α condition) (tree α yes) (tree α no)
  | .cast type operand => .cast (typeTokens α type) (tree α operand)
  | .self => .self

def trees (α : Alphabet) : List Expr → List Tree
  | [] => []
  | e :: rest => tree α e :: trees α rest

def entryTrees (α : Alphabet) : List (Expr × Expr) → List (Tree × Tree)
  | [] => []
  | (key, value) :: rest => (tree α key, tree α value) :: entryTrees α rest

end

variable {α : Alphabet} {e : Expr}

theorem trees_eq (es : List Expr) : trees α es = es.map (tree α) := by
  induction es with
  | nil => rfl
  | cons e es ih => rw [trees, List.map_cons, ih]

theorem entryTrees_eq (entries : List (Expr × Expr)) :
    entryTrees α entries = entries.map fun p => (tree α p.1, tree α p.2) := by
  induction entries with
  | nil => rfl
  | cons p entries ih => rw [entryTrees, List.map_cons, ih]

/-! ## Names -/

/-- Whether the name at the node is an identifier, and its type name the name of a type, which may
have a diamond if an object of it is made. -/
def isWellNamed (α : Alphabet) : Expr → Bool
  | .var name => α.isIdentifier name
  | .field _ name => α.isIdentifier name
  | .call name _ => α.isIdentifier name
  | .send _ name _ => α.isIdentifier name
  | .create type _ => (lex α type.toList).any fun ts => isType ts || isCreatable ts
  | .cast type _ => (lex α type.toList).any isType
  | _ => true

def IsWellNamed (α : Alphabet) (e : Expr) : Prop := ∀ x ∈ e.subterms, x.isWellNamed α = true

instance (α : Alphabet) : DecidablePred (IsWellNamed α) := fun e =>
  inferInstanceAs (Decidable (∀ x ∈ e.subterms, x.isWellNamed α = true))

theorem isWellNamed_iff : e.IsWellNamed α ↔
    e.isWellNamed α = true ∧ ∀ c ∈ e.children, c.IsWellNamed α := everywhere_iff

/-! ## Missing parentheses -/

/-- Whether the expression is a number below zero, or a negative zero. -/
def isNegativeNumber : Expr → Bool
  | .literal (.integer n) => n < 0
  | .literal (.float x) => x.isNegative && x.isFinite
  | _ => false

/-- Whether the expression is a number without point and suffix. -/
def isBareNumber : Expr → Bool
  | .literal (.integer n) => -Nat.pow 2 31 ≤ n.toInt ∧ n.toInt < Nat.pow 2 31
  | _ => false

/-- Whether the text of the expression starts with a plus or minus. -/
def isSigned : Expr → Bool
  | .unary op _ => op != .not
  | e => e.isNegativeNumber

/-- Whether the node is written with all parentheses that it needs, and makes only objects that can
be made. -/
def isClear (α : Alphabet) : Expr → Bool
  | .field scope _ => !scope.isNegativeNumber && !scope.isBareNumber
  | .send receiver _ _ => !receiver.isNegativeNumber && !receiver.isBareNumber
  | .index base _ => !base.isNegativeNumber
  | .cast type operand => isPrimitive (typeTokens α type) || !operand.isSigned
  | .create type _ => isMade α type
  | _ => true

def IsClear (α : Alphabet) (e : Expr) : Prop := ∀ x ∈ e.subterms, x.isClear α = true

instance (α : Alphabet) : DecidablePred (IsClear α) := fun e =>
  inferInstanceAs (Decidable (∀ x ∈ e.subterms, x.isClear α = true))

theorem isClear_iff : e.IsClear α ↔
    e.isClear α = true ∧ ∀ c ∈ e.children, c.IsClear α := everywhere_iff

end Expr

/-! ## Literals -/

namespace Expr

variable {α : Alphabet} {e : Expr} {text : String}

/-- What the text of an expression reads as, and what may stand around it without parentheses. -/
structure IsReading (α : Alphabet) (e : Expr) (text : String) : Prop where
  operand : Reads α IsOperand text (e.tree α)
  unsigned : e.isSigned = false → Reads α IsUnsigned text (e.tree α)
  primary : e.isUnary = false → e.isNegativeNumber = false → Reads α IsPrimary text (e.tree α)
  receiver : e.isUnary = false → e.isNegativeNumber = false → e.isBareNumber = false →
    Reads α IsReceiver text (e.tree α)

theorem isReading_of_receiver (h : Reads α IsReceiver text (e.tree α)) : IsReading α e text where
  operand := h.primary.operand
  unsigned _ := h.primary.imp IsPrimary.unsigned
  primary _ _ := h.primary
  receiver _ _ _ := h

/-- The literal is a number, written with its sign before `number`. -/
structure IsNumber (α : Alphabet) (value : Literal) (number : String) : Prop where
  java : value.java = (if (literal value).isNegativeNumber then "-" else "") ++ number
  tree : value.tree =
    if (literal value).isNegativeNumber then .unary .negate (.literal number) else .literal number
  primary : Reads α IsPrimary number (.literal number)
  receiver : (literal value).isBareNumber = false → Reads α IsReceiver number (.literal number)

theorem isNumber_of_lexes {value : Literal} {number : List Char}
    (hjava : value.java.toList = (if (literal value).isNegativeNumber then ['-'] else []) ++ number)
    (htree : value.tree = numberTree value.java)
    (hnumber : Lexes α number [.number (String.ofList number)]) (hhead : number.head? ≠ some '-')
    (hpoint : (literal value).isBareNumber = false → '.' ∈ number ∨ 'L' ∈ number) :
    IsNumber α value (String.ofList number) where
  java := by
    rw [← String.toList_inj, hjava]
    split <;> simp
  tree := by
    rw [htree, numberTree, hjava]
    cases hnegative : (literal value).isNegativeNumber with
    | true => rfl
    | false =>
      rw [hnegative, if_neg nofun, List.nil_append] at hjava
      rw [if_neg nofun, if_neg nofun, List.nil_append, ← hjava, String.ofList_toList]
      split
      · rename_i hsign
        rw [hjava] at hsign
        exact absurd (congrArg List.head? hsign) hhead
      · rfl
  primary := reads_number (by rwa [String.toList_ofList])
  receiver h := reads_closedNumber (by rwa [String.toList_ofList]) (by simpa using hpoint h)

theorem exists_isNumber_integer (n : Int64) : ∃ number, IsNumber α (.integer n) number := by
  have hne : decimalDigits n.toInt.natAbs ≠ [] := List.ne_nil_of_length_pos Nat.length_toDigits_pos
  have hdigits : ∀ c ∈ decimalDigits n.toInt.natAbs, c.isDigit = true := fun _ =>
    Nat.isDigit_of_mem_toDigits (by decide) (by decide)
  obtain ⟨d, ds, hcons⟩ := List.exists_cons_of_ne_nil hne
  have hhead : d ≠ '-' := by
    rintro rfl
    exact absurd (hdigits '-' (hcons ▸ List.mem_cons_self)) (by decide)
  have hnegative : (literal (.integer n)).isNegativeNumber = decide (n.toInt < 0) := by
    rw [isNegativeNumber, decide_eq_decide, Int64.lt_iff_toInt_lt]
    rfl
  have htext : (intText n.toInt).toList =
      (if (literal (.integer n)).isNegativeNumber then ['-'] else []) ++
        decimalDigits n.toInt.natAbs := by
    rw [intText, String.toList_ofList, hnegative]
    simp only [decide_eq_true_eq]
  by_cases hfits : -Nat.pow 2 31 ≤ n.toInt ∧ n.toInt < Nat.pow 2 31
  · refine ⟨_, isNumber_of_lexes ?_ rfl (lexes_digits hne hdigits) (by simp [hcons, hhead])
      fun h => ?_⟩
    · rw [Literal.java, if_pos hfits, htext]
    · simp only [isBareNumber, decide_eq_false_iff_not] at h
      exact absurd hfits h
  · refine ⟨_, isNumber_of_lexes ?_ rfl (lexes_long hne hdigits) (by simp [hcons, hhead])
      fun _ => .inr (by simp)⟩
    rw [Literal.java, if_neg hfits, String.toList_append, htext, List.append_assoc]
    rfl

theorem exists_isNumber_float {x : Double} (hnan : x.isNaN = false)
    (hinfinite : x.isInfinite = false) : ∃ number, IsNumber α (.float x) number := by
  have hfinite : x.isFinite = true := Double.isFinite_of_not_isNaN
    (ne_true_of_eq_false hnan) (ne_true_of_eq_false hinfinite)
  have hjava : (Literal.float x).java = x.plain := by simp [Literal.java, hnan, hinfinite]
  obtain ⟨whole, fraction, hplain, hne, hdigits⟩ := Double.exists_plain hfinite
  refine ⟨_, isNumber_of_lexes ?_ ?_ (lexes_decimal hne hdigits) ?_ fun _ => .inl (by simp)⟩
  · rw [hjava, hplain, isNegativeNumber, hfinite, Bool.and_true, Double.sign]
  · simp [Literal.tree, hnan, hinfinite, hjava]
  · obtain ⟨d, ds, rfl⟩ := List.exists_cons_of_ne_nil hne
    rintro ⟨⟩
    exact absurd (hdigits '-' List.mem_cons_self) (by decide)

theorem exists_isNumber_of_isNegativeNumber {value : Literal}
    (h : (literal value).isNegativeNumber = true) : ∃ number, IsNumber α value number := by
  cases value with
  | integer n => exact exists_isNumber_integer n
  | float x =>
    rw [isNegativeNumber, Bool.and_eq_true, Double.isFinite, bne_iff_ne] at h
    exact exists_isNumber_float (by simp [Double.isNaN, h.2]) (by simp [Double.isInfinite, h.2])
  | _ => cases h

theorem IsNumber.isReading {value : Literal} {number : String} (h : IsNumber α value number) :
    IsReading α (.literal value) value.java := by
  have htree : (literal value).tree α = value.tree := by rw [Expr.tree]
  rw [h.java]
  cases hnegative : (literal value).isNegativeNumber with
  | true =>
    have hsigned := h.primary.signed .negate
    refine ⟨?_, fun hsign => ?_, fun _ hsign => ?_, fun _ hsign => ?_⟩
    · rw [htree, h.tree, hnegative]
      exact hsigned
    all_goals cases hnegative.symm.trans hsign
  | false =>
    have heq : (literal value).tree α = .literal number := by rw [htree, h.tree, hnegative]; rfl
    have hprimary := heq ▸ h.primary
    have htext : (if false = true then "-" else "") ++ number = number := String.empty_append
    rw [htext]
    exact ⟨hprimary.operand, fun _ => hprimary.imp IsPrimary.unsigned, fun _ _ => hprimary,
      fun _ _ hbare => heq ▸ h.receiver hbare⟩

/-- A constant of the class `Double`. -/
theorem reads_double (name : String) (hname : isAsciiIdentifier name = true) :
    Reads α IsReceiver ("Double." ++ name) (doubleTree name) := by
  have hclass : α.isIdentifier "Double" = true := isIdentifier_of_ascii (by decide)
  exact ((reads_name hclass).field (isIdentifier_of_ascii hname)).of_toList_eq (by simp)

theorem isReading_float (x : Double) :
    IsReading α (.literal (.float x)) (Literal.float x).java := by
  cases hnan : x.isNaN with
  | true =>
    refine isReading_of_receiver ?_
    simpa [Expr.tree, Literal.tree, Literal.java, hnan] using
      reads_double (α := α) "NaN" (by decide)
  | false =>
    cases hinfinite : x.isInfinite with
    | true =>
      refine isReading_of_receiver ?_
      cases hsign : x.isNegative with
      | true =>
        simpa [Expr.tree, Literal.tree, Literal.java, hnan, hinfinite, hsign] using
          reads_double (α := α) "NEGATIVE_INFINITY" (by decide)
      | false =>
        simpa [Expr.tree, Literal.tree, Literal.java, hnan, hinfinite, hsign] using
          reads_double (α := α) "POSITIVE_INFINITY" (by decide)
    | false => exact (exists_isNumber_float hnan hinfinite).elim fun _ h => h.isReading

theorem isReading_literal (value : Literal) : IsReading α (.literal value) value.java := by
  cases value with
  | integer n => exact (exists_isNumber_integer n).elim fun _ h => h.isReading
  | float x => exact isReading_float x
  | boolean b =>
    refine isReading_of_receiver (reads_literal ?_)
    cases b <;> exact lexes_ascii _ (by decide)
  | string s => exact isReading_of_receiver (reads_literal (lexes_javaLiteral s))
  | null => exact isReading_of_receiver (reads_literal (lexes_ascii "null" (by decide)))

/-! ## Nodes -/

/-- A receiver is written in parentheses if it is a unary expression. -/
theorem IsReading.parenthesized (h : IsReading α e text) (hnegative : e.isNegativeNumber = false) :
    Reads α IsPrimary (parenthesized e.isUnary text) (e.tree α) := by
  cases hunary : e.isUnary with
  | true => exact h.operand.expression.parenthesized.primary
  | false => exact h.primary hunary hnegative

theorem IsReading.pointed (h : IsReading α e text) (hnegative : e.isNegativeNumber = false)
    (hbare : e.isBareNumber = false) :
    Reads α IsReceiver (Expr.parenthesized e.isUnary text) (e.tree α) := by
  cases hunary : e.isUnary with
  | true => exact h.operand.expression.parenthesized
  | false => exact h.receiver hunary hnegative hbare

/-- The operand of a unary operator is written in parentheses if it starts with an operator. -/
theorem IsReading.operandOfUnary (h : IsReading α e text) :
    Reads α IsPrimary (Expr.parenthesized e.needsParens text) (e.tree α) := by
  cases hparens : e.needsParens with
  | true => exact h.operand.expression.parenthesized.primary
  | false =>
    refine h.primary ?_ ?_
    · cases e <;> first | rfl | cases hparens
    · unfold isNegativeNumber
      split
      · exact hparens
      · rw [Bool.and_eq_false_iff]
        exact .inl hparens
      · rfl

theorem reads_renderAll {es : List Expr} {texts : List String}
    (h : ∀ e ∈ es, ∀ text, e.render = .ok text → IsReading α e text)
    (htexts : renderAll es = .ok texts) :
    List.Forall₂ (Reads α IsExpression) texts (trees α es) := by
  rw [renderAll_eq, mapM_eq_ok_iff] at htexts
  rw [trees_eq]
  induction htexts with
  | nil => exact .nil
  | cons htext _ ih =>
    rw [List.forall_mem_cons] at h
    exact .cons (h.1 _ htext).operand.expression (ih h.2)

theorem reads_renderEntries {entries : List (Expr × Expr)} {texts : List (String × String)}
    (h : ∀ p ∈ entries, ∀ e ∈ [p.1, p.2], ∀ text, e.render = .ok text → IsReading α e text)
    (htexts : renderEntries entries = .ok texts) :
    List.Forall₂ (fun p q => Reads α IsExpression p.1 q.1 ∧ Reads α IsExpression p.2 q.2)
      texts (entryTrees α entries) := by
  rw [renderEntries_eq, mapM_eq_ok_iff] at htexts
  rw [entryTrees_eq]
  induction htexts with
  | nil => exact .nil
  | cons htext _ ih =>
    rw [List.forall_mem_cons] at h
    obtain ⟨key, hkey, htext⟩ := bind_eq_ok_iff.1 htext
    obtain ⟨value, hvalue, htext⟩ := bind_eq_ok_iff.1 htext
    cases htext
    refine .cons ⟨?_, ?_⟩ (ih h.2)
    · exact (h.1 _ (by simp) key hkey).operand.expression
    · exact (h.1 _ (by simp) value hvalue).operand.expression

/-- The text of a node reads as its tree if the texts of its children do. -/
theorem isReading_node (hnames : e.isWellNamed α = true) (hclear : e.isClear α = true)
    (hchildren : ∀ c ∈ e.children, ∀ text, c.render = .ok text → IsReading α c text)
    (htext : e.render = .ok text) : IsReading α e text := by
  cases e with
  | literal value =>
    cases htext
    exact isReading_literal value
  | var name =>
    cases htext
    exact isReading_of_receiver (reads_name hnames)
  | postState => cases htext
  | self =>
    cases htext
    exact isReading_of_receiver reads_self
  | binary op left right =>
    simp only [children, List.forall_mem_cons] at hchildren
    obtain ⟨leftText, hleft, htext⟩ := bind_eq_ok_iff.1 htext
    obtain ⟨rightText, hright, htext⟩ := bind_eq_ok_iff.1 htext
    cases htext
    have hinside := (hchildren.1 _ hleft).operand.binary op (hchildren.2.1 _ hright).operand
    exact isReading_of_receiver (hinside.parenthesized.of_toList_eq (by simp))
  | conditional condition yes no =>
    simp only [children, List.forall_mem_cons] at hchildren
    obtain ⟨conditionText, hcondition, htext⟩ := bind_eq_ok_iff.1 htext
    obtain ⟨yesText, hyes, htext⟩ := bind_eq_ok_iff.1 htext
    obtain ⟨noText, hno, htext⟩ := bind_eq_ok_iff.1 htext
    cases htext
    have hinside := (hchildren.1 _ hcondition).operand.conditional (hchildren.2.1 _ hyes).operand
      (hchildren.2.2.1 _ hno).operand
    exact isReading_of_receiver (hinside.parenthesized.of_toList_eq (by simp))
  | cast type operand =>
    simp only [children, List.forall_mem_cons] at hchildren
    obtain ⟨operandText, hoperand, htext⟩ := bind_eq_ok_iff.1 htext
    cases htext
    obtain ⟨htype, hkind⟩ := lexes_typeTokens hnames
    have hreading := hchildren.1 _ hoperand
    -- a sign after the type would be taken for a binary operator, if the type is not primitive
    have hcast : Reads α IsOperand ("(" ++ type ++ ") " ++ operandText) _ := Reads.cast htype <| by
      rw [isType, Bool.or_eq_true] at hkind
      rw [isClear, Bool.or_eq_true, Bool.not_eq_true'] at hclear
      rcases hclear with hprimitive | hsigned
      · exact .inl ⟨hprimitive, hreading.operand⟩
      · exact hkind.imp (⟨·, hreading.operand⟩) (⟨·, hreading.unsigned hsigned⟩)
    exact isReading_of_receiver (hcast.expression.parenthesized.of_toList_eq (by simp))
  | unary op operand =>
    simp only [children, List.forall_mem_cons] at hchildren
    obtain ⟨operandText, hoperand, htext⟩ := bind_eq_ok_iff.1 htext
    cases htext
    have hprimary := (hchildren.1 _ hoperand).operandOfUnary
    refine ⟨hprimary.signed op, fun h => ?_, fun hunary => ?_, fun hunary => ?_⟩
    · obtain rfl : op = .not := by simpa [isSigned] using h
      exact hprimary.negation
    · cases hunary
    · cases hunary
  | field scope name =>
    simp only [children, List.forall_mem_cons] at hchildren
    obtain ⟨scopeText, hscope, htext⟩ := bind_eq_ok_iff.1 htext
    cases htext
    rw [isClear, Bool.and_eq_true, Bool.not_eq_true', Bool.not_eq_true'] at hclear
    exact isReading_of_receiver (((hchildren.1 _ hscope).pointed hclear.1 hclear.2).field hnames)
  | index base position =>
    simp only [children, List.forall_mem_cons] at hchildren
    obtain ⟨baseText, hbase, htext⟩ := bind_eq_ok_iff.1 htext
    obtain ⟨positionText, hposition, htext⟩ := bind_eq_ok_iff.1 htext
    cases htext
    rw [isClear, Bool.not_eq_true'] at hclear
    exact isReading_of_receiver (((hchildren.1 _ hbase).parenthesized hclear).index
      (hchildren.2.1 _ hposition).operand.expression)
  | call name args =>
    rw [Expr.render] at htext
    split at htext
    · cases htext
    · obtain ⟨texts, htexts, htext⟩ := bind_eq_ok_iff.1 htext
      cases htext
      exact isReading_of_receiver (reads_call hnames (reads_renderAll hchildren htexts))
  | send receiver name args =>
    obtain ⟨hreceiver, hargs⟩ := List.forall_mem_cons.1 hchildren
    obtain ⟨texts, htexts, htext⟩ := bind_eq_ok_iff.1 htext
    obtain ⟨receiverText, hreceiverText, htext⟩ := bind_eq_ok_iff.1 htext
    cases htext
    rw [isClear, Bool.and_eq_true, Bool.not_eq_true', Bool.not_eq_true'] at hclear
    have hpointed := (hreceiver _ hreceiverText).pointed hclear.1 hclear.2
    exact isReading_of_receiver (hpointed.send hnames (reads_renderAll hargs htexts))
  | create type args =>
    obtain ⟨texts, htexts, htext⟩ := bind_eq_ok_iff.1 htext
    cases htext
    exact isReading_of_receiver (reads_newObject hnames hclear (reads_renderAll hchildren htexts))
  | set elements =>
    obtain ⟨texts, htexts, htext⟩ := bind_eq_ok_iff.1 htext
    cases htext
    exact isReading_of_receiver (reads_newSet (reads_renderAll hchildren htexts))
  | map entries =>
    obtain ⟨texts, htexts, htext⟩ := bind_eq_ok_iff.1 htext
    cases htext
    refine isReading_of_receiver (reads_newMap (reads_renderEntries (fun p hp c hc => ?_) htexts))
    exact hchildren c (List.mem_flatMap.2 ⟨p, hp, hc⟩)
  | tuple elements =>
    obtain ⟨texts, htexts, htext⟩ := bind_eq_ok_iff.1 htext
    cases htext
    exact isReading_of_receiver (reads_asList (reads_renderAll hchildren htexts))

/-! ## Expressions -/

theorem IsClear.isReading (hclear : e.IsClear α) (hnames : e.IsWellNamed α)
    (htext : e.render = .ok text) : IsReading α e text := by
  induction e using children_induction generalizing text with
  | node e ih =>
    obtain ⟨hclear, hclears⟩ := isClear_iff.1 hclear
    obtain ⟨hname, hnames⟩ := isWellNamed_iff.1 hnames
    exact isReading_node hname hclear
      (fun c hc _ => ih c hc (hclears c hc) (hnames c hc)) htext

/-- The text in the parentheses of an `if` reads as the same tree. -/
theorem IsClear.reads_renderBare (hclear : e.IsClear α) (hnames : e.IsWellNamed α)
    (htext : e.renderBare = .ok text) : Reads α IsExpression text (e.tree α) := by
  cases e with
  | binary op left right =>
    have hclears := (isClear_iff.1 hclear).2
    have hname := (isWellNamed_iff.1 hnames).2
    simp only [children, List.forall_mem_cons] at hclears hname
    obtain ⟨leftText, hleft, htext⟩ := bind_eq_ok_iff.1 htext
    obtain ⟨rightText, hright, htext⟩ := bind_eq_ok_iff.1 htext
    cases htext
    exact (hclears.1.isReading hname.1 hleft).operand.binary op
      (hclears.2.1.isReading hname.2.1 hright).operand
  | _ => exact (hclear.isReading hnames htext).operand.expression

/-- Precedence never decides: the text of an expression reads as the expression, with and without
the parentheses of a condition. -/
theorem read_render (hplain : e.IsPlain) (hnames : e.IsWellNamed α) (hclear : e.IsClear α) :
    (∃ text, e.render = .ok text ∧ read α text = some (e.tree α)) ∧
      ∃ text, e.renderBare = .ok text ∧ read α text = some (e.tree α) := by
  obtain ⟨text, htext⟩ := (exists_render_iff e).2 hplain
  obtain ⟨bare, hbare⟩ := (exists_renderBare_iff e).2 hplain
  exact ⟨⟨text, htext, (hclear.isReading hnames htext).operand.expression.read_eq⟩,
    bare, hbare, (hclear.reads_renderBare hnames hbare).read_eq⟩

/-- Signs under signs and casts, a receiver and a new object in one expression. -/
theorem read_render_choice :
    let choice : Expr := .conditional
      (.binary .less (.unary .negate (int (-5))) (.cast "int" (.unary .negate (.var "x"))))
      (.field (.unary .not (.var "y")) "f")
      (.create "Map<String, int[]>" [.string "a\"b", .index (.var "a") (int (-1))])
    (choice.IsPlain ∧ choice.IsWellNamed .ascii ∧ choice.IsClear .ascii) ∧
      (∃ text, choice.render = .ok text ∧ read .ascii text = some (choice.tree .ascii)) ∧
      ∃ text, choice.renderBare = .ok text ∧ read .ascii text = some (choice.tree .ascii) := by
  intro choice
  have hplain : choice.IsPlain := by decide
  have hnames : choice.IsWellNamed .ascii := by decide +kernel
  have hclear : choice.IsClear .ascii := by decide +kernel
  exact ⟨⟨hplain, hnames, hclear⟩, read_render hplain hnames hclear⟩

/-! ## What reads differently -/

/-- The text of a signed expression is the sign before a primary. -/
theorem exists_sign (hclear : e.IsClear α) (hnames : e.IsWellNamed α) (htext : e.render = .ok text)
    (hsigned : e.isSigned = true) :
    ∃ op sign body operand, signToken op = .operator sign ∧ text = op.symbol ++ body ∧
      e.tree α = .unary op operand ∧ Reads α IsPrimary body operand := by
  cases e with
  | literal value =>
    obtain ⟨number, hnumber⟩ := exists_isNumber_of_isNegativeNumber (α := α) hsigned
    have hnegative : (literal value).isNegativeNumber = true := hsigned
    cases htext
    refine ⟨.negate, .minus, number, .literal number, rfl, ?_, ?_, hnumber.primary⟩
    · rw [hnumber.java, hnegative]
      rfl
    · rw [Expr.tree, hnumber.tree, hnegative]
      rfl
  | unary op operand =>
    obtain ⟨sign, hsign⟩ : ∃ sign, signToken op = .operator sign := by
      cases op with
      | not => cases hsigned
      | negate => exact ⟨_, rfl⟩
      | plus => exact ⟨_, rfl⟩
    have hclears := (isClear_iff.1 hclear).2
    have hname := (isWellNamed_iff.1 hnames).2
    simp only [children, List.forall_mem_cons] at hclears hname
    obtain ⟨operandText, hoperand, htext⟩ := bind_eq_ok_iff.1 htext
    cases htext
    exact ⟨op, sign, _, operand.tree α, hsign, rfl, by rw [Expr.tree],
      (hclears.1.isReading hname.1 hoperand).operandOfUnary⟩
  | _ => cases hsigned

/-- A cast to a class is written before a signed operand without parentheses around the operand, and
reads as a sum or a difference: the type is taken for a variable. -/
theorem read_cast_of_isSigned {type : String} {operand : Expr} (htype : α.isIdentifier type = true)
    (hplain : operand.IsPlain) (hnames : operand.IsWellNamed α) (hclear : operand.IsClear α)
    (hsigned : operand.isSigned = true) :
    ∃ text op sign inner, (cast type operand).render = .ok text ∧
      signToken op = .operator sign ∧ operand.tree α = .unary op inner ∧
      read α text = some (.binary sign (.name type) inner) := by
  obtain ⟨operandText, htext⟩ := (exists_render_iff operand).2 hplain
  obtain ⟨op, sign, body, inner, hsign, rfl, htree, hbody⟩ :=
    exists_sign hclear hnames htext hsigned
  refine ⟨_, op, sign, inner, by rw [render, htext]; rfl, hsign, htree, ?_⟩
  obtain ⟨ts, hts, hname⟩ := (reads_name htype).primary.operand.expression.parenthesized
  obtain ⟨us, hus, hoperand⟩ := hbody
  obtain ⟨t, ht, hopens⟩ := hoperand.opens
  obtain ⟨rest, rfl⟩ := List.head?_eq_some_iff.1 ht
  -- the type in parentheses is a primary, and the sign after it joins it with the operand
  have hsum : Reads α IsExpression (("(" ++ type ++ ")") ++ " " ++ (op.symbol ++ body))
      (.binary sign (.name type) inner) := by
    refine ⟨_, ?_, hname.toIsPrimary.operand.binary sign hoperand.operand⟩
    have hlexes := hus.signed op fun op' heq => by simp [heq, Token.opensOperand] at hopens
    rw [hsign] at hlexes
    simpa using hts.append hlexes.blank rfl
  exact (hsum.parenthesized.of_toList_eq (by simp)).primary.operand.expression.read_eq

/-- A negative number is written before an index without parentheses, and reads as the negation of
the element. -/
theorem read_index_of_isNegativeNumber {value : Literal} {position : Expr}
    (hnegative : (literal value).isNegativeNumber = true) (hplain : position.IsPlain)
    (hnames : position.IsWellNamed α) (hclear : position.IsClear α) :
    ∃ text number, (index (.literal value) position).render = .ok text ∧
      (literal value).tree α = .unary .negate number ∧
      read α text = some (.unary .negate (.index number (position.tree α))) := by
  obtain ⟨positionText, htext⟩ := (exists_render_iff position).2 hplain
  obtain ⟨number, hnumber⟩ := exists_isNumber_of_isNegativeNumber (α := α) hnegative
  refine ⟨_, .literal number, by rw [render, render, htext]; rfl, ?_, ?_⟩
  · rw [Expr.tree, hnumber.tree, hnegative]
    rfl
  · have hindex := hnumber.primary.index (hclear.isReading hnames htext).operand.expression
    refine ((hindex.primary.signed .negate).expression.of_toList_eq ?_).read_eq
    simp [parenthesized, isUnary, hnumber.java, hnegative, UnaryOp.symbol]

end Expr

end ContractTests
