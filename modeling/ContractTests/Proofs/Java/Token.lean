import ContractTests.Expr.Basic
import Mathlib.Data.Bool.AllAny

/-! # Tokens of Java source

`Java.lex` cuts the text of an expression into the tokens of Java: identifiers, keywords, literals,
operators and separators, each as long as it can be. The angle bracket that closes type arguments is
a token of its own, as Java reads it inside a type. Comments, character literals, numbers that are
not decimal and the operators that conditions do not have are no tokens here, and a text with one of
them is not read.

Texts are put together with `Lexes.append`: the tokens of a text do not depend on what follows it if
that starts with a blank, a bracket or a comma.
-/

set_option autoImplicit false

namespace ContractTests.Java

/-! ## Characters -/

/-- The characters that Java treats as white space. -/
def blanks : List Char := [' ', '\t', '\n', '\x0c', '\r']

/-- The letters, digits and signs of ASCII that stand in identifiers. -/
def isWordChar (c : Char) : Bool := c.isAlphanum || c == '_' || c == '$'

theorem toNat_of_isDigit {c : Char} (h : c.isDigit = true) : 48 ≤ c.toNat ∧ c.toNat ≤ 57 := by
  simp only [Char.isDigit, Bool.and_eq_true, decide_eq_true_eq, ge_iff_le,
    UInt32.le_iff_toNat_le] at h
  exact h

theorem toNat_of_isAlpha {c : Char} (h : c.isAlpha = true) :
    (65 ≤ c.toNat ∧ c.toNat ≤ 90) ∨ (97 ≤ c.toNat ∧ c.toNat ≤ 122) := by
  change (decide (c.val ≥ 65 ∧ c.val ≤ 90) || (c.val ≥ 97 && c.val ≤ 122)) = true at h
  simp only [Bool.or_eq_true, Bool.and_eq_true, decide_eq_true_eq, ge_iff_le,
    UInt32.le_iff_toNat_le] at h
  exact h

/-- The characters of identifiers. Beyond ASCII they are those of the Unicode tables in use, which
change with the version of Java. -/
structure Alphabet where
  isStart : Char → Bool
  isPart : Char → Bool
  part_of_start : ∀ c, isStart c = true → isPart c = true
  start_of_alpha : ∀ c, c.isAlpha = true → isStart c = true
  start_of_digit : ∀ c, c.isDigit = true → isStart c = false
  part_printable : ∀ c, ' ' ≤ c → c ≤ '~' → isPart c = isWordChar c
  part_blank : ∀ c ∈ blanks, isPart c = false

/-- The alphabet without the letters beyond ASCII. -/
def Alphabet.ascii : Alphabet where
  isStart c := c.isAlpha || c == '_' || c == '$'
  isPart := isWordChar
  part_of_start c h := by
    simp only [isWordChar, Char.isAlphanum, Bool.or_eq_true] at h ⊢
    rcases h with (h | h) | h
    · exact .inl (.inl (.inl h))
    · exact .inl (.inr h)
    · exact .inr h
  start_of_alpha c h := by simp [h]
  start_of_digit c h := by
    have hdigit := toNat_of_isDigit h
    rw [Bool.eq_false_iff]
    intro hstart
    simp only [Bool.or_eq_true, beq_iff_eq] at hstart
    rcases hstart with (halpha | rfl) | rfl
    · have := toNat_of_isAlpha halpha
      omega
    · exact absurd h (by decide)
    · exact absurd h (by decide)
  part_printable _ _ _ := rfl
  part_blank := List.all_iff_forall_prop.1 (by decide)

/-! ## Tokens -/

inductive Bracket where
  | round
  | square
  | curly
deriving DecidableEq, Repr

inductive Token where
  | identifier (name : String)
  | keyword (word : String)
  | number (text : String)
  /-- A string literal with its quotes, `true`, `false` or `null`. -/
  | literal (text : String)
  | operator (op : BinaryOp)
  | not
  | question
  | colon
  | comma
  | dot
  | opening (b : Bracket)
  | closing (b : Bracket)
deriving DecidableEq, Repr

/-- The reserved words that are no literals. -/
def keywords : List String :=
  ["abstract", "assert", "boolean", "break", "byte", "case", "catch", "char", "class", "const",
   "continue", "default", "do", "double", "else", "enum", "extends", "final", "finally", "float",
   "for", "goto", "if", "implements", "import", "instanceof", "int", "interface", "long", "native",
   "new", "package", "private", "protected", "public", "return", "short", "static", "strictfp",
   "super", "switch", "synchronized", "this", "throw", "throws", "transient", "try", "void",
   "volatile", "while", "_"]

def literalWords : List String := ["true", "false", "null"]

/-- The token that a word is. -/
def wordToken (word : String) : Token :=
  if literalWords.contains word then .literal word
  else if keywords.contains word then .keyword word
  else .identifier word

/-- Whether a name is an identifier and not a reserved word. -/
def Alphabet.isIdentifier (α : Alphabet) (name : String) : Bool :=
  match name.toList with
  | [] => false
  | c :: cs => α.isStart c && cs.all α.isPart && !literalWords.contains name &&
      !keywords.contains name

/-- The token of a unary operator. A sign is the token of the binary operator with its symbol. -/
def signToken : UnaryOp → Token
  | .not => .not
  | .negate => .operator .minus
  | .plus => .operator .plus

/-- The operators and separators of conditions. -/
def symbols : List (List Char × Token) :=
  BinaryOp.all.map (fun op => (op.symbol.toList, .operator op)) ++
    [(['!'], .not), (['?'], .question), ([':'], .colon), ([','], .comma), (['.'], .dot),
     (['('], .opening .round), ([')'], .closing .round), (['['], .opening .square),
     ([']'], .closing .square), (['\x7b'], .opening .curly), (['\x7d'], .closing .curly)]

/-- Java's other operators and separators, and what opens a comment. Those that start with two
closing angle brackets are left out. -/
def otherSymbols : List (List Char) :=
  [['='], ['~'], ['&'], ['|'], ['^'], [';'], ['@'], ['+', '+'], ['-', '-'], ['-', '>'], [':', ':'],
   ['<', '<'], ['+', '='], ['-', '='], ['*', '='], ['/', '='], ['%', '='], ['&', '='], ['|', '='],
   ['^', '='], ['<', '<', '='], ['/', '/'], ['/', '*']]

def isSymbol (cs : List Char) : Bool := symbols.any (·.1 == cs) || otherSymbols.contains cs

def symbolToken? (cs : List Char) : Option Token := (symbols.find? (·.1 == cs)).map (·.2)

/-! ## Scanning -/

/-- A token that has begun, with its characters so far. -/
inductive Scan where
  | between
  | word (text : List Char)
  | number (text : List Char)
  | string (text : List Char)
  /-- After a backslash. -/
  | escape (text : List Char)
  /-- Among the four hexadecimal digits of a Unicode escape. -/
  | unicode (text digits : List Char)
  /-- After the closing quote. -/
  | quoted (text : List Char)
  | symbol (text : List Char)
deriving DecidableEq, Repr

/-- The letters that end a number and say its type. -/
def isSuffix (c : Char) : Bool := ['l', 'L', 'f', 'F', 'd', 'D'].contains c

/-- Whether the character belongs to the decimal number that has begun. -/
def goesOn (text : List Char) (c : Char) : Bool :=
  !text.any isSuffix &&
    (c.isDigit || (c == '.' && !text.contains '.') ||
      (isSuffix c && !(text.contains '.' && (c == 'l' || c == 'L'))))

/-- The characters that may follow a backslash, a `u` apart. -/
def escapable : List Char :=
  ['b', 's', 't', 'n', 'f', 'r', '"', '\x27', '\\', '0', '1', '2', '3', '4', '5', '6', '7']

/-- Unicode escapes stand for their characters before tokens are cut: a line end, a quote or a
backslash written in this way does not belong to the literal. -/
def breakingEscapes : List (List Char) :=
  [['0', '0', '0', 'a'], ['0', '0', '0', 'd'], ['0', '0', '2', '2'], ['0', '0', '5', 'c']]

def isHexDigit (c : Char) : Bool := c.isDigit || ('a' ≤ c && c ≤ 'f')

namespace Scan

/-- The token with one more character, if the character belongs to it. -/
def next (α : Alphabet) : Scan → Char → Option Scan
  | .between, _ => none
  | .word text, c => if α.isPart c then some (.word (text ++ [c])) else none
  | .number text, c => if goesOn text c then some (.number (text ++ [c])) else none
  | .string text, c =>
    if c = '"' then some (.quoted (text ++ [c]))
    else if c = '\\' then some (.escape (text ++ [c]))
    else if c = '\n' ∨ c = '\r' then none
    else some (.string (text ++ [c]))
  | .escape text, c =>
    if c = 'u' then some (.unicode (text ++ [c]) [])
    else if escapable.contains c then some (.string (text ++ [c])) else none
  | .unicode text digits, c =>
    let digits := digits ++ [c.toLower]
    if !isHexDigit c.toLower || breakingEscapes.contains digits then none
    else if digits.length < 4 then some (.unicode (text ++ [c]) digits)
    else some (.string (text ++ [c]))
  | .quoted _, _ => none
  | .symbol text, c => if isSymbol (text ++ [c]) then some (.symbol (text ++ [c])) else none

/-- The token, if it may end here. -/
def tokens? : Scan → Option (List Token)
  | .between => some []
  | .word text => some [wordToken (String.ofList text)]
  | .number text => some [.number (String.ofList text)]
  | .quoted text => some [.literal (String.ofList text)]
  | .symbol text => (symbolToken? text).map fun t => [t]
  | .string _ => none
  | .escape _ => none
  | .unicode _ _ => none

/-- The scan of the token that starts with a character. -/
def start? (α : Alphabet) (c : Char) : Option Scan :=
  if blanks.contains c then some .between
  else if isSymbol [c] then some (.symbol [c])
  else if c = '"' then some (.string [c])
  else if c.isDigit then some (.number [c])
  else if α.isStart c then some (.word [c])
  else none

end Scan

/-- The tokens of a text that goes on with the token of a scan. -/
def lexFrom (α : Alphabet) (s : Scan) : List Char → Option (List Token)
  | [] => s.tokens?
  | c :: rest =>
    match s.next α c with
    | some s' => lexFrom α s' rest
    | none => do
      let token ← s.tokens?
      let s' ← Scan.start? α c
      let tokens ← lexFrom α s' rest
      return token ++ tokens

/-- The tokens of a text. -/
def lex (α : Alphabet) (cs : List Char) : Option (List Token) := lexFrom α .between cs

/-! ## What may follow a token -/

/-- The characters that belong to no token that has begun. -/
def isStop (c : Char) : Bool :=
  [' ', ',', '(', ')', '[', ']', '\x7b', '\x7d'].contains c

/-- Whether a point would go on with the token: a number without point and suffix. -/
def Token.takesPoint : Token → Bool
  | .number text => goesOn text.toList '.'
  | _ => false

def Token.isName : Token → Bool
  | .identifier _ => true
  | _ => false

/-- A text that starts with `c` may follow the tokens: nothing goes on with a stop, only a number
with a point, and no name with an angle bracket. -/
inductive EndsBefore (ts : List Token) : Char → Prop where
  | stop {c : Char} : isStop c = true → EndsBefore ts c
  | point : (∀ t ∈ ts.getLast?, t.takesPoint = false) → EndsBefore ts '.'
  | angle : (∀ t ∈ ts.getLast?, t.isName = true) → EndsBefore ts '<'

variable {α : Alphabet} {s : Scan} {a b : List Char} {c : Char} {ts us : List Token} {t : Token}

theorem mem_of_isSymbol {cs : List Char} (h : isSymbol cs = true) :
    cs ∈ symbols.map (·.1) ++ otherSymbols := by
  simp only [isSymbol, Bool.or_eq_true, List.any_eq_true, beq_iff_eq, List.contains_iff_mem] at h
  rcases h with ⟨p, hp, rfl⟩ | h
  · exact List.mem_append_left _ (List.mem_map_of_mem hp)
  · exact List.mem_append_right _ h

/-- No symbol of several characters ends with a stop or a point. -/
theorem isSymbol_append_eq_false {text : List Char} (htext : text ≠ [])
    (hc : isStop c = true ∨ c = '.') : isSymbol (text ++ [c]) = false := by
  have hall : ∀ x ∈ symbols.map (·.1) ++ otherSymbols,
      x.length ≤ 1 ∨ x.getLast?.all (fun d => !isStop d && d != '.') = true := by decide
  rw [Bool.eq_false_iff]
  intro hsymbol
  rcases hall _ (mem_of_isSymbol hsymbol) with hlength | hlast
  · rw [List.length_append, List.length_singleton] at hlength
    exact htext (List.length_eq_zero_iff.1 (by omega))
  · obtain ⟨hstop, hpoint⟩ : isStop c = false ∧ c ≠ '.' := by simpa using hlast
    rcases hc with hc | hc
    · exact absurd hc (by simp [hstop])
    · exact hpoint hc

theorem EndsBefore.isPart_eq_false (h : EndsBefore ts c) : α.isPart c = false := by
  have hword : isWordChar c = false ∧ ' ' ≤ c ∧ c ≤ '~' := by
    cases h with
    | stop hc =>
      simp only [isStop, List.contains_iff_mem, List.mem_cons, List.not_mem_nil, or_false] at hc
      rcases hc with rfl | rfl | rfl | rfl | rfl | rfl | rfl | rfl <;> decide
    | point => decide
    | angle => decide
  rw [α.part_printable c hword.2.1 hword.2.2, hword.1]

/-- What follows both texts follows the second one. -/
theorem EndsBefore.of_append (h : EndsBefore (ts ++ us) c) : EndsBefore us c := by
  cases h with
  | stop hc => exact .stop hc
  | point hlast => exact .point fun t ht => hlast t (by simp [Option.mem_def.1 ht])
  | angle hlast => exact .angle fun t ht => hlast t (by simp [Option.mem_def.1 ht])

theorem goesOn_eq_false (hc : isStop c = true) (text : List Char) : goesOn text c = false := by
  simp only [isStop, List.contains_iff_mem, List.mem_cons, List.not_mem_nil, or_false] at hc
  rcases hc with rfl | rfl | rfl | rfl | rfl | rfl | rfl | rfl <;>
    exact Bool.and_eq_false_iff.2 (.inr rfl)

/-- A finished token has no more characters. -/
theorem Scan.next_eq_none (h : s.tokens? = some ts) (hc : EndsBefore ts c) :
    s.next α c = none := by
  cases s with
  | between => rfl
  | quoted text => rfl
  | word text => simp [next, hc.isPart_eq_false]
  | number text =>
    have hnumber : goesOn text c = false := by
      cases h
      cases hc with
      | stop hc => exact goesOn_eq_false hc text
      | point hlast => simpa [Token.takesPoint] using hlast
      | angle hlast => exact absurd (hlast _ rfl) nofun
    simp [next, hnumber]
  | symbol text =>
    obtain ⟨t, ht, rfl⟩ := Option.map_eq_some_iff.1 h
    have htext : text ≠ [] := by
      rintro rfl
      cases ht
    have hsymbol : isSymbol (text ++ [c]) = false := by
      cases hc with
      | stop hc => exact isSymbol_append_eq_false htext (.inl hc)
      | point => exact isSymbol_append_eq_false htext (.inr rfl)
      | angle hlast =>
        have hall : ∀ p ∈ symbols, p.2.isName = false := by decide
        obtain ⟨p, hp, rfl⟩ := Option.map_eq_some_iff.1 ht
        simp [hall p (List.mem_of_find?_eq_some hp)] at hlast
    simp [next, hsymbol]
  | string text => cases h
  | escape text => cases h
  | unicode text digits => cases h

theorem lex_cons (c : Char) (b : List Char) :
    lex α (c :: b) = (Scan.start? α c).bind fun s => lexFrom α s b := by
  simp [lex, lexFrom, Scan.next, Scan.tokens?]

/-- Where a token ends, the rest is a text of its own. -/
theorem lexFrom_cons_of_next_eq_none (hnext : s.next α c = none) (h : s.tokens? = some ts)
    (b : List Char) : lexFrom α s (c :: b) = (lex α (c :: b)).map (ts ++ ·) := by
  rw [lex_cons, lexFrom, hnext]
  cases hs' : Scan.start? α c with
  | none => simp
  | some s' => cases hrest : lexFrom α s' b <;> simp [h, hrest]

/-- The tokens of a text do not depend on what follows. -/
theorem lexFrom_append (h : lexFrom α s a = some ts) (hc : EndsBefore ts c) :
    lexFrom α s (a ++ c :: b) = (lex α (c :: b)).map (ts ++ ·) := by
  -- along the text, for every token that has begun; only the last token meets what follows
  induction a generalizing s ts with
  | nil => exact lexFrom_cons_of_next_eq_none (Scan.next_eq_none h hc) h b
  | cons d a ih =>
    rw [lexFrom] at h
    rw [List.cons_append, lexFrom]
    cases hnext : s.next α d with
    | some s' =>
      rw [hnext] at h
      exact ih h hc
    | none =>
      simp only [hnext, Option.bind_eq_bind, Option.bind_eq_some_iff] at h ⊢
      obtain ⟨us, hus, s', hs', vs, hvs, hts⟩ := h
      cases hts
      cases hlex : lex α (c :: b) <;> simp [hus, hs', ih hvs hc.of_append, hlex]

/-! ## Putting texts together -/

/-- The text is cut into these tokens. -/
def Lexes (α : Alphabet) (cs : List Char) (ts : List Token) : Prop := lex α cs = some ts

theorem lexes_nil : Lexes α [] [] := rfl

theorem Lexes.append (ha : Lexes α a ts) (hb : Lexes α (c :: b) us) (hc : isStop c = true) :
    Lexes α (a ++ c :: b) (ts ++ us) := by
  rw [Lexes, lex, lexFrom_append ha (.stop hc), hb, Option.map_some]

/-- A point follows all texts that do not end with a number without point and suffix. -/
theorem Lexes.append_point (ha : Lexes α a ts) (hb : Lexes α ('.' :: b) us)
    (hpoint : ∀ t ∈ ts.getLast?, t.takesPoint = false) :
    Lexes α (a ++ '.' :: b) (ts ++ us) := by
  rw [Lexes, lex, lexFrom_append ha (.point hpoint), hb, Option.map_some]

theorem Lexes.append_angle (ha : Lexes α a ts) (hb : Lexes α ('<' :: b) us)
    (hname : ∀ t ∈ ts.getLast?, t.isName = true) : Lexes α (a ++ '<' :: b) (ts ++ us) := by
  rw [Lexes, lex, lexFrom_append ha (.angle hname), hb, Option.map_some]

theorem Lexes.blank (hb : Lexes α b us) : Lexes α (' ' :: b) us := by
  rw [Lexes, lex_cons]
  exact hb

/-- The characters that are a token by themselves, whatever follows. -/
def isSeparator (c : Char) : Bool :=
  [',', '.', '(', ')', '[', ']', '{', '}'].contains c

theorem lexFrom_separator (hc : isSeparator c = true) (ht : symbolToken? [c] = some t)
    (hb : Lexes α b us) : lexFrom α (.symbol [c]) b = some (t :: us) := by
  have hall : ∀ x ∈ symbols.map (·.1) ++ otherSymbols,
      x.length ≤ 1 ∨ x.head?.all (!isSeparator ·) = true := by decide
  have htokens : (Scan.symbol [c]).tokens? = some [t] := by simp [Scan.tokens?, ht]
  cases b with
  | nil =>
    cases hb
    exact htokens
  | cons d b =>
    have hnext : (Scan.symbol [c]).next α d = none := by
      have hsymbol : isSymbol [c, d] = false := by
        rw [Bool.eq_false_iff]
        intro hsymbol
        rcases hall _ (mem_of_isSymbol hsymbol) with hlength | hhead
        · exact absurd hlength (by simp)
        · exact absurd hc (by simpa using hhead)
      simp [Scan.next, hsymbol]
    rw [lexFrom_cons_of_next_eq_none hnext htokens, hb]
    rfl

/-- A separator stands for itself. -/
theorem Lexes.separator (hc : isSeparator c = true) (ht : symbolToken? [c] = some t)
    (hb : Lexes α b us) : Lexes α (c :: b) (t :: us) := by
  have hstart : Scan.start? α c = some (.symbol [c]) := by
    simp only [isSeparator, List.contains_iff_mem, List.mem_cons, List.not_mem_nil, or_false] at hc
    rcases hc with rfl | rfl | rfl | rfl | rfl | rfl | rfl | rfl <;> rfl
  rw [Lexes, lex_cons, hstart]
  exact lexFrom_separator hc ht hb

theorem lexes_symbol (op : BinaryOp) : Lexes α op.symbol.toList [.operator op] := by
  cases op <;> rfl

end ContractTests.Java
