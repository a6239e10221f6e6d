import ContractTests.Proofs.Java.Token
import ContractTests.Text.Quoted

/-! # Words, signs and literals

Every kind of text that an expression is written with is cut into the tokens that it is meant to be:
a name into an identifier, a sign before an operand into an operator, the digits of a number and the
characters of a string literal into one literal.
-/

set_option autoImplicit false

namespace ContractTests.Java

variable {α : Alphabet} {s : Scan} {a b : List Char} {c : Char} {ts us : List Token} {t : Token}

/-! ## Signs -/

/-- A symbol that has begun is the first token. -/
theorem exists_of_lexFrom_symbol {x : List Char} (h : lexFrom α (.symbol x) b = some ts) :
    ∃ y t us, x <+: y ∧ symbolToken? y = some t ∧ ts = t :: us := by
  induction b generalizing x with
  | nil =>
    obtain ⟨t, ht, rfl⟩ := Option.map_eq_some_iff.1 h
    exact ⟨x, t, [], List.prefix_rfl, ht, rfl⟩
  | cons c b ih =>
    rw [lexFrom] at h
    simp only [Scan.next] at h
    split at h
    · rename_i s' hs'
      split at hs' <;> cases hs'
      obtain ⟨y, t, us, hy, ht, hts⟩ := ih h
      exact ⟨y, t, us, (List.prefix_append _ _).trans hy, ht, hts⟩
    · simp only [Scan.tokens?, Option.bind_eq_bind, Option.bind_eq_some_iff] at h
      obtain ⟨token, htoken, s', -, us, -, hts⟩ := h
      obtain ⟨t, ht, rfl⟩ := Option.map_eq_some_iff.1 htoken
      cases hts
      exact ⟨x, t, us, List.prefix_rfl, ht, rfl⟩

/-- A sign stands for itself before everything but operators. -/
theorem Lexes.signed (op : UnaryOp) (hb : Lexes α b (t :: us)) (ht : ∀ op, t ≠ .operator op) :
    Lexes α (op.symbol.toList ++ b) (signToken op :: t :: us) := by
  obtain ⟨c, hc, hsign, htoken⟩ : ∃ c, op.symbol.toList = [c] ∧
      Scan.start? α c = some (.symbol [c]) ∧ symbolToken? [c] = some (signToken op) := by
    cases op <;> exact ⟨_, rfl, rfl, rfl⟩
  have hpairs : ∀ x ∈ symbols.map (·.1) ++ otherSymbols, x.take 1 = [c] →
      x.length ≤ 1 ∨ x[1]?.all ['=', '-', '+', '>'].contains = true := by
    cases op <;> cases hc <;> decide
  have hoperators : ∀ p ∈ symbols, ∀ d ∈ p.1.head?, d ∈ ['=', '-', '+', '>'] →
      ∃ op, p.2 = .operator op := by
    have hall : ∀ p ∈ symbols, p.1.head?.any ['=', '-', '+', '>'].contains = true →
        ∃ op ∈ BinaryOp.all, p.2 = .operator op := by decide
    intro p hp d hd hmem
    obtain ⟨op, -, hop⟩ := hall p hp (by simpa [Option.mem_def.1 hd] using hmem)
    exact ⟨op, hop⟩
  have htokens : (Scan.symbol [c]).tokens? = some [signToken op] := by
    simp [Scan.tokens?, htoken]
  rw [hc, List.singleton_append, Lexes, lex_cons, hsign, Option.bind_some]
  cases b with
  | nil => cases hb
  | cons d b =>
    have hnext : (Scan.symbol [c]).next α d = none := by
      have hsymbol : isSymbol [c, d] = false := by
        rw [Bool.eq_false_iff]
        intro hsymbol
        rcases hpairs _ (mem_of_isSymbol hsymbol) rfl with hlength | hd
        · exact absurd hlength (by simp)
        -- then the operand starts with a symbol, and that is an operator
        · have hd : d ∈ ['=', '-', '+', '>'] := List.contains_iff_mem.1 hd
          have hstart : Scan.start? α d = some (.symbol [d]) := by
            simp only [List.mem_cons, List.not_mem_nil, or_false] at hd
            rcases hd with rfl | rfl | rfl | rfl <;> rfl
          rw [Lexes, lex_cons, hstart, Option.bind_some] at hb
          obtain ⟨y, t', us', ⟨v, rfl⟩, hy, heq⟩ := exists_of_lexFrom_symbol hb
          cases heq
          obtain ⟨p, hp, rfl⟩ := Option.map_eq_some_iff.1 hy
          have hkey := List.find?_some hp
          obtain ⟨op', hop'⟩ := hoperators p (List.mem_of_find?_eq_some hp) d
            (by simp [beq_iff_eq.1 hkey]) hd
          exact ht op' hop'
      simp [Scan.next, hsymbol]
    rw [lexFrom_cons_of_next_eq_none hnext htokens, hb]
    rfl

/-! ## Names -/

theorem lexFrom_word {text cs : List Char} (h : ∀ c ∈ cs, α.isPart c = true) :
    lexFrom α (.word text) cs = some [wordToken (String.ofList (text ++ cs))] := by
  induction cs generalizing text with
  | nil => simp [lexFrom, Scan.tokens?]
  | cons c cs ih =>
    obtain ⟨hc, hcs⟩ := List.forall_mem_cons.1 h
    simp [lexFrom, Scan.next, hc, ih hcs]

/-- A letter starts no other token. -/
theorem start?_of_isStart (hc : α.isStart c = true) : Scan.start? α c = some (.word [c]) := by
  have hother : ∀ d ∈ ((symbols.map (·.1) ++ otherSymbols).filterMap List.head?) ++ ['"'],
      isWordChar d = false ∧ ' ' ≤ d ∧ d ≤ '~' := List.all_iff_forall_prop.1 (by decide)
  have hpart := α.part_of_start c hc
  have hblank : c ∉ blanks := fun h => by simp [α.part_blank c h] at hpart
  have hmem : c ∉ ((symbols.map (·.1) ++ otherSymbols).filterMap List.head?) ++ ['"'] := fun h => by
    obtain ⟨hword, hlow, hhigh⟩ := hother c h
    simp [α.part_printable c hlow hhigh, hword] at hpart
  rw [List.mem_append, not_or] at hmem
  have hsymbol : isSymbol [c] = false := by
    rw [Bool.eq_false_iff]
    exact fun h => hmem.1 (List.mem_filterMap.2 ⟨_, mem_of_isSymbol h, rfl⟩)
  have hdigit : c.isDigit = false := by
    rw [Bool.eq_false_iff]
    exact fun h => by simp [α.start_of_digit c h] at hc
  have hquote : c ≠ '"' := fun h => hmem.2 (List.mem_singleton.2 h)
  simp [Scan.start?, hblank, hsymbol, hquote, hdigit, hc]

theorem lexes_word {cs : List Char} (hc : α.isStart c = true) (hcs : ∀ d ∈ cs, α.isPart d = true) :
    Lexes α (c :: cs) [wordToken (String.ofList (c :: cs))] := by
  rw [Lexes, lex_cons, start?_of_isStart hc]
  exact lexFrom_word hcs

theorem lexes_identifier {name : String} (h : α.isIdentifier name = true) :
    Lexes α name.toList [.identifier name] := by
  unfold Alphabet.isIdentifier at h
  split at h
  · cases h
  · rename_i c cs hname
    simp only [Bool.and_eq_true, List.all_eq_true, Bool.not_eq_true'] at h
    obtain ⟨⟨⟨hstart, hpart⟩, hliteral⟩, hkeyword⟩ := h
    have hword := lexes_word hstart hpart
    rw [← hname, String.ofList_toList] at hword
    rw [hname] at *
    simpa only [wordToken, hliteral, hkeyword, Bool.false_eq_true, if_false] using hword

theorem part_of_isWordChar (hc : isWordChar c = true) : α.isPart c = true := by
  have hrange : ' ' ≤ c ∧ c ≤ '~' := by
    simp only [isWordChar, Char.isAlphanum, Bool.or_eq_true, beq_iff_eq] at hc
    rw [Char.le_def, Char.le_def, UInt32.le_iff_toNat_le, UInt32.le_iff_toNat_le]
    change 32 ≤ c.toNat ∧ c.toNat ≤ 126
    rcases hc with ((halpha | hdigit) | rfl) | rfl
    · have := toNat_of_isAlpha halpha
      omega
    · have := toNat_of_isDigit hdigit
      omega
    · decide
    · decide
  rw [α.part_printable c hrange.1 hrange.2, hc]

/-- Letters, digits and underscores of ASCII, the first of them a letter. -/
def isAsciiWord (word : String) : Bool :=
  word.toList.all isWordChar && word.toList.head?.any Char.isAlpha

theorem exists_of_isAsciiWord {word : String} (h : isAsciiWord word = true) :
    ∃ c cs, word.toList = c :: cs ∧ α.isStart c = true ∧ ∀ d ∈ cs, α.isPart d = true := by
  rw [isAsciiWord, Bool.and_eq_true, List.all_eq_true, Option.any_eq_true] at h
  obtain ⟨hall, c, hc, halpha⟩ := h
  obtain ⟨cs, hword⟩ := List.head?_eq_some_iff.1 hc
  exact ⟨c, cs, hword, α.start_of_alpha c halpha, fun d hd =>
    part_of_isWordChar (hall d (hword ▸ List.mem_cons_of_mem c hd))⟩

/-- Every alphabet has the words of ASCII. -/
theorem lexes_ascii (word : String) (h : isAsciiWord word = true) :
    Lexes α word.toList [wordToken word] := by
  obtain ⟨c, cs, hword, hstart, hpart⟩ := exists_of_isAsciiWord (α := α) h
  have hlexes := lexes_word hstart hpart
  rw [← hword, String.ofList_toList] at hlexes
  exact hlexes

/-- Whether the name is a word of ASCII that is not reserved. -/
def isAsciiIdentifier (name : String) : Bool :=
  isAsciiWord name && !literalWords.contains name && !keywords.contains name

theorem isIdentifier_of_ascii {name : String} (h : isAsciiIdentifier name = true) :
    α.isIdentifier name = true := by
  rw [isAsciiIdentifier, Bool.and_eq_true, Bool.and_eq_true] at h
  obtain ⟨c, cs, hname, hstart, hpart⟩ := exists_of_isAsciiWord (α := α) h.1.1
  have hparts : cs.all α.isPart = true := List.all_eq_true.2 hpart
  simp only [Alphabet.isIdentifier, hname, hstart, hparts, h.1.2, h.2, Bool.and_self]

/-! ## Literals -/

theorem isSuffix_of_isDigit (hc : c.isDigit = true) : isSuffix c = false := by
  rw [Bool.eq_false_iff]
  intro hsuffix
  simp only [isSuffix, List.contains_iff_mem, List.mem_cons, List.not_mem_nil, or_false] at hsuffix
  rcases hsuffix with rfl | rfl | rfl | rfl | rfl | rfl <;> exact absurd hc (by decide)

theorem any_isSuffix_of_digits {digits : List Char} (h : ∀ c ∈ digits, c.isDigit = true) :
    digits.any isSuffix = false :=
  List.any_eq_false.2 fun c hc => by simp [isSuffix_of_isDigit (h c hc)]

theorem lexFrom_digits {text digits : List Char} (htext : text.any isSuffix = false)
    (h : ∀ c ∈ digits, c.isDigit = true) (rest : List Char) :
    lexFrom α (.number text) (digits ++ rest) = lexFrom α (.number (text ++ digits)) rest := by
  induction digits generalizing text with
  | nil => simp
  | cons c digits ih =>
    obtain ⟨hc, hdigits⟩ := List.forall_mem_cons.1 h
    have hgoes : goesOn text c = true := by simp [goesOn, htext, hc]
    have hmore : (text ++ [c]).any isSuffix = false := by simp [htext, isSuffix_of_isDigit hc]
    simp [lexFrom, Scan.next, hgoes, ih hmore hdigits]

/-- A digit starts a number. -/
theorem start?_of_isDigit (hc : c.isDigit = true) : Scan.start? α c = some (.number [c]) := by
  have hother : ∀ d ∈ ((symbols.map (·.1) ++ otherSymbols).filterMap List.head?) ++ '"' :: blanks,
      d.isDigit = false := List.all_iff_forall_prop.1 (by decide)
  have hmem : c ∉ ((symbols.map (·.1) ++ otherSymbols).filterMap List.head?) ++ '"' :: blanks :=
    fun h => by simp [hother c h] at hc
  rw [List.mem_append, List.mem_cons, not_or, not_or] at hmem
  have hsymbol : isSymbol [c] = false := by
    rw [Bool.eq_false_iff]
    exact fun h => hmem.1 (List.mem_filterMap.2 ⟨_, mem_of_isSymbol h, rfl⟩)
  simp [Scan.start?, hmem.2.2, hsymbol, hmem.2.1, hc]

section Numbers

variable {digits : List Char}

theorem lex_digits (hne : digits ≠ []) (h : ∀ c ∈ digits, c.isDigit = true) (rest : List Char) :
    lex α (digits ++ rest) = lexFrom α (.number digits) rest := by
  obtain ⟨c, digits, rfl⟩ := List.exists_cons_of_ne_nil hne
  obtain ⟨hc, hdigits⟩ := List.forall_mem_cons.1 h
  have hsuffix : [c].any isSuffix = false := by simp [isSuffix_of_isDigit hc]
  rw [List.cons_append, lex_cons, start?_of_isDigit hc, Option.bind_some,
    lexFrom_digits hsuffix hdigits, List.singleton_append]

/-- A natural number. A point after it would belong to it. -/
theorem lexes_digits (hne : digits ≠ []) (h : ∀ c ∈ digits, c.isDigit = true) :
    Lexes α digits [.number (String.ofList digits)] := by
  have hlex := lex_digits (α := α) hne h []
  rw [List.append_nil] at hlex
  rw [Lexes, hlex, lexFrom, Scan.tokens?]

/-- A natural number of type `long`. -/
theorem lexes_long (hne : digits ≠ []) (h : ∀ c ∈ digits, c.isDigit = true) :
    Lexes α (digits ++ ['L']) [.number (String.ofList (digits ++ ['L']))] := by
  have hgoes : goesOn digits 'L' = true := by
    have hpoint : '.' ∉ digits := fun hmem => absurd (h _ hmem) (by decide)
    simp [goesOn, any_isSuffix_of_digits h, hpoint, isSuffix]
  rw [Lexes, lex_digits hne h, lexFrom, Scan.next, if_pos hgoes]
  rfl

theorem lexes_decimal {fraction : List Char} (hne : digits ≠ [])
    (h : ∀ c ∈ digits ++ fraction, c.isDigit = true) :
    Lexes α (digits ++ '.' :: fraction) [.number (String.ofList (digits ++ '.' :: fraction))] := by
  obtain ⟨hdigits, hfraction⟩ := List.forall_mem_append.1 h
  have hsuffix := any_isSuffix_of_digits hdigits
  have hgoes : goesOn digits '.' = true := by
    have hpoint : '.' ∉ digits := fun hmem => absurd (hdigits _ hmem) (by decide)
    simp [goesOn, hsuffix, hpoint]
  have hpoint : (digits ++ ['.']).any isSuffix = false := by
    rw [List.any_append, hsuffix]
    rfl
  have hrest := lexFrom_digits (α := α) hpoint hfraction []
  rw [List.append_nil] at hrest
  rw [Lexes, lex_digits hne hdigits, lexFrom, Scan.next, if_pos hgoes]
  simp only [hrest, lexFrom, Scan.tokens?, List.append_assoc, List.singleton_append]

end Numbers

/-- A number with a point or a suffix does not go on with a point. -/
theorem goesOn_point_of_mem {text : List Char} (h : '.' ∈ text ∨ 'L' ∈ text) :
    goesOn text '.' = false := by
  rcases h with h | h
  · simp [goesOn, h, isSuffix]
  · have hany : text.any isSuffix = true := List.any_eq_true.2 ⟨'L', h, rfl⟩
    simp [goesOn, hany]

open Text

/-- The digits of a Unicode escape. -/
theorem lexFrom_unicode (text rest : List Char) {w x y z : Char}
    (hdigits : ∀ c ∈ [w, x, y, z], isHexDigit c.toLower = true)
    (hbreaks : breakingEscapes.contains ([w, x, y, z].map Char.toLower) = false) :
    lexFrom α (.unicode text []) (w :: x :: y :: z :: rest) =
      lexFrom α (.string (text ++ [w, x, y, z])) rest := by
  have hshort : ∀ digits : List Char, digits.length < 4 →
      breakingEscapes.contains digits = false := by
    intro digits hlength
    have hfour : ∀ d ∈ breakingEscapes, d.length = 4 := by decide
    rw [Bool.eq_false_iff]
    exact fun h => by have := hfour digits (List.contains_iff_mem.1 h); omega
  simp only [List.forall_mem_cons, List.not_mem_nil, false_imp_iff, implies_true, and_true]
    at hdigits
  obtain ⟨hw, hx, hy, hz⟩ := hdigits
  simp only [List.map_cons, List.map_nil] at hbreaks
  simp [lexFrom, Scan.next, hw, hx, hy, hz, hbreaks, hshort, -List.contains_eq_mem]

/-- A control character is written with four digits, and is no line end. -/
theorem hexDigits_of_isControl (hc : isControl c = true) (hline : c ≠ '\n' ∧ c ≠ '\r') :
    ∃ w x y z, hexDigits 4 c.toNat = [w, x, y, z] ∧
      (∀ c ∈ [w, x, y, z], isHexDigit c.toLower = true) ∧
      breakingEscapes.contains ([w, x, y, z].map Char.toLower) = false := by
  have hall : ∀ n ∈ List.range 0xa0, n ∉ [10, 13, 34, 92] →
      (hexDigits 4 n).length = 4 ∧ (hexDigits 4 n).all (isHexDigit ·.toLower) = true ∧
        breakingEscapes.contains ((hexDigits 4 n).map Char.toLower) = false := by decide +kernel
  have hne : ∀ d : Char, c ≠ d → c.toNat ≠ d.toNat := fun d h heq => h (Char.toNat_inj.1 heq)
  simp only [isControl, Bool.or_eq_true, Bool.and_eq_true, decide_eq_true_eq] at hc
  have hnewline : c.toNat ≠ 10 := hne '\n' hline.1
  have hreturn : c.toNat ≠ 13 := hne '\r' hline.2
  obtain ⟨hlength, hdigits, hbreaks⟩ := hall c.toNat (List.mem_range.2 (by omega))
    (by simp only [List.mem_cons, List.not_mem_nil, or_false]; omega)
  obtain ⟨w, x, y, z, hwxyz⟩ : ∃ w x y z, hexDigits 4 c.toNat = [w, x, y, z] := by
    match hexDigits 4 c.toNat, hlength with
    | [w, x, y, z], _ => exact ⟨w, x, y, z, rfl⟩
  rw [hwxyz] at hdigits hbreaks
  exact ⟨w, x, y, z, hwxyz, List.all_eq_true.1 hdigits, hbreaks⟩

/-- What a string literal holds is one character or one escape after another. -/
theorem lexFrom_javaEscape (text : List Char) (c : Char) (rest : List Char) :
    lexFrom α (.string text) (javaEscape c ++ rest) =
      lexFrom α (.string (text ++ javaEscape c)) rest := by
  have hescape (d : Char) (hd : escapable.contains d = true) (hu : d ≠ 'u') :
      lexFrom α (.string text) (['\\', d] ++ rest) =
        lexFrom α (.string (text ++ ['\\', d])) rest := by
    simp [lexFrom, Scan.next, List.contains_iff_mem.1 hd, hu]
  unfold javaEscape
  split
  · exact hescape '"' (by decide) (by decide)
  split
  · exact hescape '\\' (by decide) (by decide)
  split
  · exact hescape 'n' (by decide) (by decide)
  split
  · exact hescape 'r' (by decide) (by decide)
  split
  · exact hescape 't' (by decide) (by decide)
  split
  · rename_i hnewline hreturn _ hcontrol
    obtain ⟨w, x, y, z, hdigits, hhex, hbreaks⟩ :=
      hexDigits_of_isControl hcontrol ⟨hnewline, hreturn⟩
    have hunicode := lexFrom_unicode (α := α) (text ++ ['\\', 'u']) rest hhex hbreaks
    rw [hdigits]
    simpa [lexFrom, Scan.next] using hunicode
  · simp [lexFrom, Scan.next, *]

theorem lexFrom_string (text cs : List Char) :
    lexFrom α (.string text) (cs.flatMap javaEscape ++ ['"']) =
      some [.literal (String.ofList (text ++ cs.flatMap javaEscape ++ ['"']))] := by
  induction cs generalizing text with
  | nil => simp [lexFrom, Scan.next, Scan.tokens?]
  | cons c cs ih =>
    rw [List.flatMap_cons, List.append_assoc, lexFrom_javaEscape, ih]
    simp only [List.append_assoc]

theorem lexes_javaLiteral (s : String) :
    Lexes α (javaLiteral s).toList [.literal (javaLiteral s)] := by
  have hstart : Scan.start? α '"' = some (.string ['"']) := rfl
  rw [javaLiteral, String.toList_ofList, javaLiteralChars, Lexes, lex_cons, hstart,
    Option.bind_some, lexFrom_string]
  rfl

end ContractTests.Java
