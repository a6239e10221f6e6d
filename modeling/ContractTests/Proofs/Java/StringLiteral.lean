import ContractTests.Proofs.Java.Lexical

/-! # How Java reads a string literal

`Java.stringLiteral?` reads the text of a string literal in the two steps that Java takes: Unicode
escapes become code units wherever they stand (`translate?`), and then the quotes, the escapes and
the characters between them are read (`contents?`). The literal that is written for a string reads as
that string and as no other, and a scan goes past it as a whole (`javaLiteral_readsAs`).

Every character is read by itself, whatever follows it: what is written for a character has no
backslash left open before the next one.
-/

set_option autoImplicit false

namespace ContractTests.Java

open Text

/-! ## Strings of code units -/

/-- The UTF-16 code units of a character. -/
def codeUnits (c : Char) : List Nat :=
  if c.toNat < 0x10000 then [c.toNat]
  else [0xd800 + (c.toNat - 0x10000) / 0x400, 0xdc00 + (c.toNat - 0x10000) % 0x400]

/-- A string as Java holds it. -/
def utf16 (s : String) : List Nat := s.toList.flatMap codeUnits

/-- A character is no surrogate and has at most twenty-one bits. -/
theorem toNat_bounds (c : Char) :
    c.toNat < 0xd800 ∨ (0xdfff < c.toNat ∧ c.toNat < 0x110000) := c.valid

/-- Different characters do not start in the same way. -/
theorem codeUnits_append_inj {c d : Char} {units units' : List Nat}
    (h : codeUnits c ++ units = codeUnits d ++ units') : c = d ∧ units = units' := by
  have hc := toNat_bounds c
  have hd := toNat_bounds d
  unfold codeUnits at h
  split at h <;> split at h <;>
    simp only [List.cons_append, List.nil_append, List.cons.injEq] at h
  · exact ⟨Char.toNat_inj.1 h.1, h.2⟩
  · omega
  · omega
  · exact ⟨Char.toNat_inj.1 (by omega), h.2.2⟩

theorem utf16_injective : Function.Injective utf16 := by
  intro s t h
  suffices ∀ cs ds : List Char, cs.flatMap codeUnits = ds.flatMap codeUnits → cs = ds from
    String.toList_inj.1 (this _ _ h)
  intro cs
  induction cs with
  | nil =>
    intro ds h
    cases ds with
    | nil => rfl
    | cons d ds =>
      have hnil : codeUnits d = [] := (List.append_eq_nil_iff.1 h.symm).1
      unfold codeUnits at hnil
      split at hnil <;> cases hnil
  | cons c cs ih =>
    intro ds h
    cases ds with
    | nil =>
      have hnil : codeUnits c = [] := (List.append_eq_nil_iff.1 h).1
      unfold codeUnits at hnil
      split at hnil <;> cases hnil
    | cons d ds =>
      rw [List.flatMap_cons, List.flatMap_cons] at h
      obtain ⟨rfl, hrest⟩ := codeUnits_append_inj h
      rw [ih ds hrest]

/-! ## Unicode escapes -/

/-- The value of a hexadecimal digit. -/
def hexValue? (c : Char) : Option Nat :=
  if '0' ≤ c ∧ c ≤ '9' then some (c.toNat - '0'.toNat)
  else if 'a' ≤ c ∧ c ≤ 'f' then some (c.toNat - 'a'.toNat + 10)
  else if 'A' ≤ c ∧ c ≤ 'F' then some (c.toNat - 'A'.toNat + 10)
  else none

/-- The code unit that four hexadecimal digits stand for, with what follows them. -/
def codeUnit? : List Char → Option (Nat × List Char)
  | a :: b :: c :: d :: rest => do
    let digits ← [a, b, c, d].mapM hexValue?
    return (digits.foldl (fun n digit => 16 * n + digit) 0, rest)
  | _ => none

theorem codeUnit?_length {text after : List Char} {unit : Nat}
    (h : codeUnit? text = some (unit, after)) : after.length < text.length := by
  unfold codeUnit? at h
  split at h
  · obtain ⟨digits, -, heq⟩ := Option.bind_eq_some_iff.1 h
    cases heq
    simp only [List.length_cons]
    omega
  · cases h

/-- The code units of a text. A backslash with one `u` or more after it starts a Unicode escape,
unless an odd number of backslashes stands right before it; then it belongs to the last of them. -/
def translate? (odd : Bool) (text : List Char) : Option (List Nat) :=
  match text with
  | [] => some []
  | c :: rest =>
    if c = '\\' then
      if odd = false ∧ rest.head? = some 'u' then
        match _h : codeUnit? (rest.dropWhile (· == 'u')) with
        | some (unit, after) => (translate? false after).map (unit :: ·)
        | none => none
      else (translate? (!odd) rest).map (c.toNat :: ·)
    else (translate? false rest).map (codeUnits c ++ ·)
termination_by text.length
decreasing_by
  · have := codeUnit?_length _h
    have := (List.dropWhile_sublist (l := rest) (· == 'u')).length_le
    simp only [List.length_cons]
    omega
  · simp
  · simp

theorem translate?_cons {c : Char} (h : c ≠ '\\') (odd : Bool) (rest : List Char) :
    translate? odd (c :: rest) = (translate? false rest).map (codeUnits c ++ ·) := by
  rw [translate?, if_neg h]

/-- A backslash after an even number of them stays, unless a `u` follows it. -/
theorem translate?_backslash {rest : List Char} (h : rest.head? ≠ some 'u') :
    translate? false ('\\' :: rest) = (translate? true rest).map ('\\'.toNat :: ·) := by
  rw [translate?, if_pos rfl, if_neg fun hu => h hu.2]
  rfl

theorem translate?_second_backslash (rest : List Char) :
    translate? true ('\\' :: rest) = (translate? false rest).map ('\\'.toNat :: ·) := by
  rw [translate?, if_pos rfl, if_neg nofun]
  rfl

/-! ## Escapes and contents -/

/-- What the escapes of one character stand for. -/
def namedEscapes : List (Nat × Nat) :=
  [('b'.toNat, 0x08), ('s'.toNat, 0x20), ('t'.toNat, 0x09), ('n'.toNat, 0x0a), ('f'.toNat, 0x0c),
   ('r'.toNat, 0x0d), ('"'.toNat, '"'.toNat), ('\x27'.toNat, '\x27'.toNat),
   ('\\'.toNat, '\\'.toNat)]

def isOctalDigit (unit : Nat) : Bool := '0'.toNat ≤ unit && unit ≤ '7'.toNat

/-- The code unit of an octal escape, which has a third digit only if the first is at most three. -/
def octalEscape? (units : List Nat) : Option (Nat × List Nat) :=
  let digits :=
    (units.takeWhile isOctalDigit).take (if units.head?.any (· ≤ '3'.toNat) then 3 else 2)
  if digits.isEmpty then none
  else some (digits.foldl (fun n digit => 8 * n + (digit - '0'.toNat)) 0, units.drop digits.length)

theorem octalEscape?_length {units after : List Nat} {value : Nat}
    (h : octalEscape? units = some (value, after)) : after.length < units.length := by
  unfold octalEscape? at h
  extract_lets digits at h
  by_cases hempty : digits.isEmpty = true
  · rw [if_pos hempty] at h
    cases h
  · rw [if_neg hempty] at h
    obtain ⟨-, rfl⟩ := Prod.mk.inj (Option.some.inj h)
    have hpos := List.length_pos_iff.2 (mt List.isEmpty_iff.2 hempty)
    have hle : digits.length ≤ units.length :=
      ((List.take_sublist _ _).trans (List.takeWhile_sublist _)).length_le
    rw [List.length_drop]
    omega

/-- The code unit of the escape after a backslash, with what follows it. -/
def escape? : List Nat → Option (Nat × List Nat)
  | [] => none
  | unit :: rest =>
    match namedEscapes.lookup unit with
    | some value => some (value, rest)
    | none => octalEscape? (unit :: rest)

theorem escape?_length {units after : List Nat} {value : Nat}
    (h : escape? units = some (value, after)) : after.length < units.length := by
  unfold escape? at h
  split at h
  · cases h
  · split at h
    · cases h
      simp
    · exact octalEscape?_length h

/-- What stands before the closing quote, and what follows it. A line does not end in a literal. -/
def contents? (units : List Nat) : Option (List Nat × List Nat) :=
  match units with
  | [] => none
  | unit :: rest =>
    if unit = '"'.toNat then some ([], rest)
    else if unit = '\n'.toNat ∨ unit = '\r'.toNat then none
    else if unit = '\\'.toNat then
      match _h : escape? rest with
      | some (value, after) => (contents? after).map fun p => (value :: p.1, p.2)
      | none => none
    else (contents? rest).map fun p => (unit :: p.1, p.2)
termination_by units.length
decreasing_by
  · have := escape?_length _h
    simp only [List.length_cons]
    omega
  · simp

/-- The value of the string literal that a text starts with, and the code units after it. Three
quotes open a text block. -/
def stringLiteral? (text : List Char) : Option (List Nat × List Nat) := do
  match ← translate? false text with
  | 0x22 :: 0x22 :: 0x22 :: _ => none
  | 0x22 :: rest => contents? rest
  | _ => none

/-- The text is one string literal, and it stands for this string. -/
def ReadsAs (text value : String) : Prop := stringLiteral? text.toList = some (utf16 value, [])

/-! ## Reading what is written -/

/-- A character inside a literal after the first step. -/
def writtenUnits (c : Char) : List Nat :=
  if c = '"' ∨ c = '\\' then ['\\'.toNat, c.toNat]
  else if c = '\n' then ['\\'.toNat, 'n'.toNat]
  else if c = '\r' then ['\\'.toNat, 'r'.toNat]
  else if c = '\t' then ['\\'.toNat, 't'.toNat]
  else codeUnits c

/-- The digits that are written for a control character are four and read as its code. -/
theorem codeUnit?_hexDigits {c : Char} (h : isControl c = true) (rest : List Char) :
    (hexDigits 4 c.toNat ++ rest).dropWhile (· == 'u') = hexDigits 4 c.toNat ++ rest ∧
      codeUnit? (hexDigits 4 c.toNat ++ rest) = some (c.toNat, rest) := by
  have hlt := toNat_lt_of_isControl h
  have hdigits : ((List.range 0xa0).all fun n => (hexDigits 4 n).length == 4 &&
      (hexDigits 4 n).head? != some 'u' && codeUnit? (hexDigits 4 n) == some (n, [])) = true := by
    decide +kernel
  have hdigits := List.all_eq_true.1 hdigits c.toNat (List.mem_range.2 hlt)
  simp only [Bool.and_eq_true, beq_iff_eq, bne_iff_ne] at hdigits
  obtain ⟨⟨hlength, hhead⟩, hvalue⟩ := hdigits
  obtain ⟨a, b, d, e, heq⟩ := List.length_eq_four.1 hlength
  rw [heq] at hhead hvalue
  have hu : a ≠ 'u' := fun h => hhead (congrArg some h)
  rw [heq]
  refine ⟨by simp [hu], ?_⟩
  simp only [codeUnit?, List.cons_append, List.nil_append, Option.bind_eq_bind,
    Option.bind_eq_some_iff] at hvalue ⊢
  obtain ⟨digits, hdigits, hvalue⟩ := hvalue
  obtain ⟨hcode, -⟩ := Prod.mk.inj (Option.some.inj hvalue)
  exact ⟨digits, hdigits, by rw [hcode]; rfl⟩

/-- What is written for a character is translated by itself. -/
theorem translate?_javaEscape (c : Char) (rest : List Char) :
    translate? false (javaEscape c ++ rest) =
      (translate? false rest).map (writtenUnits c ++ ·) := by
  have hescape {d : Char} (hu : d ≠ 'u') (hd : d ≠ '\\') (hunits : codeUnits d = [d.toNat]) :
      translate? false (['\\', d] ++ rest) =
        (translate? false rest).map (['\\'.toNat, d.toNat] ++ ·) := by
    have hhead : (d :: rest).head? ≠ some 'u' := by simpa using hu
    rw [List.cons_append, List.singleton_append, translate?_backslash hhead, translate?_cons hd,
      Option.map_map, hunits]
    rfl
  unfold javaEscape writtenUnits
  split
  · rename_i hc
    subst hc
    exact hescape (by decide) (by decide) rfl
  split
  · rename_i hc
    subst hc
    have hhead : ('\\' :: rest).head? ≠ some 'u' := by simp
    rw [List.cons_append, List.singleton_append, translate?_backslash hhead,
      translate?_second_backslash, Option.map_map]
    rfl
  rename_i hquote hbackslash
  rw [if_neg (not_or.2 ⟨hquote, hbackslash⟩)]
  split
  · exact hescape (by decide) (by decide) rfl
  split
  · exact hescape (by decide) (by decide) rfl
  split
  · exact hescape (by decide) (by decide) rfl
  split
  · rename_i hcontrol
    obtain ⟨hmarker, hunit⟩ := codeUnit?_hexDigits hcontrol rest
    have hlt : c.toNat < 0x10000 :=
      Nat.lt_trans (toNat_lt_of_isControl hcontrol) (by decide)
    have hu : ('u' :: (hexDigits 4 c.toNat ++ rest)).dropWhile (· == 'u') =
        hexDigits 4 c.toNat ++ rest := by rw [List.dropWhile_cons_of_pos rfl, hmarker]
    rw [List.cons_append, List.cons_append, translate?, if_pos rfl, if_pos ⟨rfl, rfl⟩, codeUnits,
      if_pos hlt]
    split
    · rename_i unit after hread
      rw [hu, hunit] at hread
      cases hread
      rfl
    · rename_i hread
      rw [hu, hunit] at hread
      cases hread
  · rw [List.singleton_append, translate?_cons hbackslash]

theorem contents?_unit {unit : Nat} (hquote : unit ≠ '"'.toNat) (hnewline : unit ≠ '\n'.toNat)
    (hreturn : unit ≠ '\r'.toNat) (hbackslash : unit ≠ '\\'.toNat) (rest : List Nat) :
    contents? (unit :: rest) = (contents? rest).map fun p => (unit :: p.1, p.2) := by
  rw [contents?, if_neg hquote, if_neg (not_or.2 ⟨hnewline, hreturn⟩), if_neg hbackslash]

/-- A named escape is read as what it stands for. -/
theorem contents?_escape {name value : Nat} (h : namedEscapes.lookup name = some value)
    (rest : List Nat) :
    contents? ('\\'.toNat :: name :: rest) =
      (contents? rest).map fun p => (value :: p.1, p.2) := by
  have hescape : escape? (name :: rest) = some (value, rest) := by simp only [escape?, h]
  rw [contents?, if_neg (by decide), if_neg (by decide), if_pos rfl]
  split
  · rename_i value' after hread
    rw [hescape] at hread
    cases hread
    rfl
  · rename_i hread
    rw [hescape] at hread
    cases hread

/-- What is written for a character is read as its code units. -/
theorem contents?_writtenUnits (c : Char) (rest : List Nat) :
    contents? (writtenUnits c ++ rest) =
      (contents? rest).map fun p => (codeUnits c ++ p.1, p.2) := by
  unfold writtenUnits
  split
  · rename_i hc
    rcases hc with rfl | rfl
    · exact contents?_escape rfl rest
    · exact contents?_escape rfl rest
  rename_i hquoted
  split
  · rename_i hc
    subst hc
    exact contents?_escape rfl rest
  split
  · rename_i hc
    subst hc
    exact contents?_escape rfl rest
  split
  · rename_i hc
    subst hc
    exact contents?_escape rfl rest
  rename_i hnewline hreturn _
  have hne {d : Char} (hd : c ≠ d) : c.toNat ≠ d.toNat := mt Char.toNat_inj.1 hd
  unfold codeUnits
  split
  · exact contents?_unit (hne fun h => hquoted (.inl h)) (hne hnewline) (hne hreturn)
      (hne fun h => hquoted (.inr h)) rest
  · have hsurrogate {unit : Nat} (h : 0xd800 ≤ unit) (rest : List Nat) :
        contents? (unit :: rest) = (contents? rest).map fun p => (unit :: p.1, p.2) := by
      have hcodes : '"'.toNat < 0xd800 ∧ '\n'.toNat < 0xd800 ∧ '\r'.toNat < 0xd800 ∧
          '\\'.toNat < 0xd800 := by decide
      exact contents?_unit (by omega) (by omega) (by omega) (by omega) rest
    rw [List.cons_append, List.singleton_append, hsurrogate (by omega), hsurrogate (by omega),
      Option.map_map]
    rfl

/-- What is written for a character does not start with a quote. -/
theorem head?_writtenUnits_append (c : Char) (rest : List Nat) :
    (writtenUnits c ++ rest).head? ≠ some '"'.toNat := by
  unfold writtenUnits codeUnits
  split
  · simp
  split
  · simp
  split
  · simp
  split
  · simp
  rename_i hquoted _ _ _
  split
  · exact fun h => hquoted (.inl (Char.toNat_inj.1 (Option.some.inj h)))
  · intro h
    have hcode := Option.some.inj h
    have hsmall : '"'.toNat < 0xd800 := by decide
    omega

theorem stringLiteral?_javaLiteral (s : String) :
    stringLiteral? (javaLiteral s).toList = some (utf16 s, []) := by
  have htranslate : ∀ cs : List Char, translate? false (cs.flatMap javaEscape ++ ['"']) =
      some (cs.flatMap writtenUnits ++ ['"'.toNat]) := by
    intro cs
    induction cs with
    | nil =>
      rw [List.flatMap_nil, List.nil_append, translate?_cons (by decide), translate?]
      rfl
    | cons c cs ih =>
      rw [List.flatMap_cons, List.append_assoc, translate?_javaEscape, ih]
      simp
  have hcontents : ∀ cs : List Char, contents? (cs.flatMap writtenUnits ++ ['"'.toNat]) =
      some (cs.flatMap codeUnits, []) := by
    intro cs
    induction cs with
    | nil =>
      rw [List.flatMap_nil, List.nil_append, contents?, if_pos rfl]
      rfl
    | cons c cs ih =>
      rw [List.flatMap_cons, List.append_assoc, contents?_writtenUnits, ih]
      simp
  rw [toList_javaLiteral, literalText, stringLiteral?, translate?_cons (by decide), htranslate]
  simp only [Option.map_some, Option.bind_eq_bind, Option.bind_some]
  have hquote : codeUnits '"' = [0x22] := rfl
  rw [hquote, List.singleton_append]
  split
  · rename_i rest heq
    obtain ⟨-, hrest⟩ := List.cons.inj heq
    -- no character is written with a quote in front, and after the closing quote nothing comes
    cases hcs : s.toList with
    | nil => simp [hcs] at hrest
    | cons c cs =>
      rw [hcs, List.flatMap_cons, List.append_assoc] at hrest
      exact absurd (congrArg List.head? hrest) (head?_writtenUnits_append c _)
  · rename_i rest _ heq
    obtain ⟨-, rfl⟩ := List.cons.inj heq
    exact hcontents s.toList
  · rename_i hother
    exact absurd rfl (hother _)

/-- The literal of a string reads as that string and as no other, and to a scan of source text it is
one literal: every character of it belongs to a literal, which is closed after the last one and not
before. -/
theorem javaLiteral_readsAs (s : String) :
    (∀ value, ReadsAs (javaLiteral s) value ↔ value = s) ∧
      ∀ u c v, (javaLiteral s).toList = u ++ c :: v →
        (Lexical.code.run u).covers c = true ∧ (Lexical.code.run (u ++ [c]) = .code ↔ v = []) := by
  have hreads := stringLiteral?_javaLiteral s
  refine ⟨fun value => ⟨fun h => ?_, ?_⟩, fun u c v huv => ?_⟩
  · have hvalue := hreads.symm.trans h
    exact (utf16_injective (Prod.mk.inj (Option.some.inj hvalue)).1).symm
  · rintro rfl
    exact hreads
  · rw [toList_javaLiteral] at huv
    exact run_literal rfl (isContent_flatMap_javaEscape s.toList) huv

/-- A backslash before a `u`, and a quote that does not close the literal. -/
theorem javaLiteral_backslash_u_readsAs : ReadsAs (javaLiteral "\\u0041\"") "\\u0041\"" ∧
    (Lexical.code.run ['"', '\\', '\\', 'u', '0', '0', '4', '1', '\\']).covers '"' = true ∧
    (Lexical.code.run ['"', '\\', '\\', 'u', '0', '0', '4', '1', '\\', '"'] = .code ↔
      ['"'] = []) :=
  ⟨((javaLiteral_readsAs "\\u0041\"").1 _).2 rfl,
    (javaLiteral_readsAs "\\u0041\"").2 _ _ ['"'] (by decide)⟩

end ContractTests.Java
