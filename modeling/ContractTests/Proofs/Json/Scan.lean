import ContractTests.Json.Printer
import ContractTests.Json.Reader
import Mathlib.Algebra.Group.Nat.Defs
import Mathlib.Data.List.TakeWhile

/-! # Scanning JSON

`Token.scan_cons` says what the scanner does at the start of a text, without its bound on the number
of steps. The texts of the scalars scan to one token each, whatever follows them, provided that it
does not go on with a number (`Token.EndsNumber`).
-/

set_option autoImplicit false

namespace ContractTests.Json.Token

variable {cs left rest : List Char} {token : Token}

/-! ## Numbers -/

/-- No number goes on with this text. -/
def EndsNumber (rest : List Char) : Prop :=
  ∀ c ∈ rest.head?, c.isDigit = false ∧ c ≠ '.' ∧ c ≠ 'e' ∧ c ≠ 'E'

theorem endsNumber_nil : EndsNumber [] := nofun

theorem takeWhile_isDigit_append (hr : EndsNumber rest) :
    (cs ++ rest).takeWhile Char.isDigit = cs.takeWhile Char.isDigit := by
  induction cs with
  | nil =>
    cases rest with
    | nil => rfl
    | cons c rest => exact List.takeWhile_cons_of_neg (by simp [(hr c rfl).1])
  | cons c cs ih => rw [List.cons_append, List.takeWhile_cons, List.takeWhile_cons, ih]

theorem dropWhile_isDigit_append (hr : EndsNumber rest) :
    (cs ++ rest).dropWhile Char.isDigit = cs.dropWhile Char.isDigit ++ rest := by
  induction cs with
  | nil =>
    cases rest with
    | nil => rfl
    | cons c rest => exact List.dropWhile_cons_of_neg (by simp [(hr c rfl).1])
  | cons c cs ih =>
    rw [List.cons_append, List.dropWhile_cons, List.dropWhile_cons, ih]
    split <;> rfl

theorem fraction?_append {digits : List Char} (h : fraction? cs = some (digits, left))
    (hr : EndsNumber rest) : fraction? (cs ++ rest) = some (digits, left ++ rest) := by
  cases cs with
  | nil =>
    cases h
    cases rest with
    | nil => rfl
    | cons c rest =>
      have hc := (hr c rfl).2.1
      simp [fraction?, hc]
  | cons c cs =>
    by_cases hc : c = '.'
    · subst hc
      simp only [fraction?, List.cons_append, takeWhile_isDigit_append hr,
        dropWhile_isDigit_append hr] at h ⊢
      split at h
      · cases h
      · rename_i hdigits
        cases h
        rw [if_neg hdigits]
    · have hnone (cs : List Char) : fraction? (c :: cs) = some ([], c :: cs) := by
        simp [fraction?, hc]
      rw [hnone] at h
      cases h
      exact hnone (cs ++ rest)

/-- The sign of an exponent and what follows it. -/
def exponentSign : List Char → Bool × List Char
  | '-' :: rest => (true, rest)
  | '+' :: rest => (false, rest)
  | rest => (false, rest)

/-- The value of an exponent after its sign. -/
def exponentDigits? (signed : Bool × List Char) : Option (Int × Bool × List Char) :=
  let digits := signed.2.takeWhile Char.isDigit
  if digits.isEmpty then none
  else
    let n : Int := naturalValue digits
    some (if signed.1 then -n else n, true, signed.2.dropWhile Char.isDigit)

theorem exponent?_cons (c : Char) (cs : List Char) :
    exponent? (c :: cs) =
      if c = 'e' ∨ c = 'E' then exponentDigits? (exponentSign cs) else some (0, false, c :: cs) :=
  rfl

theorem exponentSign_append (hcs : cs ≠ []) :
    exponentSign (cs ++ rest) = ((exponentSign cs).1, (exponentSign cs).2 ++ rest) := by
  cases cs with
  | nil => exact absurd rfl hcs
  | cons c cs =>
    rw [List.cons_append]
    unfold exponentSign
    split <;> simp_all

theorem exponentDigits?_append {signed : Bool × List Char} {n : Int} {given : Bool}
    (h : exponentDigits? signed = some (n, given, left)) (hr : EndsNumber rest) :
    exponentDigits? (signed.1, signed.2 ++ rest) = some (n, given, left ++ rest) := by
  simp only [exponentDigits?, takeWhile_isDigit_append hr, dropWhile_isDigit_append hr] at h ⊢
  split at h
  · cases h
  · rename_i hdigits
    cases h
    rw [if_neg hdigits]

theorem exponent?_append {n : Int} {given : Bool} (h : exponent? cs = some (n, given, left))
    (hr : EndsNumber rest) : exponent? (cs ++ rest) = some (n, given, left ++ rest) := by
  cases cs with
  | nil =>
    cases h
    cases rest with
    | nil => rfl
    | cons c rest =>
      obtain ⟨-, -, he, hE⟩ := hr c rfl
      simp [exponent?, he, hE]
  | cons c cs =>
    rw [exponent?_cons] at h
    rw [List.cons_append, exponent?_cons]
    by_cases hc : c = 'e' ∨ c = 'E'
    · rw [if_pos hc] at h ⊢
      have hcs : cs ≠ [] := by
        rintro rfl
        cases h
      rw [exponentSign_append hcs]
      exact exponentDigits?_append h hr
    · rw [if_neg hc] at h ⊢
      cases h
      rfl

/-- The token of a number of which sign, digits and exponent were read. -/
def numberToken (negative : Bool) (whole fraction : List Char) (exponent : Int) (given : Bool) :
    Token :=
  let n := naturalValue whole
  if fraction.isEmpty && !given && !negative && n < Nat.pow 2 64 then .integer n
  else if fraction.isEmpty && !given && negative && n ≠ 0 && n ≤ Nat.pow 2 63 then .integer (-n)
  else
    let s := (Significand.ofWhole whole).withFraction fraction
    match Significand.toDouble? { s with exponent := s.exponent + exponent } with
    | some x => .double (if negative then x.negated else x)
    | none => .overflow

/-- The digits of a number and its exponent, and whether it has one. -/
structure Parts where
  whole : List Char
  fraction : List Char
  exponent : Int
  given : Bool

/-- The parts of a number after its sign. -/
def parts? (cs : List Char) : Option (Parts × List Char) :=
  let whole := cs.takeWhile Char.isDigit
  if whole.isEmpty then none
  else
    (fraction? (cs.dropWhile Char.isDigit)).bind fun (fraction, left) =>
      (exponent? left).bind fun (exponent, given, left) =>
        some (⟨whole, fraction, exponent, given⟩, left)

theorem parts?_append {p : Parts} (h : parts? cs = some (p, left)) (hr : EndsNumber rest) :
    parts? (cs ++ rest) = some (p, left ++ rest) := by
  simp only [parts?, takeWhile_isDigit_append hr, dropWhile_isDigit_append hr] at h ⊢
  split at h
  · cases h
  · rename_i hwhole
    obtain ⟨⟨digits, left₁⟩, hfraction, h⟩ := Option.bind_eq_some_iff.1 h
    obtain ⟨⟨n, given, left₂⟩, hexponent, h⟩ := Option.bind_eq_some_iff.1 h
    cases h
    rw [if_neg hwhole, fraction?_append hfraction hr, Option.bind_some,
      exponent?_append hexponent hr, Option.bind_some]

theorem unsigned?_eq (negative : Bool) (cs : List Char) :
    unsigned? negative cs =
      let whole := cs.takeWhile Char.isDigit
      if whole.isEmpty || (whole.head? == some '0' && whole.length != 1) then none
      else
        (parts? cs).map fun (p, left) =>
          (numberToken negative p.whole p.fraction p.exponent p.given, left) := by
  unfold unsigned? parts? numberToken
  dsimp only
  split
  · rfl
  · rename_i hwhole
    simp only [Bool.or_eq_true, not_or] at hwhole
    rw [if_neg hwhole.1, Option.map_bind]
    refine congrArg _ (funext fun _ => ?_)
    rw [Function.comp_apply, Option.map_bind]
    refine congrArg _ (funext fun _ => ?_)
    simp only [Function.comp_apply, Option.map_some]
    split
    · rfl
    · split
      · rfl
      · split <;> simp [*]

theorem unsigned?_append {negative : Bool} (h : unsigned? negative cs = some (token, left))
    (hr : EndsNumber rest) : unsigned? negative (cs ++ rest) = some (token, left ++ rest) := by
  simp only [unsigned?_eq, takeWhile_isDigit_append hr] at h ⊢
  split at h
  · cases h
  · rename_i hwhole
    obtain ⟨⟨p, left₁⟩, hp, h⟩ := Option.map_eq_some_iff.1 h
    cases h
    rw [if_neg hwhole, parts?_append hp hr, Option.map_some]

theorem number?_append (h : number? cs = some (token, left)) (hr : EndsNumber rest) :
    number? (cs ++ rest) = some (token, left ++ rest) := by
  cases cs with
  | nil => cases h
  | cons c cs =>
    by_cases hc : c = '-'
    · subst hc
      have happend : unsigned? true (cs ++ rest) = some (token, left ++ rest) :=
        unsigned?_append h hr
      exact happend
    · have hplain (cs : List Char) : number? (c :: cs) = unsigned? false (c :: cs) := by
        simp [number?, hc]
      rw [hplain] at h
      rw [List.cons_append, hplain]
      exact unsigned?_append h hr

/-! ## Integers -/

theorem decimalDigits_ne_nil (n : Nat) : decimalDigits n ≠ [] :=
  List.ne_nil_of_length_pos Nat.length_toDigits_pos

theorem isDigit_of_mem_decimalDigits {n : Nat} {c : Char} (hc : c ∈ decimalDigits n) :
    c.isDigit = true :=
  Nat.isDigit_of_mem_toDigits (by decide) (by decide) hc

theorem naturalValue_eq (digits : List Char) :
    naturalValue digits = Nat.ofDigitChars 10 digits 0 := by
  simp only [naturalValue, Nat.ofDigitChars_eq_foldl, digitValue, Nat.mul_comm]

theorem naturalValue_decimalDigits (n : Nat) : naturalValue (decimalDigits n) = n := by
  rw [naturalValue_eq]
  exact Nat.ofDigitChars_toDigits (by decide) (by decide)

theorem ofDigitChars_lt {digits : List Char} (h : ∀ c ∈ digits, c.isDigit = true) (init : Nat) :
    Nat.ofDigitChars 10 digits init < (init + 1) * 10 ^ digits.length := by
  induction digits generalizing init with
  | nil => simp
  | cons c digits ih =>
    obtain ⟨hc, hdigits⟩ := List.forall_mem_cons.1 h
    have hvalue : c.toNat - '0'.toNat ≤ 9 := by
      have hle : c.toNat ≤ 57 := by
        simp only [Char.isDigit, Bool.and_eq_true, decide_eq_true_eq, UInt32.le_iff_toNat_le] at hc
        exact hc.2
      have hzero : '0'.toNat = 48 := rfl
      omega
    rw [Nat.ofDigitChars_cons, List.length_cons, Nat.pow_succ']
    calc Nat.ofDigitChars 10 digits (10 * init + (c.toNat - '0'.toNat))
        < (10 * init + (c.toNat - '0'.toNat) + 1) * 10 ^ digits.length := ih hdigits _
      _ ≤ ((init + 1) * 10) * 10 ^ digits.length := Nat.mul_le_mul_right _ (by omega)
      _ = (init + 1) * (10 * 10 ^ digits.length) := Nat.mul_assoc ..

/-- No number but zero starts with a zero. -/
theorem length_of_head_eq_zero {n : Nat} (h : (decimalDigits n).head? = some '0') :
    (decimalDigits n).length = 1 := by
  have hall : ∀ c ∈ decimalDigits n, c.isDigit = true := fun _ => isDigit_of_mem_decimalDigits
  have hvalue := naturalValue_decimalDigits n
  have hlength (k : Nat) (hk : 0 < k) : (decimalDigits n).length ≤ k ↔ n < 10 ^ k :=
    Nat.length_toDigits_le_iff (by decide) hk
  cases hdigits : decimalDigits n with
  | nil => exact absurd hdigits (decimalDigits_ne_nil n)
  | cons c digits =>
    rw [hdigits] at h hall hvalue hlength
    obtain rfl : c = '0' := Option.some.inj h
    by_contra hlong
    -- the digits after the zero are too few for the number
    have hpos : 0 < digits.length := by
      rw [List.length_cons] at hlong
      omega
    have hlt : n < 10 ^ digits.length := by
      rw [naturalValue_eq, Nat.ofDigitChars_cons] at hvalue
      have := ofDigitChars_lt (List.forall_mem_cons.1 hall).2 0
      rw [← hvalue]
      simpa using this
    have := (hlength digits.length hpos).2 hlt
    rw [List.length_cons] at this
    omega

theorem takeWhile_append_of_digits {digits : List Char} (hall : ∀ c ∈ digits, c.isDigit = true)
    (hcs : ∀ c ∈ cs.head?, c.isDigit = false) :
    (digits ++ cs).takeWhile Char.isDigit = digits ∧
      (digits ++ cs).dropWhile Char.isDigit = cs := by
  rw [List.takeWhile_append_of_pos hall, List.dropWhile_append_of_pos hall]
  cases cs with
  | nil => simp
  | cons c cs => simp [hcs c rfl]

theorem parts?_of_digits {whole : List Char} (hne : whole ≠ [])
    (hall : ∀ c ∈ whole, c.isDigit = true) (hcs : ∀ c ∈ cs.head?, c.isDigit = false) :
    parts? (whole ++ cs) =
      (fraction? cs).bind fun (fraction, left) =>
        (exponent? left).bind fun (exponent, given, left) =>
          some (⟨whole, fraction, exponent, given⟩, left) := by
  obtain ⟨htake, hdrop⟩ := takeWhile_append_of_digits hall hcs
  have hempty : whole.isEmpty = false := List.isEmpty_eq_false_iff.2 hne
  simp only [parts?, htake, hdrop, hempty, Bool.false_eq_true, if_false]

theorem parts?_decimalDigits (n : Nat) :
    parts? (decimalDigits n) = some (⟨decimalDigits n, [], 0, false⟩, []) := by
  have hparts : parts? (decimalDigits n ++ []) = _ :=
    parts?_of_digits (decimalDigits_ne_nil n) (fun _ => isDigit_of_mem_decimalDigits) nofun
  rwa [List.append_nil] at hparts

theorem unsigned?_decimalDigits (negative : Bool) (n : Nat) :
    unsigned? negative (decimalDigits n) =
      some (numberToken negative (decimalDigits n) [] 0 false, []) := by
  have hempty : (decimalDigits n).isEmpty = false := by
    rw [List.isEmpty_eq_false_iff]
    exact decimalDigits_ne_nil n
  have hzero : ((decimalDigits n).head? == some '0' && (decimalDigits n).length != 1) = false := by
    cases h : (decimalDigits n).head? == some '0' with
    | false => rfl
    | true => rw [length_of_head_eq_zero (beq_iff_eq.1 h)]; rfl
  have htake : (decimalDigits n).takeWhile Char.isDigit = decimalDigits n :=
    List.takeWhile_eq_self_iff.2 fun _ => isDigit_of_mem_decimalDigits
  rw [unsigned?_eq, parts?_decimalDigits]
  simp only [htake, hempty, hzero]
  rfl

theorem number?_intText {n : Int} (hlow : -Nat.pow 2 63 ≤ n) (hhigh : n < Nat.pow 2 64) :
    number? (intText n).toList = some (.integer n, []) := by
  have hvalue := naturalValue_decimalDigits n.natAbs
  by_cases hn : n < 0
  · have htext : (intText n).toList = '-' :: decimalDigits n.natAbs := by
      simp [intText, hn]
    rw [htext]
    refine (unsigned?_decimalDigits true n.natAbs).trans ?_
    have hne : n.natAbs ≠ 0 := by omega
    have hle : n.natAbs ≤ Nat.pow 2 63 := by omega
    have hneg : -(n.natAbs : Int) = n := by omega
    generalize n.natAbs = k at *
    simp [numberToken, hvalue, hne, hle, hneg]
  · have htext : (intText n).toList = decimalDigits n.natAbs := by
      simp [intText, hn]
    have hlt : n.natAbs < Nat.pow 2 64 := by omega
    have habs : (n.natAbs : Int) = n := by omega
    have hplain : number? (decimalDigits n.natAbs) = unsigned? false (decimalDigits n.natAbs) := by
      cases hdigits : decimalDigits n.natAbs with
      | nil => rfl
      | cons c digits =>
        have hc : c.isDigit = true := isDigit_of_mem_decimalDigits (hdigits ▸ List.mem_cons_self)
        have : c ≠ '-' := by
          rintro rfl
          exact absurd hc (by decide)
        simp [number?, this]
    rw [htext, hplain, unsigned?_decimalDigits]
    simp [numberToken, hvalue, hlt, habs]

/-! ## Strings -/

theorem codeUnit?_hexDigits {n : Nat} (hn : n < 0x20) :
    ∃ a b c d, Text.hexDigits 4 n = [a, b, c, d] ∧ codeUnit? a b c d = some n := by
  have hall : ∀ n < 0x20, Text.hexDigits 4 n =
      ['0', '0', Nat.digitChar (n / 16), Nat.digitChar (n % 16)] ∧
        codeUnit? '0' '0' (Nat.digitChar (n / 16)) (Nat.digitChar (n % 16)) = some n := by
    decide
  exact ⟨_, _, _, _, hall n hn⟩

theorem stringBody?_cons {c : Char} {rest : List Char} (hquote : c ≠ '"') (hbackslash : c ≠ '\\') :
    stringBody? (c :: rest) =
      if c.toNat < 0x20 then none
      else (stringBody? rest).map fun p => (c.toNat :: p.1, p.2) := by
  rw [stringBody?.eq_def]
  split <;> simp_all

theorem stringBody?_stringEscape (c : Char) (rest : List Char) :
    stringBody? (stringEscape c ++ rest) =
      (stringBody? rest).map fun p => (c.toNat :: p.1, p.2) := by
  unfold stringEscape
  split
  · subst c; rfl
  split
  · subst c; rfl
  split
  · subst c; rfl
  split
  · subst c; rfl
  split
  · subst c; rfl
  split
  · rename_i h
    rw [h]; rfl
  split
  · rename_i h
    rw [h]; rfl
  split
  · rename_i hcontrol
    obtain ⟨x, y, z, w, hdigits, hunit⟩ := codeUnit?_hexDigits hcontrol
    rw [hdigits]
    simp only [List.cons_append, List.nil_append, stringBody?, hunit]
  · rename_i hquote hbackslash _ _ _ _ _ hcontrol
    rw [List.singleton_append, stringBody?_cons hquote hbackslash, if_neg hcontrol]

theorem stringBody?_escaped (cs rest : List Char) :
    stringBody? (cs.flatMap stringEscape ++ '"' :: rest) = some (cs.map Char.toNat, rest) := by
  induction cs with
  | nil => rw [List.flatMap_nil, List.nil_append, stringBody?, List.map_nil]
  | cons c cs ih =>
    rw [List.flatMap_cons, List.append_assoc, stringBody?_stringEscape, ih]
    rfl

/-- A character is no surrogate. -/
theorem isSurrogate_toNat (c : Char) :
    isHighSurrogate c.toNat = false ∧ isLowSurrogate c.toNat = false := by
  have hvalid : c.toNat < 0xd800 ∨ 0xdfff < c.toNat := by
    rcases c.valid with h | h
    · exact .inl h
    · exact .inr h.1
  simp only [isHighSurrogate, isLowSurrogate, Bool.and_eq_false_iff, decide_eq_false_iff_not]
  omega

theorem characters?_map_toNat (cs : List Char) : characters? (cs.map Char.toNat) = some cs := by
  induction cs with
  | nil => rfl
  | cons c cs ih =>
    obtain ⟨hhigh, hlow⟩ := isSurrogate_toNat c
    cases cs with
    | nil => simp [characters?, hhigh, hlow]
    | cons d cs =>
      rw [List.map_cons] at ih ⊢
      rw [List.map_cons, characters?, hhigh, hlow, ih]
      simp

theorem ofUnits_map_toNat (s : String) : ofUnits (s.toList.map Char.toNat) = .string s := by
  rw [ofUnits, characters?_map_toNat]
  simp

/-! ## What a token leaves -/

theorem length_fraction? {digits : List Char} (h : fraction? cs = some (digits, left)) :
    left.length ≤ cs.length := by
  unfold fraction? at h
  split at h
  · rename_i rest
    dsimp only at h
    split at h
    · cases h
    · cases h
      have := List.length_dropWhile_le Char.isDigit rest
      rw [List.length_cons]
      omega
  · cases h
    exact Nat.le_refl _

theorem length_exponentSign (cs : List Char) : (exponentSign cs).2.length ≤ cs.length := by
  unfold exponentSign
  split <;> simp

theorem length_exponent? {n : Int} {given : Bool} (h : exponent? cs = some (n, given, left)) :
    left.length ≤ cs.length := by
  cases cs with
  | nil => cases h; exact Nat.le_refl _
  | cons c cs =>
    rw [exponent?_cons] at h
    split at h
    · simp only [exponentDigits?] at h
      split at h
      · cases h
      · cases h
        have := List.length_dropWhile_le Char.isDigit (exponentSign cs).2
        have := length_exponentSign cs
        rw [List.length_cons]
        omega
    · cases h
      exact Nat.le_refl _

theorem length_parts? {p : Parts} (h : parts? cs = some (p, left)) : left.length < cs.length := by
  simp only [parts?] at h
  split at h
  · cases h
  · rename_i hwhole
    obtain ⟨⟨digits, left₁⟩, hfraction, h⟩ := Option.bind_eq_some_iff.1 h
    obtain ⟨⟨n, given, left₂⟩, hexponent, h⟩ := Option.bind_eq_some_iff.1 h
    cases h
    have hsplit :=
      congrArg List.length (List.takeWhile_append_dropWhile (p := Char.isDigit) (l := cs))
    rw [List.length_append] at hsplit
    have hpos : 0 < (cs.takeWhile Char.isDigit).length := by
      rw [List.length_pos_iff]
      rintro hnil
      simp [hnil] at hwhole
    have hle₁ : left₁.length ≤ _ := length_fraction? hfraction
    have hle₂ : left₂.length ≤ left₁.length := length_exponent? hexponent
    change left₂.length < cs.length
    omega

theorem length_unsigned? {negative : Bool} (h : unsigned? negative cs = some (token, left)) :
    left.length < cs.length := by
  simp only [unsigned?_eq] at h
  split at h
  · cases h
  · obtain ⟨⟨p, left₁⟩, hp, h⟩ := Option.map_eq_some_iff.1 h
    cases h
    exact length_parts? hp

theorem length_number? (h : number? cs = some (token, left)) : left.length < cs.length := by
  unfold number? at h
  split at h
  · have := length_unsigned? h
    rw [List.length_cons]
    omega
  · exact length_unsigned? h

theorem length_stringBody? {units : List Nat} (h : stringBody? cs = some (units, left)) :
    left.length < cs.length := by
  fun_induction stringBody? cs generalizing units with
  | case1 => cases h
  | case2 => cases h; simp
  | case3 => cases h
  | case4 a b c d rest unit hunit ih =>
    obtain ⟨⟨_, _⟩, hrest, h⟩ := Option.map_eq_some_iff.1 h
    cases h
    have := ih hrest
    simp only [List.length_cons]
    omega
  | case5 => cases h
  | case6 c rest hc c' hescaped ih =>
    obtain ⟨⟨_, _⟩, hrest, h⟩ := Option.map_eq_some_iff.1 h
    cases h
    have := ih hrest
    simp only [List.length_cons]
    omega
  | case7 => cases h
  | case8 c rest _ _ _ hraw ih =>
    obtain ⟨⟨_, _⟩, hrest, h⟩ := Option.map_eq_some_iff.1 h
    cases h
    have := ih hrest
    simp only [List.length_cons]
    omega

theorem length_next? (h : next? cs = some (token, left)) : left.length < cs.length := by
  unfold next? at h
  split at h
  case h_7 =>
    obtain ⟨⟨units, _⟩, hbody, h⟩ := Option.map_eq_some_iff.1 h
    cases h
    have := length_stringBody? hbody
    rw [List.length_cons]
    omega
  case h_11 => exact length_number? h
  all_goals
    cases h
    simp only [List.length_cons]
    omega

/-! ## The scanner -/

theorem scanWithin_congr {fuel fuel' : Nat} (h : cs.length ≤ fuel) (h' : cs.length ≤ fuel') :
    scanWithin fuel cs = scanWithin fuel' cs := by
  induction fuel generalizing fuel' cs with
  | zero =>
    obtain rfl : cs = [] := List.eq_nil_of_length_eq_zero (by omega)
    cases fuel' <;> rfl
  | succ fuel ih =>
    cases cs with
    | nil => cases fuel' <;> rfl
    | cons c cs =>
      rw [List.length_cons] at h h'
      obtain ⟨fuel', rfl⟩ : ∃ k, fuel' = k + 1 := ⟨fuel' - 1, by omega⟩
      have hcs : scanWithin fuel cs = scanWithin fuel' cs := ih (by omega) (by omega)
      simp only [scanWithin, hcs]
      cases hnext : next? (c :: cs) with
      | none => rfl
      | some found =>
        have hlength := length_next? hnext
        rw [List.length_cons] at hlength
        have hleft : scanWithin fuel found.2 = scanWithin fuel' found.2 := ih (by omega) (by omega)
        simp only [hleft]

theorem scan_nil : scan [] = [] := rfl

/-- White space is dropped, a token is read, or the rest of the text is bad. -/
theorem scan_cons (c : Char) (cs : List Char) :
    scan (c :: cs) =
      if isSpace c then scan cs
      else
        match next? (c :: cs) with
        | none => [.bad]
        | some (token, left) => token :: scan left := by
  change scanWithin (cs.length + 1) (c :: cs) = _
  rw [scanWithin]
  cases hnext : next? (c :: cs) with
  | none => rfl
  | some found =>
    have := length_next? hnext
    rw [List.length_cons] at this
    have hleft : scanWithin cs.length found.2 = scan found.2 :=
      scanWithin_congr (by omega) (by omega)
    simp only [hleft]
    rfl

end ContractTests.Json.Token
