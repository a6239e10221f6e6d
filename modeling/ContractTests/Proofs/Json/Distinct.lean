import ContractTests.Proofs.Decimal.Shortest
import ContractTests.Proofs.Json.Written

/-! # Different values have different texts

No text of a finite value goes on as the text of another one, provided that what stands after them
does not go on with a number (`Finite.distinct`), so that different values are written differently
(`Finite.eq_of_pretty`). For the numbers this takes their exact value, since a reader may round them
to the double beside: an integer has neither point nor exponent, a double has one of them, and the
decimal that is written for it reads back as no other double.
-/

set_option autoImplicit false

namespace ContractTests.Json

namespace Token

variable {cs left rest : List Char} {p : Parts} {negative : Bool}

/-! ## The parts of a number -/

/-- The exact value of the parts. -/
def Parts.value (p : Parts) : ℚ :=
  (naturalValue (p.whole ++ p.fraction) : ℚ) * 10 ^ (p.exponent - p.fraction.length)

/-- The sign of a number and its parts. -/
def signed? : List Char → Option (Bool × Parts × List Char)
  | '-' :: cs => (parts? cs).map fun p => (true, p)
  | cs => (parts? cs).map fun p => (false, p)

theorem signed?_of_parts? (negative : Bool) (h : parts? cs = some (p, left)) :
    signed? ((if negative then ['-'] else []) ++ cs) = some (negative, p, left) := by
  cases negative with
  | true => simp [signed?, h]
  | false =>
    cases cs with
    | nil => cases h
    | cons c cs =>
      by_cases hc : c = '-'
      · subst hc
        cases h
      · simp [signed?, hc, h]

theorem signed?_append (h : signed? cs = some (negative, p, left)) (hr : EndsNumber rest) :
    signed? (cs ++ rest) = some (negative, p, left ++ rest) := by
  unfold signed? at h
  split at h
  · obtain ⟨_, hparts, h⟩ := Option.map_eq_some_iff.1 h
    cases h
    exact signed?_of_parts? true (parts?_append hparts hr)
  · obtain ⟨_, hparts, h⟩ := Option.map_eq_some_iff.1 h
    cases h
    exact signed?_of_parts? false (parts?_append hparts hr)

theorem fraction?_of_digits {digits : List Char} (hne : digits ≠ [])
    (hall : ∀ c ∈ digits, c.isDigit = true) (hcs : ∀ c ∈ cs.head?, c.isDigit = false) :
    fraction? ('.' :: (digits ++ cs)) = some (digits, cs) := by
  obtain ⟨htake, hdrop⟩ := takeWhile_append_of_digits hall hcs
  simp [fraction?, htake, hdrop, hne]

theorem exponent?_decimalDigits (n : Int) :
    exponent? ('e' :: (if n < 0 then '-' else '+') :: decimalDigits n.natAbs) =
      some (n, true, []) := by
  have htake : (decimalDigits n.natAbs).takeWhile Char.isDigit = decimalDigits n.natAbs :=
    List.takeWhile_eq_self_iff.2 fun _ => isDigit_of_mem_decimalDigits
  have hdrop : (decimalDigits n.natAbs).dropWhile Char.isDigit = [] :=
    List.dropWhile_eq_nil_iff.2 fun _ => isDigit_of_mem_decimalDigits
  have hdigits (negative : Bool) : exponentDigits? (negative, decimalDigits n.natAbs) =
      some (if negative then -(n.natAbs : Int) else n.natAbs, true, []) := by
    simp [exponentDigits?, htake, hdrop, naturalValue_decimalDigits, decimalDigits_ne_nil]
  rw [exponent?_cons, if_pos (.inl rfl)]
  by_cases hn : n < 0
  · rw [if_pos hn]
    refine (hdigits true).trans ?_
    rw [if_pos rfl, show -(n.natAbs : Int) = n by omega]
  · rw [if_neg hn]
    refine (hdigits false).trans ?_
    rw [if_neg Bool.false_ne_true, show (n.natAbs : Int) = n by omega]

/-! ## Doubles -/

/-- Zeros around the digits are made up for by the power of ten. -/
theorem Parts.value_eq {d : Digits} {lead zeros : Nat}
    (hdigits : p.whole ++ p.fraction =
      List.replicate lead '0' ++ (d.digits ++ List.replicate zeros '0'))
    (hpower : p.exponent + zeros = d.exponent - d.digits.length + 1 + p.fraction.length) :
    p.value = d.value := by
  have hcount : naturalValue (p.whole ++ p.fraction) =
      10 ^ zeros * Nat.ofDigitChars 10 d.digits 0 := by
    rw [hdigits, naturalValue_eq, Nat.ofDigitChars_append, Nat.ofDigitChars_replicate_zero,
      Nat.mul_zero, Nat.ofDigitChars_append, Nat.ofDigitChars_replicate_zero]
  have hsplit : d.exponent - d.digits.length + 1 = zeros + (p.exponent - p.fraction.length) := by
    omega
  rw [Parts.value, Digits.value, hcount, hsplit, zpow_add₀ (by norm_num), zpow_natCast]
  push_cast
  ring

/-- Digits with a point among them, and what follows them. -/
theorem parts?_point {whole fraction : List Char} (hwhole : whole ≠ []) (hfraction : fraction ≠ [])
    (hall : ∀ c ∈ whole ++ fraction, c.isDigit = true) (hcs : ∀ c ∈ cs.head?, c.isDigit = false) :
    parts? (whole ++ '.' :: (fraction ++ cs)) =
      (exponent? cs).bind fun (exponent, given, left) =>
        some (⟨whole, fraction, exponent, given⟩, left) := by
  have hdigits := List.forall_mem_append.1 hall
  rw [parts?_of_digits hwhole hdigits.1 (by rintro c ⟨⟩; rfl),
    fraction?_of_digits hfraction hdigits.2 hcs]
  rfl

theorem isDigit_of_mem_replicate {n : Nat} {c : Char} (hc : c ∈ List.replicate n '0') :
    c.isDigit = true := by
  rw [List.eq_of_mem_replicate hc]
  rfl

theorem parts?_positional {d : Digits} (hne : d.digits ≠ [])
    (hall : ∀ c ∈ d.digits, c.isDigit = true) :
    ∃ p, parts? d.positional = some (p, []) ∧ p.fraction ≠ [] ∧ p.value = d.value := by
  obtain ⟨whole, fraction, lead, zeros, htext, hwhole, hfraction, hdigits, hpower⟩ :=
    Digits.positional_eq hne
  have hdigit : ∀ c ∈ whole ++ fraction, c.isDigit = true := by
    intro c hc
    rw [hdigits, List.mem_append, List.mem_append] at hc
    rcases hc with hc | hc | hc
    · exact isDigit_of_mem_replicate hc
    · exact hall c hc
    · exact isDigit_of_mem_replicate hc
  have hparts : parts? (whole ++ '.' :: (fraction ++ [])) = _ :=
    parts?_point hwhole hfraction hdigit nofun
  rw [List.append_nil] at hparts
  refine ⟨_, htext ▸ hparts, hfraction, Parts.value_eq hdigits ?_⟩
  dsimp only
  omega

theorem parts?_scientific {d : Digits} (hne : d.digits ≠ [])
    (hall : ∀ c ∈ d.digits, c.isDigit = true) :
    ∃ p, parts? d.scientific = some (p, []) ∧ p.given = true ∧ p.value = d.value := by
  have hexponent := exponent?_decimalDigits d.exponent
  unfold Digits.scientific
  dsimp only
  split
  · rename_i hlength
    rw [parts?_of_digits hne hall (by rintro c ⟨⟩; rfl)]
    refine ⟨⟨d.digits, [], d.exponent, true⟩, ?_, rfl, @Parts.value_eq _ d 0 0 ?_ ?_⟩
    · simp [fraction?, hexponent]
    · simp
    · have := List.length_pos_iff.2 hne
      dsimp only [List.length_nil]
      omega
  · rename_i hlength
    have hdrop : d.digits.drop 1 ≠ [] := by
      rw [Ne, List.drop_eq_nil_iff]
      exact hlength
    have htake : d.digits.take 1 ≠ [] := by simp [hne]
    have hsplit := List.take_append_drop 1 d.digits
    rw [List.append_assoc, List.cons_append, parts?_point htake hdrop (by rwa [hsplit])
      (by rintro c ⟨⟩; rfl), hexponent]
    refine ⟨_, rfl, rfl, @Parts.value_eq _ d 0 0 ?_ ?_⟩
    · simpa using hsplit
    · dsimp only
      rw [List.length_drop]
      omega

/-! ## Texts of numbers -/

theorem signed?_intText (n : Int) :
    signed? (intText n).toList =
      some (decide (n < 0), ⟨decimalDigits n.natAbs, [], 0, false⟩, []) := by
  have hsigned := signed?_of_parts? (decide (n < 0)) (parts?_decimalDigits n.natAbs)
  simpa only [intText, String.toList_ofList, decide_eq_true_eq] using hsigned

/-- The text of a double has its sign, a point or an exponent, and a value that reads back. -/
theorem signed?_doubleText {x : Double} (hx : x.isFinite = true) :
    ∃ p, signed? (doubleText x).toList = some (x.isNegative, p, []) ∧
      (p.fraction = [] → p.given = true) ∧ x.IsReadAs p.value := by
  unfold doubleText
  rw [hx, Bool.not_true, if_neg nofun]
  split
  · rename_i hzero
    have hparts : parts? ['0', '.', '0'] = some (⟨['0'], ['0'], 0, false⟩, []) := rfl
    rw [String.toList_ofList]
    refine ⟨_, signed?_of_parts? x.isNegative hparts, nofun, ?_⟩
    have hvalue : (⟨['0'], ['0'], 0, false⟩ : Parts).value = 0 := by
      simp [Parts.value, naturalValue, digitValue]
    rw [hvalue]
    exact Double.isReadAs_zero (x.isZero_iff.1 hzero)
  · rename_i hzero
    have hpos : 0 < x.significand := Nat.pos_of_ne_zero fun h => hzero (x.isZero_iff.2 h)
    have hreads := Double.shortest_isReadAs hpos .toEven
    obtain ⟨count, power, hd, -⟩ := Double.shortest_eq hpos .toEven
    have hne : (x.shortest .toEven).digits ≠ [] := by
      rw [hd]
      exact Digits.digits_ofCount_ne_nil count power
    have hall : ∀ c ∈ (x.shortest .toEven).digits, c.isDigit = true := by
      rw [hd]
      exact fun _ => Digits.isDigit_of_mem_ofCount
    dsimp only
    rw [String.toList_ofList]
    split
    · obtain ⟨p, hparts, hfraction, hvalue⟩ := parts?_positional hne hall
      exact ⟨p, signed?_of_parts? x.isNegative hparts, fun h => absurd h hfraction,
        hvalue ▸ hreads⟩
    · obtain ⟨p, hparts, hgiven, hvalue⟩ := parts?_scientific hne hall
      exact ⟨p, signed?_of_parts? x.isNegative hparts, fun _ => hgiven, hvalue ▸ hreads⟩

/-- The sign and the parts of a number end where the number ends. -/
theorem eq_of_signed? {cs' rest' : List Char} {negative' : Bool} {p' : Parts}
    (hcs : signed? cs = some (negative, p, [])) (hcs' : signed? cs' = some (negative', p', []))
    (hr : EndsNumber rest) (hr' : EndsNumber rest') (h : cs ++ rest = cs' ++ rest') :
    (negative = negative' ∧ p = p') ∧ rest = rest' := by
  have hleft := signed?_append hcs hr
  rw [h, signed?_append hcs' hr'] at hleft
  cases hleft
  exact ⟨⟨rfl, rfl⟩, rfl⟩

section Numbers

variable {rest' : List Char} {m n : Int} {x y : Double}

theorem eq_of_intText (hr : EndsNumber rest) (hr' : EndsNumber rest')
    (h : (intText m).toList ++ rest = (intText n).toList ++ rest') : m = n ∧ rest = rest' := by
  obtain ⟨⟨hsign, hparts⟩, hrest⟩ :=
    eq_of_signed? (signed?_intText m) (signed?_intText n) hr hr' h
  have habs : m.natAbs = n.natAbs := by
    have hdigits := congrArg (fun p => naturalValue p.whole) hparts
    simpa only [naturalValue_decimalDigits] using hdigits
  rw [decide_eq_decide] at hsign
  exact ⟨by omega, hrest⟩

theorem eq_of_doubleText (hx : x.isFinite = true) (hy : y.isFinite = true) (hr : EndsNumber rest)
    (hr' : EndsNumber rest') (h : (doubleText x).toList ++ rest = (doubleText y).toList ++ rest') :
    x = y ∧ rest = rest' := by
  obtain ⟨p, hsigned, -, hreads⟩ := signed?_doubleText hx
  obtain ⟨p', hsigned', -, hreads'⟩ := signed?_doubleText hy
  obtain ⟨⟨hsign, rfl⟩, hrest⟩ := eq_of_signed? hsigned hsigned' hr hr' h
  exact ⟨Double.eq_of_isReadAs hsign hreads hreads', hrest⟩

/-- Only doubles have a point or an exponent. -/
theorem intText_ne_doubleText (hx : x.isFinite = true) (hr : EndsNumber rest)
    (hr' : EndsNumber rest') : (intText n).toList ++ rest ≠ (doubleText x).toList ++ rest' := by
  intro h
  obtain ⟨p, hsigned, hgiven, -⟩ := signed?_doubleText hx
  obtain ⟨⟨-, rfl⟩, -⟩ := eq_of_signed? (signed?_intText n) hsigned hr hr' h
  exact absurd (hgiven rfl) nofun

end Numbers

end Token

/-! ## Texts that tell values apart -/

section Distinct

variable {α : Type} {P : α → Prop} {text : α → String}

/-- The text of the value does not go on as the text of another one. -/
def Distinct (P : α → Prop) (text : α → String) (a : α) : Prop :=
  ∀ ⦃b : α⦄, P b → ∀ ⦃rest rest' : List Char⦄, Token.EndsNumber rest → Token.EndsNumber rest' →
    (text a).toList ++ rest = (text b).toList ++ rest' → a = b ∧ rest = rest'

theorem distinct_stringText (s : String) : Distinct (fun _ => True) stringText s := by
  intro t _ rest rest' _ _ h
  simp only [stringText, String.toList_ofList, List.cons_append, List.append_assoc,
    List.cons.injEq, true_and] at h
  have hbody := congrArg Token.stringBody? h
  rw [Token.stringBody?_escaped, Token.stringBody?_escaped] at hbody
  obtain ⟨hcodes, hrest⟩ := Prod.mk.inj (Option.some.inj hbody)
  have hchars := List.map_injective_iff.2 (fun _ _ => Char.toNat_inj.1) hcodes
  exact ⟨String.toList_inj.1 hchars, hrest⟩

/-- A member has its name and its value. -/
theorem Distinct.member {j : α} (h : Distinct P text j) (name : String) :
    Distinct (fun m : String × α => P m.2) (fun m => stringText m.1 ++ ": " ++ text m.2)
      (name, j) := by
  rintro ⟨name', k⟩ hk rest rest' hr hr' heq
  have hcolon : (": ").toList = [':', ' '] := rfl
  have hends (cs : List Char) : Token.EndsNumber (':' :: cs) := by
    rintro c ⟨⟩
    decide
  simp only [String.toList_append, List.append_assoc, hcolon, List.cons_append,
    List.nil_append] at heq
  obtain ⟨rfl, heq⟩ := distinct_stringText name trivial (hends _) (hends _) heq
  obtain ⟨rfl, hrest⟩ := h hk hr hr' (by simpa using heq)
  exact ⟨rfl, hrest⟩

theorem endsNumber_line (cs : List Char) : Token.EndsNumber ('\n' :: cs) := by
  rintro c ⟨⟩
  decide

/-- The elements of a list are told apart one after the other. -/
theorem eq_of_intercalate {xs ys : List α} (hxs : ∀ x ∈ xs, Distinct P text x)
    (hys : ∀ y ∈ ys, P y) (hne : xs ≠ []) (hne' : ys ≠ []) {sep stop rest rest' : List Char}
    (h : List.intercalate (',' :: sep) (xs.map fun x => (text x).toList) ++ '\n' :: (stop ++ rest) =
      List.intercalate (',' :: sep) (ys.map fun y => (text y).toList) ++ '\n' :: (stop ++ rest')) :
    xs = ys ∧ rest = rest' := by
  have hcomma := Token.endsNumber_comma
  have hline := endsNumber_line
  induction xs generalizing ys with
  | nil => exact absurd rfl hne
  | cons x xs ih =>
    cases ys with
    | nil => exact absurd rfl hne'
    | cons y ys =>
      obtain ⟨hx, hxs⟩ := List.forall_mem_cons.1 hxs
      have hy := hys y List.mem_cons_self
      cases xs with
      | nil =>
        cases ys with
        | nil =>
          simp only [List.map_cons, List.map_nil, List.intercalate_singleton] at h
          obtain ⟨hxy, hleft⟩ := hx hy (hline _) (hline _) h
          exact ⟨hxy ▸ rfl, List.append_cancel_left (List.cons.inj hleft).2⟩
        | cons y' ys =>
          simp only [List.map_cons, List.map_nil, List.intercalate_singleton,
            List.intercalate_cons_cons, List.append_assoc, List.cons_append] at h
          exact absurd (List.cons.inj (hx hy (hline _) (hcomma _) h).2).1 (by decide)
      | cons x' xs =>
        cases ys with
        | nil =>
          simp only [List.map_cons, List.map_nil, List.intercalate_singleton,
            List.intercalate_cons_cons, List.append_assoc, List.cons_append] at h
          exact absurd (List.cons.inj (hx hy (hcomma _) (hline _) h).2).1 (by decide)
        | cons y' ys =>
          simp only [List.map_cons, List.intercalate_cons_cons, List.append_assoc,
            List.cons_append] at h
          obtain ⟨hxy, hleft⟩ := hx hy (hcomma _) (hcomma _) h
          obtain ⟨htails, hrest⟩ := ih hxs (fun y hy => hys y (List.mem_cons_of_mem _ hy))
            (List.cons_ne_nil _ _) (List.cons_ne_nil _ _)
            (List.append_cancel_left (List.cons.inj hleft).2)
          exact ⟨hxy ▸ htails ▸ rfl, hrest⟩

/-- A bracket, the parts on lines of their own, and the other bracket. -/
theorem toList_block_append (level : Nat) (l r : String) {xs : List α} (hne : xs ≠ [])
    (rest : List Char) :
    (block level l r (xs.map text)).toList ++ rest =
      l.toList ++ '\n' :: (List.replicate (2 * (level + 1)) ' ' ++
        (List.intercalate (',' :: (newline (level + 1)).toList) (xs.map fun x => (text x).toList) ++
          '\n' :: (List.replicate (2 * level) ' ' ++ r.toList ++ rest))) := by
  have hcomma : (",").toList = [','] := rfl
  have hempty : (xs.map text).isEmpty = false := by simpa using hne
  rw [block, hempty, if_neg nofun]
  simp only [String.toList_append, String.toList_intercalate, hcomma, List.append_assoc,
    List.map_map, newline, String.toList_ofList, List.cons_append, List.nil_append]
  rfl

theorem toList_block_nil (level : Nat) (l r : String) (text : α → String) (rest : List Char) :
    (block level l r (List.map text [])).toList ++ rest = l.toList ++ (r.toList ++ rest) := by
  rw [block, List.map_nil, List.isEmpty_nil, if_pos rfl, String.toList_append, List.append_assoc]

theorem eq_of_block {xs ys : List α} (hxs : ∀ x ∈ xs, Distinct P text x) (hys : ∀ y ∈ ys, P y)
    {level : Nat} {l r : String} (hr : ∀ cs cs' : List Char, r.toList ++ cs ≠ '\n' :: cs')
    {rest rest' : List Char}
    (h : (block level l r (xs.map text)).toList ++ rest =
      (block level l r (ys.map text)).toList ++ rest') :
    xs = ys ∧ rest = rest' := by
  by_cases hxne : xs = [] <;> by_cases hyne : ys = []
  · subst hxne hyne
    rw [toList_block_nil, toList_block_nil] at h
    exact ⟨rfl, List.append_cancel_left (List.append_cancel_left h)⟩
  · subst hxne
    rw [toList_block_nil, toList_block_append level l r hyne] at h
    exact absurd (List.append_cancel_left h) (hr _ _)
  · subst hyne
    rw [toList_block_nil, toList_block_append level l r hxne] at h
    exact absurd (List.append_cancel_left h).symm (hr _ _)
  · rw [toList_block_append level l r hxne, toList_block_append level l r hyne] at h
    exact eq_of_intercalate hxs hys hxne hyne
      (List.append_cancel_left (List.cons.inj (List.append_cancel_left h)).2)

end Distinct

/-! ## Finite values -/

/-- The doubles of a value are finite. -/
inductive Finite : Json → Prop
  | null : Finite .null
  | bool (b : Bool) : Finite (.bool b)
  | integer (n : Int) : Finite (.integer n)
  | double {x : Double} (hx : x.isFinite = true) : Finite (.double x)
  | string (s : String) : Finite (.string s)
  | array {elements : List Json} (h : ∀ j ∈ elements, Finite j) : Finite (.array elements)
  | object {members : List (String × Json)} (h : ∀ m ∈ members, Finite m.2) :
      Finite (.object members)

/-- What a text starts with. -/
inductive Opening where
  | null
  | bool
  | number
  | string
  | array
  | object

namespace Opening

def ofText : List Char → Opening
  | 'n' :: _ => .null
  | 't' :: _ => .bool
  | 'f' :: _ => .bool
  | '"' :: _ => .string
  | '[' :: _ => .array
  | '\x7b' :: _ => .object
  | _ => .number

/-- What the text of a value starts with. -/
def ofJson : Json → Opening
  | .null => .null
  | .bool _ => .bool
  | .integer _ => .number
  | .double _ => .number
  | .string _ => .string
  | .array _ => .array
  | .object _ => .object

theorem ofText_of_signed? {cs left : List Char} {negative : Bool} {p : Token.Parts}
    (h : Token.signed? cs = some (negative, p, left)) (rest : List Char) :
    ofText (cs ++ rest) = .number := by
  cases cs with
  | nil => cases h
  | cons c cs =>
    rw [List.cons_append]
    unfold ofText
    split
    case h_7 => rfl
    all_goals
      rename_i heq
      cases heq
      cases h

end Opening

theorem prettyAll_eq (level : Nat) (elements : List Json) :
    prettyAll level elements = elements.map (prettyAt level) := by
  induction elements with
  | nil => rfl
  | cons j rest ih => rw [prettyAll, ih, List.map_cons]

theorem prettyMembers_eq (level : Nat) (members : List (String × Json)) :
    prettyMembers level members =
      members.map fun m => stringText m.1 ++ ": " ++ prettyAt level m.2 := by
  induction members with
  | nil => rfl
  | cons m rest ih => rw [prettyMembers, ih, List.map_cons]

theorem exists_toList_block (level : Nat) (l r : String) (parts : List String) :
    ∃ cs, (block level l r parts).toList = l.toList ++ cs := by
  unfold block
  split <;> simp only [String.toList_append, List.append_assoc] <;> exact ⟨_, rfl⟩

namespace Finite

variable {j k : Json}

theorem ofText (h : j.Finite) (level : Nat) (rest : List Char) :
    Opening.ofText ((prettyAt level j).toList ++ rest) = Opening.ofJson j := by
  cases h with
  | null =>
    rw [prettyAt]
    rfl
  | bool b =>
    rw [prettyAt]
    cases b <;> rfl
  | integer n => exact Opening.ofText_of_signed? (Token.signed?_intText n) rest
  | double hx =>
    obtain ⟨p, hsigned, -⟩ := Token.signed?_doubleText hx
    exact Opening.ofText_of_signed? hsigned rest
  | string s =>
    rw [prettyAt, stringText, String.toList_ofList]
    rfl
  | array h =>
    obtain ⟨cs, hcs⟩ := exists_toList_block level "[" "]" (prettyAll (level + 1) _)
    rw [prettyAt, hcs]
    rfl
  | object h =>
    obtain ⟨cs, hcs⟩ := exists_toList_block level "\x7b" "\x7d" (prettyMembers (level + 1) _)
    rw [prettyAt, hcs]
    rfl

theorem ofJson_eq (hj : j.Finite) (hk : k.Finite) {level : Nat} {rest rest' : List Char}
    (h : (prettyAt level j).toList ++ rest = (prettyAt level k).toList ++ rest') :
    Opening.ofJson j = Opening.ofJson k := by
  rw [← hj.ofText level rest, h, hk.ofText level rest']

/-- The text of a finite value does not go on as the text of another one. -/
theorem distinct (hj : j.Finite) (level : Nat) : Distinct Finite (prettyAt level) j := by
  -- on the first value; the first character of the text gives the kind of the second one
  induction hj generalizing level with
  | null =>
    intro k hk rest rest' _ _ h
    have hopening := ofJson_eq .null hk h
    cases hk with
    | null => exact ⟨rfl, List.append_cancel_left h⟩
    | _ => cases hopening
  | bool b =>
    intro k hk rest rest' _ _ h
    have hopening := ofJson_eq (.bool b) hk h
    cases hk with
    | bool b' =>
      rw [prettyAt, prettyAt] at h
      cases b <;> cases b' <;> cases h
      · exact ⟨rfl, rfl⟩
      · exact ⟨rfl, rfl⟩
    | _ => cases hopening
  | integer n =>
    intro k hk rest rest' hr hr' h
    have hopening := ofJson_eq (.integer n) hk h
    cases hk with
    | integer n' =>
      obtain ⟨rfl, hrest⟩ := Token.eq_of_intText hr hr' h
      exact ⟨rfl, hrest⟩
    | double hx => exact absurd h (Token.intText_ne_doubleText hx hr hr')
    | _ => cases hopening
  | double hx =>
    intro k hk rest rest' hr hr' h
    have hopening := ofJson_eq (.double hx) hk h
    cases hk with
    | integer n' => exact absurd h.symm (Token.intText_ne_doubleText hx hr' hr)
    | double hx' =>
      obtain ⟨rfl, hrest⟩ := Token.eq_of_doubleText hx hx' hr hr' h
      exact ⟨rfl, hrest⟩
    | _ => cases hopening
  | string s =>
    intro k hk rest rest' hr hr' h
    have hopening := ofJson_eq (.string s) hk h
    cases hk with
    | string s' =>
      obtain ⟨rfl, hrest⟩ := distinct_stringText s trivial hr hr' h
      exact ⟨rfl, hrest⟩
    | _ => cases hopening
  | array hall ih =>
    intro k hk rest rest' hr hr' h
    have hopening := ofJson_eq (.array hall) hk h
    cases hk with
    | array hall' =>
      rw [prettyAt, prettyAt, prettyAll_eq, prettyAll_eq] at h
      obtain ⟨rfl, hrest⟩ := eq_of_block (fun j hj => ih j hj (level + 1)) hall'
        (by rintro cs cs' ⟨⟩) h
      exact ⟨rfl, hrest⟩
    | _ => cases hopening
  | object hall ih =>
    intro k hk rest rest' hr hr' h
    have hopening := ofJson_eq (.object hall) hk h
    cases hk with
    | object hall' =>
      rw [prettyAt, prettyAt, prettyMembers_eq, prettyMembers_eq] at h
      obtain ⟨rfl, hrest⟩ := eq_of_block (fun m hm => (ih m hm (level + 1)).member m.1) hall'
        (by rintro cs cs' ⟨⟩) h
      exact ⟨rfl, hrest⟩
    | _ => cases hopening

/-- Finite values with one text are the same. -/
theorem eq_of_pretty (hj : j.Finite) (hk : k.Finite) (h : j.pretty = k.pretty) : j = k :=
  (hj.distinct 0 hk Token.endsNumber_nil Token.endsNumber_nil
    (congrArg (fun s => s.toList ++ []) h)).1

end Finite

end ContractTests.Json
