import ContractTests.Decimal.Rounding

/-! # JSON tokens

`Token.scan` cuts a text into tokens. White space between tokens is dropped; where no token can be
read the token `bad` stands for the rest of the text.

A number without fraction and exponent is an integer while it fits 64 bits; every other number is a
double. Its digits are collected into a 64-bit significand: once a digit does not fit, those of the
integer part count into the exponent and those of the fraction are dropped. The significand is then
multiplied or divided by a power of ten, each of the two rounded, so that the double read need not
be the nearest one.

Not every token has a value: a number may lie beyond the doubles, and a string may hold a surrogate
that is not paired. Such tokens are kept apart, since this matters only where a value is asked for.
-/

set_option autoImplicit false

namespace ContractTests.Json

/-- A token of JSON. -/
inductive Token where
  | leftBrace
  | rightBrace
  | leftBracket
  | rightBracket
  | colon
  | comma
  | null
  | bool (b : Bool)
  | integer (n : Int)
  | double (x : Double)
  | string (s : String)
  /-- A number beyond the doubles. -/
  | overflow
  /-- A string with a surrogate that is not paired. -/
  | unpaired
  /-- The rest of a text, where it does not start with a token. -/
  | bad
deriving DecidableEq, Repr

namespace Token

/-! ## Numbers -/

/-- A number's digits as far as they fit, and the power of ten they count. -/
structure Significand where
  value : Nat
  exponent : Int

def digitValue (c : Char) : Nat := c.toNat - '0'.toNat

/-- Whether another digit still fits 64 bits. -/
def Significand.fits (s : Significand) (digit : Nat) : Bool := s.value * 10 + digit < Nat.pow 2 64

/-- Collect the digits of an integer part. -/
def Significand.ofWhole (digits : List Char) : Significand :=
  digits.foldl
    (fun s c =>
      if s.exponent = 0 && s.fits (digitValue c) then
        { s with value := s.value * 10 + digitValue c }
      else { s with exponent := s.exponent + 1 })
    ⟨0, 0⟩

/-- Collect the digits of a fraction, up to the first that does not fit. -/
def Significand.withFraction : Significand → List Char → Significand
  | s, [] => s
  | s, c :: rest =>
    if s.fits (digitValue c) then
      Significand.withFraction ⟨s.value * 10 + digitValue c, s.exponent - 1⟩ rest
    else s

/-- The significand times its power of ten; nothing when that is beyond the doubles. -/
def Significand.toDouble? (s : Significand) : Option Double :=
  let x := Double.ofNat s.value
  let ten (n : Nat) := Double.ofNat (Nat.pow 10 n)
  if s.value = 0 then some .zero
  else if 308 < s.exponent then none
  else if 0 ≤ s.exponent then
    let product := x.times (ten s.exponent.toNat)
    if product.isFinite then some product else none
  else if -308 ≤ s.exponent then some (x.dividedBy (ten (-s.exponent).toNat))
  else if -616 ≤ s.exponent then some ((x.dividedBy (ten 308)).dividedBy (ten (-s.exponent - 308).toNat))
  else some .zero

def naturalValue (digits : List Char) : Nat := digits.foldl (fun n c => n * 10 + digitValue c) 0

/-- The fraction digits after a point, if there is one; a point needs a digit after it. -/
def fraction? : List Char → Option (List Char × List Char)
  | '.' :: rest =>
    let digits := rest.takeWhile Char.isDigit
    if digits.isEmpty then none else some (digits, rest.dropWhile Char.isDigit)
  | rest => some ([], rest)

/-- The value of an exponent part, if there is one, and whether there is. -/
def exponent? : List Char → Option (Int × Bool × List Char)
  | c :: rest =>
    if c = 'e' ∨ c = 'E' then
      let (negative, rest) := match rest with
        | '-' :: rest => (true, rest)
        | '+' :: rest => (false, rest)
        | rest => (false, rest)
      let digits := rest.takeWhile Char.isDigit
      if digits.isEmpty then none
      else
        let n : Int := naturalValue digits
        some (if negative then -n else n, true, rest.dropWhile Char.isDigit)
    else some (0, false, c :: rest)
  | [] => some (0, false, [])

/-- A number after its sign. -/
def unsigned? (negative : Bool) (cs : List Char) : Option (Token × List Char) := do
  let whole := cs.takeWhile Char.isDigit
  if whole.isEmpty || (whole.head? == some '0' && whole.length != 1) then none
  else
    let (fraction, rest) ← fraction? (cs.dropWhile Char.isDigit)
    let (exponent, hasExponent, rest) ← exponent? rest
    let n := naturalValue whole
    if fraction.isEmpty && !hasExponent && !negative && n < Nat.pow 2 64 then
      some (.integer n, rest)
    else if fraction.isEmpty && !hasExponent && negative && n ≠ 0 && n ≤ Nat.pow 2 63 then
      some (.integer (-n), rest)
    else
      let s := (Significand.ofWhole whole).withFraction fraction
      match Significand.toDouble? { s with exponent := s.exponent + exponent } with
      | some x => some (.double (if negative then x.negated else x), rest)
      | none => some (.overflow, rest)

/-- A number. -/
def number? : List Char → Option (Token × List Char)
  | '-' :: rest => unsigned? true rest
  | cs => unsigned? false cs

/-! ## Strings -/

def hexValue? (c : Char) : Option Nat :=
  if c.isDigit then some (c.toNat - '0'.toNat)
  else if 'a' ≤ c ∧ c ≤ 'f' then some (c.toNat - 'a'.toNat + 10)
  else if 'A' ≤ c ∧ c ≤ 'F' then some (c.toNat - 'A'.toNat + 10)
  else none

/-- The code unit of four hexadecimal digits. -/
def codeUnit? (a b c d : Char) : Option Nat := do
  return (((← hexValue? a) * 16 + (← hexValue? b)) * 16 + (← hexValue? c)) * 16 + (← hexValue? d)

/-- The character of an escape by one letter. -/
def escaped? (c : Char) : Option Char :=
  match c with
  | '"' => some '"'
  | '\\' => some '\\'
  | '/' => some '/'
  | 'b' => some '\x08'
  | 'f' => some '\x0c'
  | 'n' => some '\n'
  | 'r' => some '\r'
  | 't' => some '\t'
  | _ => none

def isHighSurrogate (unit : Nat) : Bool := 0xd800 ≤ unit && unit < 0xdc00

def isLowSurrogate (unit : Nat) : Bool := 0xdc00 ≤ unit && unit < 0xe000

/-- The code points and surrogates of a string up to the closing quote, and what follows it. Raw
control characters are refused. -/
def stringBody? : List Char → Option (List Nat × List Char)
  | [] => none
  | '"' :: rest => some ([], rest)
  | '\\' :: 'u' :: a :: b :: c :: d :: rest =>
    match codeUnit? a b c d with
    | none => none
    | some unit => (stringBody? rest).map fun (units, rest) => (unit :: units, rest)
  | '\\' :: c :: rest =>
    match escaped? c with
    | none => none
    | some c => (stringBody? rest).map fun (units, rest) => (c.toNat :: units, rest)
  | c :: rest =>
    if c.toNat < 0x20 then none
    else (stringBody? rest).map fun (units, rest) => (c.toNat :: units, rest)

/-- The characters of code points, of which a high surrogate and the low one after it stand for one
character; nothing if a surrogate is left alone. -/
def characters? : List Nat → Option (List Char)
  | [] => some []
  | high :: low :: rest =>
    if isHighSurrogate high then
      if isLowSurrogate low then
        (characters? rest).map
          (Char.ofNat (0x10000 + (high - 0xd800) * 0x400 + (low - 0xdc00)) :: ·)
      else none
    else if isLowSurrogate high then none
    else (characters? (low :: rest)).map (Char.ofNat high :: ·)
  | [last] =>
    if isHighSurrogate last || isLowSurrogate last then none else some [Char.ofNat last]

/-- The string of code points and surrogates. -/
def ofUnits (units : List Nat) : Token :=
  match characters? units with
  | some cs => .string (String.ofList cs)
  | none => .unpaired

/-! ## Scanning -/

/-- White space of JSON. -/
def isSpace (c : Char) : Bool := c == ' ' || c == '\t' || c == '\n' || c == '\r'

/-- The token at the start of a text. -/
def next? : List Char → Option (Token × List Char)
  | '\x7b' :: rest => some (.leftBrace, rest)
  | '\x7d' :: rest => some (.rightBrace, rest)
  | '[' :: rest => some (.leftBracket, rest)
  | ']' :: rest => some (.rightBracket, rest)
  | ':' :: rest => some (.colon, rest)
  | ',' :: rest => some (.comma, rest)
  | '"' :: rest => (stringBody? rest).map fun (units, rest) => (ofUnits units, rest)
  | 'n' :: 'u' :: 'l' :: 'l' :: rest => some (.null, rest)
  | 't' :: 'r' :: 'u' :: 'e' :: rest => some (.bool true, rest)
  | 'f' :: 'a' :: 'l' :: 's' :: 'e' :: rest => some (.bool false, rest)
  | cs => number? cs

/-- The tokens of a text that is no longer than `fuel`. -/
def scanWithin : Nat → List Char → List Token
  | 0, _ => []
  | fuel + 1, cs =>
    match cs with
    | [] => []
    | c :: rest =>
      if isSpace c then scanWithin fuel rest
      else
        match next? cs with
        | none => [.bad]
        | some (token, rest) => token :: scanWithin fuel rest

/-- The tokens of a text. -/
def scan (cs : List Char) : List Token := scanWithin cs.length cs

end Token

end ContractTests.Json
