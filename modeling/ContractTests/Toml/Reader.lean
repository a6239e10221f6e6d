import ContractTests.Decimal.Rounding
import ContractTests.Toml.DateTime
import ContractTests.Toml.Table

/-! # Reading TOML

`Toml.read?` reads a document as one JSON object: tables, dotted keys, strings, integers, floats,
booleans, dates, arrays and inline tables. A date or time is an object whose only member is its text.
Each part of the reader gives what it has read and the characters that follow.
-/

set_option autoImplicit false

namespace ContractTests.Toml

/-! ## Space -/

def isSpace (c : Char) : Bool := c == ' ' || c == '\t'

def skipSpace (cs : List Char) : List Char := cs.dropWhile isSpace

/-- A character that may stand in comments and strings. -/
def isText (c : Char) : Bool := c == '\t' || (0x20 ≤ c.toNat && c.toNat != 0x7f)

/-- What follows a line break. -/
def newline? : List Char → Option (List Char)
  | '\n' :: rest => some rest
  | '\r' :: '\n' :: rest => some rest
  | _ => none

/-- What follows a comment, if there is one. -/
def skipComment : List Char → List Char
  | '#' :: rest => rest.dropWhile isText
  | cs => cs

/-- What follows the rest of a line without content. -/
def lineEnd? (cs : List Char) : Option (List Char) :=
  match skipComment (skipSpace cs) with
  | [] => some []
  | cs => newline? cs

/-- What follows spaces, comments and line breaks. -/
def skipLines : Nat → List Char → List Char
  | 0, cs => cs
  | fuel + 1, cs =>
    match newline? (skipComment (skipSpace cs)) with
    | some rest => skipLines fuel rest
    | none => skipSpace cs

/-! ## Strings -/

/-- The character of a code point in hexadecimal digits. -/
def codePoint? (digits : List Char) : Option Char := do
  let values ← digits.mapM Json.Token.hexValue?
  let n := values.foldl (fun n digit => n * 16 + digit) 0
  if n < 0xd800 ∨ (0xdfff < n ∧ n < 0x110000) then some (Char.ofNat n) else none

/-- The character of an escape after its backslash. -/
def escape? : List Char → Option (Char × List Char)
  | '"' :: rest => some ('"', rest)
  | '\\' :: rest => some ('\\', rest)
  | 'b' :: rest => some ('\x08', rest)
  | 't' :: rest => some ('\t', rest)
  | 'n' :: rest => some ('\n', rest)
  | 'f' :: rest => some ('\x0c', rest)
  | 'r' :: rest => some ('\r', rest)
  | 'u' :: rest =>
    if rest.length < 4 then none else (codePoint? (rest.take 4)).map (·, rest.drop 4)
  | 'U' :: rest =>
    if rest.length < 8 then none else (codePoint? (rest.take 8)).map (·, rest.drop 8)
  | _ => none

/-- The rest of a string in double quotes. -/
def basic? : Nat → List Char → Option (List Char × List Char)
  | 0, _ => none
  | fuel + 1, cs =>
    match cs with
    | '"' :: rest => some ([], rest)
    | '\\' :: rest => do
      let (c, rest) ← escape? rest
      let (tail, rest) ← basic? fuel rest
      return (c :: tail, rest)
    | c :: rest =>
      if isText c then (basic? fuel rest).map fun (tail, rest) => (c :: tail, rest) else none
    | [] => none

/-- The quotes that end a string of several lines: of more than three, up to two belong to the
string. -/
def closing? (quote : Char) (cs : List Char) : Option (List Char × List Char) :=
  let quotes := (cs.takeWhile (· == quote)).take 5
  if quotes.length < 3 then none else some (quotes.drop 3, cs.drop quotes.length)

/-- What follows spaces and line breaks. -/
def skipBlank : List Char → List Char
  | '\r' :: '\n' :: rest => skipBlank rest
  | c :: rest => if isSpace c || c == '\n' then skipBlank rest else c :: rest
  | [] => []

/-- What follows a backslash at the end of a line: the next text. -/
def continued? (cs : List Char) : Option (List Char) := (newline? (skipSpace cs)).map skipBlank

/-- The rest of a string of several lines. -/
def multiLine? (quote : Char) (escapes : Bool) : Nat → List Char → Option (List Char × List Char)
  | 0, _ => none
  | fuel + 1, cs =>
    match closing? quote cs, cs with
    | some found, _ => some found
    | none, [] => none
    | none, '\\' :: rest =>
      if escapes then
        match continued? rest with
        | some rest => multiLine? quote escapes fuel rest
        | none => do
          let (c, rest) ← escape? rest
          let (tail, rest) ← multiLine? quote escapes fuel rest
          return (c :: tail, rest)
      else (multiLine? quote escapes fuel rest).map fun (tail, rest) => ('\\' :: tail, rest)
    | none, c :: rest =>
      match newline? cs with
      | some rest =>
        (multiLine? quote escapes fuel rest).map fun (tail, rest) => ('\n' :: tail, rest)
      | none =>
        if isText c then
          (multiLine? quote escapes fuel rest).map fun (tail, rest) => (c :: tail, rest)
        else none

/-- A string in single quotes, after the quote. -/
def literal? (cs : List Char) : Option (List Char × List Char) :=
  let text := cs.takeWhile fun c => isText c && c != '\x27'
  match cs.drop text.length with
  | '\x27' :: rest => some (text, rest)
  | _ => none

/-- A string. -/
def string? (fuel : Nat) : List Char → Option (List Char × List Char)
  | '"' :: '"' :: '"' :: rest => multiLine? '"' true fuel ((newline? rest).getD rest)
  | '"' :: rest => basic? fuel rest
  | '\x27' :: '\x27' :: '\x27' :: rest => multiLine? '\x27' false fuel ((newline? rest).getD rest)
  | '\x27' :: rest => literal? rest
  | _ => none

/-! ## Keys -/

def isBare (c : Char) : Bool := c.isAlphanum || c == '_' || c == '-'

/-- A key without dots. -/
def simpleKey? (fuel : Nat) : List Char → Option (String × List Char)
  | '"' :: rest => (basic? fuel rest).map fun (cs, rest) => (String.ofList cs, rest)
  | '\x27' :: rest => (literal? rest).map fun (cs, rest) => (String.ofList cs, rest)
  | cs =>
    let key := cs.takeWhile isBare
    if key.isEmpty then none else some (String.ofList key, cs.drop key.length)

/-- The deepest nesting of arrays and inline tables, and the greatest number of keys between dots. -/
def depthLimit : Nat := 79

/-- A key of at most `length` parts: those before the last dot, and the last one. -/
def keyWithin? (fuel : Nat) : Nat → List Char → Option ((List String × String) × List Char)
  | 0, _ => none
  | length + 1, cs => do
    let (first, rest) ← simpleKey? fuel (skipSpace cs)
    match skipSpace rest with
    | '.' :: rest =>
      let ((path, last), rest) ← keyWithin? fuel length rest
      return ((first :: path, last), rest)
    | rest => return (([], first), rest)

/-- A key: the keys before the last dot, and the last one. -/
def key? (fuel : Nat) (cs : List Char) : Option ((List String × String) × List Char) :=
  keyWithin? fuel depthLimit cs

/-! ## Numbers -/

/-- The digits of a number without the underscores between them. -/
def digits? (isDigit : Char → Bool) (cs : List Char) : Option (List Char) :=
  let groups := (cs.splitBy fun a b => a != '_' && b != '_').filter (· != ['_'])
  let digits := groups.flatten
  let underscores := cs.length - digits.length
  if digits.isEmpty || !digits.all isDigit || underscores != groups.length - 1 then none
  else some digits

/-- The value of digits to a base. -/
def natural? (base : Nat) (cs : List Char) : Option Nat := do
  let digits ← digits? (fun c => (Json.Token.hexValue? c).any (· < base)) cs
  let values ← digits.mapM Json.Token.hexValue?
  return values.foldl (fun n digit => n * base + digit) 0

/-- Decimal digits that do not start with a superfluous zero. -/
def decimal? (cs : List Char) : Option (List Char) := do
  let digits ← digits? Char.isDigit cs
  if digits.head? == some '0' && digits.length != 1 then none else some digits

/-- A sign and what follows it. -/
def signed (cs : List Char) : Bool × List Char :=
  match cs with
  | '-' :: rest => (true, rest)
  | '+' :: rest => (false, rest)
  | rest => (false, rest)

/-- An integer of 64 bits. -/
def integer? (cs : List Char) : Option Json := do
  let n : Int ← match cs with
    | '0' :: 'x' :: rest => (natural? 16 rest).map Int.ofNat
    | '0' :: 'o' :: rest => (natural? 8 rest).map Int.ofNat
    | '0' :: 'b' :: rest => (natural? 2 rest).map Int.ofNat
    | cs => do
      let (negative, rest) := signed cs
      let n : Int := Json.Token.naturalValue (← decimal? rest)
      pure (if negative then -n else n)
  if -Nat.pow 2 63 ≤ n ∧ n < Nat.pow 2 63 then some (.integer n) else none

/-- A float. Beyond the doubles a negative one is infinite, and any other is refused. -/
def float? (cs : List Char) : Option Json := do
  let (negative, rest) := signed cs
  let sign (x : Double) : Json := .double (if negative then x.negated else x)
  if rest == "inf".toList then return sign .infinity
  if rest == "nan".toList then return sign .nan
  let whole := rest.takeWhile fun c => c.isDigit || c == '_'
  let (fraction, rest) ← match rest.drop whole.length with
    | '.' :: rest =>
      let fraction := rest.takeWhile fun c => c.isDigit || c == '_'
      (digits? Char.isDigit fraction).map (·, rest.drop fraction.length)
    | rest => some ([], rest)
  let exponent : Int ← match rest with
    | [] => if fraction.isEmpty then none else some 0
    | c :: rest =>
      if c == 'e' || c == 'E' then do
        let (negative, rest) := signed rest
        let n : Int := Json.Token.naturalValue (← digits? Char.isDigit rest)
        pure (if negative then -n else n)
      else none
  let n := Json.Token.naturalValue ((← decimal? whole) ++ fraction)
  let power := exponent - fraction.length
  let places := power + (Nat.toDigits 10 n).length
  if n = 0 ∨ places < -400 then return sign .zero
  let x := if 400 < places then .infinity
    else Double.ofRatio (n * Nat.pow 10 power.toNat) (Nat.pow 10 (-power).toNat)
  if x.isFinite || negative then return sign x else none

/-- A value without quotes and brackets. -/
def scalar? (cs : List Char) : Option Json :=
  if cs == "true".toList then some (.bool true)
  else if cs == "false".toList then some (.bool false)
  else (integer? cs).or (float? cs)

/-- A character that ends such a value. -/
def endsScalar (c : Char) : Bool :=
  isSpace c || c == ',' || c == ']' || c == '\x7d' || c == '#' || c == '\n' || c == '\r'

/-! ## Values -/

/-- A value without quotes and brackets. -/
def plain? (cs : List Char) : Option (Json × List Char) :=
  match dateTime? cs with
  | some rest =>
    let text := cs.take (cs.length - rest.length)
    some (.object [("datetime", .string (String.ofList text))], rest)
  | none =>
    let text := cs.takeWhile (!endsScalar ·)
    (scalar? text).map (·, cs.drop text.length)

mutual

/-- A value nested at most `depth` deep. -/
def value? : Nat → Nat → List Char → Option (Json × List Char)
  | 0, _, _ => none
  | fuel + 1, depth, cs =>
    match depth, cs with
    | _, '"' :: _ => (string? fuel cs).map fun (cs, rest) => (.string (String.ofList cs), rest)
    | _, '\x27' :: _ => (string? fuel cs).map fun (cs, rest) => (.string (String.ofList cs), rest)
    | 0, '[' :: _ => none
    | 0, '\x7b' :: _ => none
    | depth + 1, '[' :: rest =>
      (elements? fuel depth (skipLines fuel rest)).map fun (js, rest) => (.array js, rest)
    | depth + 1, '\x7b' :: rest =>
      match skipSpace rest with
      | '\x7d' :: rest => some (.object [], rest)
      | rest =>
        (inline? fuel depth [] rest).map fun (members, rest) =>
          (.object (membersToJson members), rest)
    | _, cs => plain? cs

/-- The elements of an array and its closing bracket. -/
def elements? : Nat → Nat → List Char → Option (List Json × List Char)
  | 0, _, _ => none
  | fuel + 1, depth, cs =>
    match cs with
    | ']' :: rest => some ([], rest)
    | cs => do
      let (j, rest) ← value? fuel depth cs
      match skipLines fuel rest with
      | ',' :: rest =>
        let (js, rest) ← elements? fuel depth (skipLines fuel rest)
        return (j :: js, rest)
      | ']' :: rest => return ([j], rest)
      | _ => none

/-- The members of an inline table, after those read before, and its closing brace. -/
def inline? : Nat → Nat → Members → List Char → Option (Members × List Char)
  | 0, _, _, _ => none
  | fuel + 1, depth, members, cs => do
    let ((path, key), rest) ← key? fuel cs
    match rest with
    | '=' :: rest =>
      let (j, rest) ← value? fuel depth (skipSpace rest)
      let members ← assignKey path key j members
      match skipSpace rest with
      | ',' :: rest => inline? fuel depth members rest
      | '\x7d' :: rest => return (members, rest)
      | _ => none
    | _ => none

end

/-! ## Documents -/

/-- A document from some line on, given the path of the current table and what was read before. -/
def document? : Nat → List String → Members → List Char → Option Members
  | 0, _, members, _ => some members
  | fuel + 1, current, members, cs =>
    match skipLines (fuel + 1) cs with
    | [] => some members
    | '[' :: '[' :: rest => do
      let ((path, key), rest) ← key? fuel rest
      match rest with
      | ']' :: ']' :: rest =>
        document? fuel (path ++ [key]) (← pushTable path key members) (← lineEnd? rest)
      | _ => none
    | '[' :: rest => do
      let ((path, key), rest) ← key? fuel rest
      match rest with
      | ']' :: rest =>
        document? fuel (path ++ [key]) (← openTable path key members) (← lineEnd? rest)
      | _ => none
    | '#' :: rest => if (skipComment ('#' :: rest)).isEmpty then some members else none
    | cs => do
      let ((path, key), rest) ← key? fuel cs
      match rest with
      | '=' :: rest =>
        let (j, rest) ← value? fuel depthLimit (skipSpace rest)
        document? fuel current (← assignIn current path key j members) (← lineEnd? rest)
      | _ => none

/-- The object that a document holds. -/
def read? (s : String) : Option Json := do
  let cs := match s.toList with
    | '\ufeff' :: rest => rest
    | cs => cs
  let members ← document? (cs.length + 1) [] [] cs
  return .object (membersToJson members)

end ContractTests.Toml
