import ContractTests.Decimal.Notation
import ContractTests.Json.Basic
import ContractTests.Text.Quoted

/-! # Writing JSON

`Json.compact` writes a value without white space; `Json.pretty` puts every element and member on a
line of its own, indented by two spaces a level. A double is written with the fewest digits that
read back, positionally from `1e-5` up to `1e15`; one that is not finite is `null`.
-/

set_option autoImplicit false

namespace ContractTests.Json

/-- How one character is written inside a JSON string. -/
def stringEscape (c : Char) : List Char :=
  if c = '"' then ['\\', '"']
  else if c = '\\' then ['\\', '\\']
  else if c = '\n' then ['\\', 'n']
  else if c = '\r' then ['\\', 'r']
  else if c = '\t' then ['\\', 't']
  else if c.toNat = 0x08 then ['\\', 'b']
  else if c.toNat = 0x0c then ['\\', 'f']
  else if c.toNat < 0x20 then '\\' :: 'u' :: Text.hexDigits 4 c.toNat
  else [c]

def stringText (s : String) : String :=
  String.ofList ('"' :: (s.toList.flatMap stringEscape ++ ['"']))

def doubleText (x : Double) : String :=
  if !x.isFinite then "null"
  else if x.isZero then String.ofList (x.sign ++ ['0', '.', '0'])
  else
    let d := x.shortest .toEven
    String.ofList
      (x.sign ++ if -5 ≤ d.exponent ∧ d.exponent ≤ 15 then d.positional else d.scientific)

/-! ## Without white space -/

mutual

/-- The text of a value without white space. -/
def compact : Json → String
  | .null => "null"
  | .bool b => if b then "true" else "false"
  | .integer n => intText n
  | .double x => doubleText x
  | .string s => stringText s
  | .array elements => "[" ++ String.intercalate "," (compactAll elements) ++ "]"
  | .object members => "\x7b" ++ String.intercalate "," (compactMembers members) ++ "\x7d"

/-- The texts of the elements. -/
def compactAll : List Json → List String
  | [] => []
  | j :: rest => compact j :: compactAll rest

/-- The texts of the members. -/
def compactMembers : List (String × Json) → List String
  | [] => []
  | (name, j) :: rest => (stringText name ++ ":" ++ compact j) :: compactMembers rest

end

/-! ## One line each -/

/-- A line break and the indentation of `level`. -/
def newline (level : Nat) : String := String.ofList ('\n' :: List.replicate (2 * level) ' ')

/-- The parts on lines of their own, one level deeper than the brackets around them. -/
def block (level : Nat) (left right : String) (parts : List String) : String :=
  if parts.isEmpty then left ++ right
  else
    left ++ newline (level + 1) ++ String.intercalate ("," ++ newline (level + 1)) parts ++
      newline level ++ right

mutual

/-- The indented text of a value that starts at `level`. -/
def prettyAt (level : Nat) : Json → String
  | .array elements => block level "[" "]" (prettyAll (level + 1) elements)
  | .object members => block level "\x7b" "\x7d" (prettyMembers (level + 1) members)
  | .null => "null"
  | .bool b => if b then "true" else "false"
  | .integer n => intText n
  | .double x => doubleText x
  | .string s => stringText s

/-- The texts of the elements. -/
def prettyAll (level : Nat) : List Json → List String
  | [] => []
  | j :: rest => prettyAt level j :: prettyAll level rest

/-- The texts of the members. -/
def prettyMembers (level : Nat) : List (String × Json) → List String
  | [] => []
  | (name, j) :: rest => (stringText name ++ ": " ++ prettyAt level j) :: prettyMembers level rest

end

/-- The indented text of a value. -/
def pretty (j : Json) : String := prettyAt 0 j

end ContractTests.Json
