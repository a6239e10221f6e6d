import ContractTests.Text.Printable

/-! # Quoted texts

Two quoted forms of a text. `javaLiteral` is a string literal of Java source: a quote, a backslash
and every control character are escaped, all else stands as it is. `displayed` is the form shown
to a person: it also escapes what is not printable, by code point.
-/

set_option autoImplicit false

namespace ContractTests.Text

/-- The hexadecimal digits of `n`, filled up with zeros to `width`. -/
def hexDigits (width n : Nat) : List Char :=
  let digits := Nat.toDigits 16 n
  List.replicate (width - digits.length) '0' ++ digits

/-! ## Java literals -/

/-- How one character is written inside a Java string literal. -/
def javaEscape (c : Char) : List Char :=
  if c = '"' then ['\\', '"']
  else if c = '\\' then ['\\', '\\']
  else if c = '\n' then ['\\', 'n']
  else if c = '\r' then ['\\', 'r']
  else if c = '\t' then ['\\', 't']
  else if isControl c then '\\' :: 'u' :: hexDigits 4 c.toNat
  else [c]

/-- The characters of the Java string literal for `cs`. -/
def javaLiteralChars (cs : List Char) : List Char :=
  '"' :: (cs.flatMap javaEscape ++ ['"'])

/-- The Java string literal for `s`. -/
def javaLiteral (s : String) : String := String.ofList (javaLiteralChars s.toList)

/-! ## Displayed texts -/

/-- How one character is shown inside a displayed text. -/
def displayEscape (c : Char) : List Char :=
  if c = '"' then ['\\', '"']
  else if c = '\\' then ['\\', '\\']
  else if c = '\n' then ['\\', 'n']
  else if c = '\r' then ['\\', 'r']
  else if c = '\t' then ['\\', 't']
  else if c.toNat = 0 then ['\\', '0']
  else if isPrintable c then [c]
  else '\\' :: 'u' :: '\x7b' :: (hexDigits 1 c.toNat ++ ['\x7d'])

/-- The displayed form of `s`. -/
def displayed (s : String) : String :=
  String.ofList ('"' :: (s.toList.flatMap displayEscape ++ ['"']))

end ContractTests.Text
