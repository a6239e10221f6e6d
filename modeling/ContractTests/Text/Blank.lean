/-! # White space

`isBlank` is the Unicode property White_Space. The trimming functions drop blank characters at the
ends of a text and nowhere else; they work on lists of characters, and on strings through them.
-/

set_option autoImplicit false

namespace ContractTests.Text

/-- A white-space character. -/
def isBlank (c : Char) : Bool :=
  c == ' ' || (0x09 ≤ c.toNat && c.toNat ≤ 0x0d) || c.toNat == 0x85 || c.toNat == 0xa0 ||
    c.toNat == 0x1680 || (0x2000 ≤ c.toNat && c.toNat ≤ 0x200a) || c.toNat == 0x2028 ||
    c.toNat == 0x2029 || c.toNat == 0x202f || c.toNat == 0x205f || c.toNat == 0x3000

/-- What follows the leading white space. -/
def trimStart (cs : List Char) : List Char := cs.dropWhile isBlank

/-- What precedes the trailing white space. -/
def trimEnd (cs : List Char) : List Char := (cs.reverse.dropWhile isBlank).reverse

/-- The text without white space at either end. -/
def trim (cs : List Char) : List Char := trimEnd (trimStart cs)

/-- A string without white space at either end. -/
def trimmed (s : String) : String := String.ofList (trim s.toList)

end ContractTests.Text
