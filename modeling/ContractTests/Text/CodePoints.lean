/-! # Sets of code points

A Unicode property is stored as a list of closed ranges of code points. `Ranges.contains` is
membership; the property tables of `Text.Alphanumeric` and `Text.Printable` are read through it.
-/

set_option autoImplicit false

namespace ContractTests.Text

/-- Closed ranges of code points, in ascending order. -/
abbrev Ranges := List (Nat × Nat)

/-- Whether some range holds the code point of `c`. -/
def Ranges.contains (ranges : Ranges) (c : Char) : Bool :=
  ranges.any fun range => range.1 ≤ c.toNat && c.toNat ≤ range.2

end ContractTests.Text
