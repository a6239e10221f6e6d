import ContractTests.Decimal.Shortest

/-! # Decimal notation

How a sequence of digits and a power of ten are written out: positionally, or with an exponent.
`Double.plain` is the notation of the generated source: no exponent, and one decimal for a value
without a fractional part.
-/

set_option autoImplicit false

namespace ContractTests

/-- The digits with a point at its place, and `.0` after an integer. -/
def Digits.positional (d : Digits) : List Char :=
  if d.exponent < 0 then
    '0' :: '.' :: (List.replicate (-d.exponent - 1).toNat '0' ++ d.digits)
  else
    let before := d.exponent.toNat + 1
    let whole := d.digits.take before ++ List.replicate (before - d.digits.length) '0'
    let rest := d.digits.drop before
    whole ++ '.' :: (if rest.isEmpty then ['0'] else rest)

/-- One digit before the point, and a signed power of ten. -/
def Digits.scientific (d : Digits) : List Char :=
  let point := if d.digits.length ≤ 1 then d.digits else d.digits.take 1 ++ '.' :: d.digits.drop 1
  let sign := if d.exponent < 0 then '-' else '+'
  point ++ 'e' :: sign :: decimalDigits d.exponent.natAbs

/-- The decimal text of a natural number. -/
def natText (n : Nat) : String := String.ofList (decimalDigits n)

/-- The decimal text of an integer. -/
def intText (n : Int) : String :=
  String.ofList ((if n < 0 then ['-'] else []) ++ decimalDigits n.natAbs)

namespace Double

/-- A sign, for a negative number. -/
def sign (x : Double) : List Char := if x.isNegative then ['-'] else []

/-- A finite value without exponent: exactly and with one decimal if it is an integer, and else
with the fewest digits that read back. -/
def plain (x : Double) : String :=
  String.ofList <| x.sign ++
    if x.isIntegral then decimalDigits (x.numerator / x.denominator) ++ ['.', '0']
    else (x.shortest .up).positional

end Double

end ContractTests
