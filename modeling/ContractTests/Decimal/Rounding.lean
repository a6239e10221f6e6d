import ContractTests.Decimal.Double

/-! # Rounding to the nearest double

`Double.ofRatio` is the double nearest to a non-negative ratio, a half going to the even
neighbour and an overflow to infinity. Products and quotients of non-negative finite values are
rounded through it.
-/

set_option autoImplicit false

namespace ContractTests

/-- The integer nearest to `n / d`; a half goes to the even neighbour. -/
def roundHalfEven (n d : Nat) : Nat :=
  let quotient := n / d
  let remainder := n % d
  if 2 * remainder < d then quotient
  else if d < 2 * remainder then quotient + 1
  else quotient + quotient % 2

namespace Double

/-- The exponent `e` with `2 ^ e ≤ num / den < 2 ^ (e + 1)`, for positive `num` and `den`. -/
def binaryExponent (num den : Nat) : Int :=
  let guess : Int := (num.log2 : Int) - (den.log2 : Int)
  if num * Nat.pow 2 (-guess).toNat < den * Nat.pow 2 guess.toNat then guess - 1 else guess

/-- The double nearest to `num / den`, for positive `den`. -/
def ofRatio (num den : Nat) : Double :=
  if num = 0 then zero
  else
    let place := (binaryExponent num den + 1022).toNat
    let units := roundHalfEven (num * Nat.pow 2 (1074 - place)) (den * Nat.pow 2 (place - 1074))
    let bits := place * Nat.pow 2 52 + units
    if bits < 2047 * Nat.pow 2 52 then ⟨UInt64.ofNat bits⟩ else infinity

def ofNat (n : Nat) : Double := ofRatio n 1

/-- The rounded product of two non-negative finite values. -/
def times (x y : Double) : Double :=
  ofRatio (x.numerator * y.numerator) (x.denominator * y.denominator)

/-- The rounded quotient of two non-negative finite values, the second positive. -/
def dividedBy (x y : Double) : Double :=
  ofRatio (x.numerator * y.denominator) (x.denominator * y.numerator)

end Double

end ContractTests
