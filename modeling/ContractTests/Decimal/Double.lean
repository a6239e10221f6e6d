/-! # Double-precision numbers

A `Double` is its sixty-four bits, so that two of them are equal exactly when they are the same
datum. `Double.same` is the numeric comparison: a NaN differs from itself and the two zeros agree.
The magnitude of a finite value is the ratio `numerator / denominator`.
-/

set_option autoImplicit false

namespace ContractTests

/-- A binary64 number. -/
structure Double where
  bits : UInt64
deriving DecidableEq, Repr, Inhabited

namespace Double

def zero : Double := ⟨0⟩
def infinity : Double := ⟨0x7ff0000000000000⟩
def negInfinity : Double := ⟨0xfff0000000000000⟩
def nan : Double := ⟨0x7ff8000000000000⟩

/-! ## Fields -/

def isNegative (x : Double) : Bool := Nat.pow 2 63 ≤ x.bits.toNat

def exponentField (x : Double) : Nat := x.bits.toNat / Nat.pow 2 52 % Nat.pow 2 11

def fraction (x : Double) : Nat := x.bits.toNat % Nat.pow 2 52

def isNaN (x : Double) : Bool := x.exponentField == 2047 && x.fraction != 0

def isInfinite (x : Double) : Bool := x.exponentField == 2047 && x.fraction == 0

def isFinite (x : Double) : Bool := x.exponentField != 2047

def isZero (x : Double) : Bool := x.bits.toNat % Nat.pow 2 63 == 0

/-- The number with the other sign. -/
def negated (x : Double) : Double := ⟨x.bits ^^^ 0x8000000000000000⟩

/-- Numeric equality. -/
def same (x y : Double) : Bool :=
  !x.isNaN && !y.isNaN && (x == y || (x.isZero && y.isZero))

/-! ## Magnitude

A finite value is `significand` units in its last place; the unit is `unitNumerator / denominator`.
-/

/-- The integer that counts units in the last place. -/
def significand (x : Double) : Nat :=
  if x.exponentField = 0 then x.fraction else Nat.pow 2 52 + x.fraction

/-- The exponent field of the unit, that of the smallest normal numbers for subnormal ones. -/
def scale (x : Double) : Nat := max x.exponentField 1

def unitNumerator (x : Double) : Nat := Nat.pow 2 (x.scale - 1075)

def denominator (x : Double) : Nat := Nat.pow 2 (1075 - x.scale)

def numerator (x : Double) : Nat := x.significand * x.unitNumerator

/-- A finite value without a fractional part. -/
def isIntegral (x : Double) : Bool := x.isFinite && x.numerator % x.denominator == 0

end Double

end ContractTests
