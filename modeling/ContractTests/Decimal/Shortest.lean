import ContractTests.Decimal.Double

/-! # Shortest decimals

`Double.shortest` gives the fewest decimal digits that read back as a positive finite double, and
of those the ones nearest to it. A decimal reads back when it lies in the interval of reals that
round to the double; the ends belong to the interval when the significand is even.
-/

set_option autoImplicit false

namespace ContractTests

/-- What becomes of a value halfway between two decimals. -/
inductive Tie where
  | toEven
  | up
deriving DecidableEq, Repr

/-- A positive decimal: its digits, and the power of ten of the first one. -/
structure Digits where
  digits : List Char
  exponent : Int
deriving DecidableEq, Repr

/-- The decimal digits of `n`. -/
def decimalDigits (n : Nat) : List Char := Nat.toDigits 10 n

/-- The digits of `count · 10 ^ power`, without zeros at the end. -/
def Digits.ofCount (count : Nat) (power : Int) : Digits :=
  let all := decimalDigits count
  let kept := (all.reverse.dropWhile (· == '0')).reverse
  { digits := if kept.isEmpty then ['0'] else kept
    exponent := power + all.length - 1 }

namespace Double

/-- The power of ten of the first digit of `num / den`, both positive. -/
def decimalExponent (num den : Nat) : Int :=
  if den ≤ num then (decimalDigits (num / den)).length - 1
  else -(decimalDigits ((den - 1) / num)).length

/-- Whether `count · 10 ^ power` rounds to `x`. -/
def readsBack (x : Double) (count : Nat) (power : Int) : Bool :=
  let below := if x.fraction = 0 && 1 < x.exponentField then 1 else 2
  let value := 4 * count * Nat.pow 10 power.toNat * x.denominator
  let tens := Nat.pow 10 (-power).toNat * x.unitNumerator
  let low := (4 * x.significand - below) * tens
  let high := (4 * x.significand + 2) * tens
  if x.significand % 2 = 0 then low ≤ value && value ≤ high else low < value && value < high

/-- The decimal of `size` digits nearest to `x`, of those that read back. -/
def nearest? (x : Double) (tie : Tie) (size : Nat) : Option Digits :=
  let power := decimalExponent x.numerator x.denominator - size + 1
  let num := x.numerator * Nat.pow 10 (-power).toNat
  let den := x.denominator * Nat.pow 10 power.toNat
  let count := num / den
  let remainder := num % den
  let upward :=
    if 2 * remainder = den then (tie == .up || count % 2 == 1) else den < 2 * remainder
  match x.readsBack count power, x.readsBack (count + 1) power with
  | true, true => some (.ofCount (if upward then count + 1 else count) power)
  | true, false => some (.ofCount count power)
  | false, true => some (.ofCount (count + 1) power)
  | false, false => none

/-- The fewest digits that read back as the positive finite `x`. Seventeen always do. -/
def shortest (x : Double) (tie : Tie) : Digits :=
  ((List.range 17).findSome? fun n => x.nearest? tie (n + 1)).getD ⟨['0'], 0⟩

end Double

end ContractTests
