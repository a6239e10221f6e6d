import ContractTests.Decimal.Double

/-! # JSON values

Objects keep their members in order and may repeat a name; which of the repeated members counts is
left to whoever decodes the object. An integer and a double are different values.
-/

set_option autoImplicit false

namespace ContractTests

/-- A JSON value. -/
inductive Json where
  | null
  | bool (b : Bool)
  | integer (n : Int)
  | double (x : Double)
  | string (s : String)
  | array (elements : List Json)
  | object (members : List (String × Json))
deriving Repr, Inhabited

namespace Json

mutual

/-- Levels of arrays and objects. -/
def depth : Json → Nat
  | .array elements => depthAll elements + 1
  | .object members => depthMembers members + 1
  | _ => 0

/-- The greatest depth in a list. -/
def depthAll : List Json → Nat
  | [] => 0
  | j :: rest => max (depth j) (depthAll rest)

/-- The greatest depth of a member's value. -/
def depthMembers : List (String × Json) → Nat
  | [] => 0
  | (_, j) :: rest => max (depth j) (depthMembers rest)

end

mutual

/-- The value in which, of the members of one name in an object, only the last is left. -/
def lastOfEach : Json → Json
  | .array elements => .array (lastOfEachAll elements)
  | .object members => .object (lastOfEachMember members)
  | j => j

/-- `lastOfEach` on every element. -/
def lastOfEachAll : List Json → List Json
  | [] => []
  | j :: rest => lastOfEach j :: lastOfEachAll rest

/-- `lastOfEach` on the members that no later one repeats. -/
def lastOfEachMember : List (String × Json) → List (String × Json)
  | [] => []
  | (name, j) :: rest =>
    if rest.any (·.1 == name) then lastOfEachMember rest
    else (name, lastOfEach j) :: lastOfEachMember rest

end

end Json

end ContractTests
