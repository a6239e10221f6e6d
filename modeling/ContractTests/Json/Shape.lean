import ContractTests.Json.Basic

/-! # Shapes of JSON values

What a reader of a value looks at. The fields of a record are listed in their order, because a record
may be given as an array. `Json.fitted` brings a value in which records and choices were written more
freely to the form that the decoders take.
-/

set_option autoImplicit false

namespace ContractTests.Json

/-- Which parts of a value are read. -/
inductive Shape where
  /-- All of it. -/
  | all
  /-- A name, or a record whose only member has that name. -/
  | choice
  /-- All elements, in their shape. -/
  | list (element : Shape)
  /-- The fields of a record, each in its shape. -/
  | record (fields : List (String × Shape))
deriving Repr

namespace Shape

/-- The shape of a member, if it is read. -/
def member? : Shape → String → Option Shape
  | .record fields, name => fields.lookup name
  | _, _ => some .all

/-- The shape of the element at a position. -/
def element : Shape → Nat → Shape
  | .list shape, _ => shape
  | .record fields, i => (fields[i]?).elim .all (·.2)
  | _, _ => .all

/-- The number of elements that are read. -/
def length? : Shape → Option Nat
  | .record fields => some fields.length
  | _ => none

end Shape

/-- The name that a choice stands for, when it is given as a record with one empty member. -/
def chosen : Json → Json
  | .object [(name, .object [])] => .string name
  | .object [(name, .array [])] => .string name
  | j => j

mutual

/-- The value in which an array that stands for a record has no elements beyond the fields, and a
choice is a name. -/
def fitted : Shape → Json → Json
  | .choice, j => chosen j
  | shape, .array elements => .array (fittedFrom shape 0 elements)
  | shape, .object members => .object (fittedMembers shape members)
  | _, j => j

/-- The elements from the position `i` on. -/
def fittedFrom (shape : Shape) (i : Nat) : List Json → List Json
  | [] => []
  | j :: rest =>
    if shape.length?.any (· ≤ i) then []
    else fitted (shape.element i) j :: fittedFrom shape (i + 1) rest

/-- The members, those that are not read as they are. -/
def fittedMembers (shape : Shape) : List (String × Json) → List (String × Json)
  | [] => []
  | (name, j) :: rest =>
    (name, (shape.member? name).elim j (fitted · j)) :: fittedMembers shape rest

end

end ContractTests.Json
