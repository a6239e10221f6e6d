import ContractTests.Json.Basic

/-! # Decoding JSON values

Decoders for scalars, lists, records and tagged records. A record is an object, whose unknown members
are ignored and whose known ones may not repeat, or the array of its fields in order, whose last
fields may be missing. A tagged record names its variant by a member of its own, or by the first
element of the array. Inside another tagged record the variant may also be given by its position.
-/

set_option autoImplicit false

namespace ContractTests.Json

/-! ## Scalars and lists -/

def string? : Json → Option String
  | .string s => some s
  | _ => none

def bool? : Json → Option Bool
  | .bool b => some b
  | _ => none

def natural? (bound : Nat) : Json → Option Nat
  | .integer n => if 0 ≤ n ∧ n < bound then some n.toNat else none
  | _ => none

def int64? : Json → Option Int64
  | .integer n => if -Nat.pow 2 63 ≤ n ∧ n < Nat.pow 2 63 then some (Int64.ofInt n) else none
  | _ => none

def uint32? (j : Json) : Option UInt32 := (j.natural? (Nat.pow 2 32)).map UInt32.ofNat

def array? : Json → Option (List Json)
  | .array elements => some elements
  | _ => none

/-- The list of decoded elements. -/
def list? {α : Type} (decode : Json → Option α) (j : Json) : Option (List α) := do
  (← j.array?).mapM decode

/-- Nothing for `null`, and else the decoded value. -/
def nullable? {α : Type} (decode : Json → Option α) : Json → Option (Option α)
  | .null => some none
  | j => (decode j).map some

/-- The name of a variant without fields: a string, or an object whose only member is `null`; inside
a tagged record the member may also be an empty object. -/
def variant? (nested : Bool) : Json → Option String
  | .string s => some s
  | .object [(name, .null)] => some name
  | .object [(name, .object [])] => if nested then some name else none
  | _ => none

/-! ## Records -/

/-- The only member called `name`, if there is one; nothing if it is repeated. -/
def member? (members : List (String × Json)) (name : String) : Option (Option Json) :=
  match members.filter (·.1 == name) with
  | [] => some none
  | [(_, j)] => some (some j)
  | _ => none

/-- The fields of a record, each with its value if it is given. -/
def record? (names : List String) : Json → Option (List (Option Json))
  | .object members => names.mapM (member? members)
  | .array elements =>
    if elements.length ≤ names.length then
      some (elements.map some ++ List.replicate (names.length - elements.length) none)
    else none
  | _ => none

/-- The value of a field, or the default when it is not given. -/
def field? {α : Type} (decode : Json → Option α) (default : α) : Option Json → Option α
  | none => some default
  | some j => decode j

/-! ## Tagged records -/

/-- The variant that a tag stands for: its name or, where that is allowed, its position. -/
def tagged? (variants : List String) (byPosition : Bool) : Json → Option String
  | .string s => if variants.contains s then some s else none
  | .integer n => if byPosition && 0 ≤ n then variants[n.toNat]? else none
  | _ => none

/-- The variant of a tagged record and the record without its tag. -/
def untag? (tag : String) (variants : List String) (byPosition : Bool) :
    Json → Option (String × Json)
  | .object members => do
    let j ← (← member? members tag)
    return (← tagged? variants byPosition j, .object (members.filter (·.1 != tag)))
  | .array (j :: rest) => do return (← tagged? variants byPosition j, .array rest)
  | _ => none

end ContractTests.Json
