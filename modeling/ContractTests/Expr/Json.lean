import ContractTests.Decimal.Rounding
import ContractTests.Expr.Basic
import ContractTests.Json.Decode

/-! # Conditions as JSON

An expression is a record tagged by `kind` with the name of its kind; a collection literal is a record
of its own, tagged by `form`. A number is an integer literal when it is an integer of 64 bits and a
floating one otherwise.
-/

set_option autoImplicit false

namespace ContractTests

namespace Literal

def toJson : Literal → Json
  | .integer n => .integer n.toInt
  | .float x => if x.isFinite then .double x else .null
  | .boolean b => .bool b
  | .string s => .string s
  | .null => .null

end Literal

namespace Expr

/-! ## Writing -/

/-- A record tagged by its kind. -/
def tagged (kind : Kind) (members : List (String × Json)) : Json :=
  .object (("kind", .string kind.name) :: members)

/-- A collection literal. -/
def collection (form : String) (members : List (String × Json)) : Json :=
  tagged .collection [("literal", .object (("form", .string form) :: members))]

mutual

/-- The record of an expression. -/
def toJson : Expr → Json
  | .literal value => tagged .literal [("value", value.toJson)]
  | .var name => tagged .var [("name", .string name)]
  | .postState name => tagged .postState [("name", .string name)]
  | .binary op left right =>
    tagged .binary [("left", toJson left), ("op", .string op.symbol), ("right", toJson right)]
  | .unary op operand => tagged .unary [("op", .string op.symbol), ("operand", toJson operand)]
  | .field scope name => tagged .field [("scope", toJson scope), ("field", .string name)]
  | .index base position => tagged .index [("base", toJson base), ("index", toJson position)]
  | .call name args => tagged .call [("name", .string name), ("args", .array (toJsonAll args))]
  | .send receiver name args =>
    tagged .call
      [("scope", toJson receiver), ("name", .string name), ("args", .array (toJsonAll args))]
  | .create type args =>
    tagged .create [("type_name", .string type), ("args", .array (toJsonAll args))]
  | .set elements => collection "set" [("elements", .array (toJsonAll elements))]
  | .map entries => collection "map" [("entries", .array (toJsonEntries entries))]
  | .tuple elements => collection "tuple" [("elements", .array (toJsonAll elements))]
  | .conditional condition yes no =>
    tagged .conditional
      [("condition", toJson condition), ("then_expr", toJson yes), ("else_expr", toJson no)]
  | .cast type operand => tagged .cast [("type_name", .string type), ("expr", toJson operand)]
  | .self => tagged .self []

/-- The records of the elements. -/
def toJsonAll : List Expr → List Json
  | [] => []
  | e :: rest => toJson e :: toJsonAll rest

/-- The records of the entries. -/
def toJsonEntries : List (Expr × Expr) → List Json
  | [] => []
  | (key, value) :: rest =>
    .object [("key", toJson key), ("value", toJson value)] :: toJsonEntries rest

end

end Expr

/-! ## Reading -/

namespace Literal

/-- The literal of a scalar. -/
def ofJson? : Json → Option Literal
  | .null => some .null
  | .bool b => some (.boolean b)
  | .integer n =>
    if -Nat.pow 2 63 ≤ n ∧ n < Nat.pow 2 63 then some (.integer (Int64.ofInt n))
    else some (.float (wide n))
  | .double x => some (.float x)
  | .string s => some (.string s)
  | .array _ => none
  | .object _ => none
where
  /-- An integer beyond 64 bits, as the nearest double. -/
  wide (n : Int) : Double :=
    if n < 0 then (Double.ofNat n.natAbs).negated else Double.ofNat n.natAbs

end Literal

def BinaryOp.ofJson? (nested : Bool) (j : Json) : Option BinaryOp := do
  ofSymbol? (← j.variant? nested)

def UnaryOp.ofJson? (nested : Bool) (j : Json) : Option UnaryOp := do
  ofSymbol? (← j.variant? nested)

namespace Expr

/-- The fields of each kind of record. -/
def fieldNames : Kind → List String
  | .literal => ["value"]
  | .var => ["name"]
  | .postState => ["name"]
  | .binary => ["left", "op", "right"]
  | .unary => ["op", "operand"]
  | .field => ["scope", "field"]
  | .index => ["base", "index"]
  | .call => ["scope", "name", "args"]
  | .create => ["type_name", "args"]
  | .collection => ["literal"]
  | .conditional => ["condition", "then_expr", "else_expr"]
  | .cast => ["type_name", "expr"]
  | .self => []

def Kind.ofName? (name : String) : Option Kind := Kind.all.find? (·.name == name)

section

variable (decode : Json → Option Expr)

/-- The key and value of an entry of a map literal. -/
def entryOf? (j : Json) : Option (Expr × Expr) := do
  match ← j.record? ["key", "value"] with
  | [some key, some value] => return (← decode key, ← decode value)
  | _ => none

/-- A collection literal, given how its elements are read. -/
def collectionOf? (j : Json) : Option Expr := do
  let (form, record) ← j.untag? "form" ["set", "map", "tuple"] true
  match form with
  | "map" =>
    match ← record.record? ["entries"] with
    | [some entries] => return .map (← entries.list? (entryOf? decode))
    | _ => none
  | form =>
    match ← record.record? ["elements"] with
    | [some elements] =>
      let elements ← elements.list? decode
      return if form == "set" then .set elements else .tuple elements
    | _ => none

/-- The expression of a kind with the given fields, given how its parts are read. -/
def ofFields? (kind : Kind) (fields : List (Option Json)) : Option Expr := do
  match kind, fields with
  | .literal, [some value] => return .literal (← Literal.ofJson? value)
  | .var, [some name] => return .var (← name.string?)
  | .postState, [some name] => return .postState (← name.string?)
  | .binary, [some left, some op, some right] =>
    return .binary (← BinaryOp.ofJson? true op) (← decode left) (← decode right)
  | .unary, [some op, some operand] =>
    return .unary (← UnaryOp.ofJson? true op) (← decode operand)
  | .field, [some scope, some name] => return .field (← decode scope) (← name.string?)
  | .index, [some base, some position] => return .index (← decode base) (← decode position)
  | .call, [scope, some name, args] =>
    let name ← name.string?
    let args ← Json.field? (Json.list? decode) [] args
    match ← Json.field? (Json.nullable? decode) none scope with
    | none => return .call name args
    | some receiver => return .send receiver name args
  | .create, [some type, args] =>
    return .create (← type.string?) (← Json.field? (Json.list? decode) [] args)
  | .collection, [some record] => collectionOf? decode record
  | .conditional, [some condition, some yes, some no] =>
    return .conditional (← decode condition) (← decode yes) (← decode no)
  | .cast, [some type, some operand] => return .cast (← type.string?) (← decode operand)
  | .self, _ => return .self
  | _, _ => none

end

/-- The expression of a record that is at most `depth` deep. `nested` says whether the record is part
of another tagged record. -/
def ofJsonWithin? : Nat → Bool → Json → Option Expr
  | 0, _, _ => none
  | depth + 1, nested, j => do
    let (name, record) ← j.untag? "kind" (Kind.all.map Kind.name) nested
    let kind ← Kind.ofName? name
    match kind, record with
    | .self, .object _ => return .self
    | kind, record =>
      ofFields? (ofJsonWithin? depth true) kind (← record.record? (fieldNames kind))

/-- The expression of a record. -/
def ofJson? (nested : Bool) (j : Json) : Option Expr := ofJsonWithin? j.depth nested j

end Expr

end ContractTests
