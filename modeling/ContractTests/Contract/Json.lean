import ContractTests.Contract.CallSequence
import ContractTests.Contract.Table
import ContractTests.Expr.Json
import ContractTests.Json.Printer
import ContractTests.Json.Reader

/-! # Contracts as JSON

The exchange format of contracts and tables. A contract is written with its clauses as lists, and with
a name of its own only if that differs from the function's name; what is not written takes its default
when read. Reading a table fails on two contracts of one name. The shapes name the fields of the records;
in the text of a table all other members are skipped, whatever they hold.
-/

set_option autoImplicit false

namespace ContractTests

namespace Parameter

def shape : Json.Shape := .record [("name", .all), ("type", .all)]

def toJson (p : Parameter) : Json :=
  .object [("name", .string p.name), ("type", .string p.type)]

def ofJson? (j : Json) : Option Parameter := do
  match ← j.record? ["name", "type"] with
  | [some name, some type] => return ⟨← name.string?, ← type.string?⟩
  | _ => none

end Parameter

namespace Signature

def shape : Json.Shape :=
  .record [("name", .all), ("parameters", .list Parameter.shape), ("return_type", .all)]

def toJson (s : Signature) : Json :=
  .object
    [("name", .string s.name), ("parameters", .array (s.parameters.map Parameter.toJson)),
     ("return_type", .string s.returnType)]

def ofJson? (j : Json) : Option Signature := do
  match ← j.record? ["name", "parameters", "return_type"] with
  | [some name, parameters, returnType] =>
    return {
      name := ← name.string?
      parameters := ← Json.field? (Json.list? Parameter.ofJson?) [] parameters
      returnType := ← Json.field? Json.string? "void" returnType }
  | _ => none

end Signature

namespace Contract

def shape : Json.Shape :=
  .record
    [("name", .all), ("signature", Signature.shape), ("requires", .all), ("ensures", .all)]

/-- A list of clauses, left out when it is empty. -/
def clausesMember (name : String) (clauses : List Expr) : List (String × Json) :=
  if clauses.isEmpty then [] else [(name, .array (clauses.map Expr.toJson))]

def toJson (c : Contract) : Json :=
  .object
    ((if c.name == c.signature.name then [] else [("name", .string c.name)]) ++
      [("signature", c.signature.toJson)] ++
      clausesMember "requires" c.precondition.toList ++
      clausesMember "ensures" c.postcondition.toList)

def ofJson? (j : Json) : Option Contract := do
  match ← j.record? ["name", "signature", "requires", "ensures"] with
  | [name, some signature, requires, ensures] =>
    let name ← Json.field? (Json.nullable? Json.string?) none name
    let signature ← Signature.ofJson? signature
    let requires ← Json.field? (Json.list? (Expr.ofJson? false)) [] requires
    let ensures ← Json.field? (Json.list? (Expr.ofJson? false)) [] ensures
    return ofClauses (name.getD signature.name) signature requires ensures
  | _ => none

end Contract

namespace ContractTable

/-- Why no table was read. -/
inductive LoadError where
  /-- The text is no JSON, or not that of a table. -/
  | malformed
  | duplicate (cause : Duplicate)
deriving DecidableEq, Repr

def toJson (t : ContractTable) : Json :=
  .object [("functions", .array (t.contracts.map Contract.toJson))]

/-- The contracts of a table, whose names may repeat. -/
def contractsOf? (j : Json) : Option (List Contract) := do
  match ← j.record? ["functions"] with
  | [some functions] => functions.list? Contract.ofJson?
  | _ => none

def ofJson (j : Json) : Except LoadError ContractTable :=
  match contractsOf? j with
  | none => .error .malformed
  | some contracts => (ofList contracts).mapError .duplicate

def shape : Json.Shape := .record [("functions", .list Contract.shape)]

/-- The text of a table. -/
def save (t : ContractTable) : String := t.toJson.pretty

/-- The table of a text. A repeated name is reported before anything that follows the table. -/
def load (text : String) : Except LoadError ContractTable :=
  match Json.readFirst? shape text with
  | none => .error .malformed
  | some (j, complete) => do
    let table ← ofJson j
    if complete then return table else throw .malformed

end ContractTable

namespace CallSequence

def ofJson? (j : Json) : Option CallSequence := j.list? Json.string?

end CallSequence

end ContractTests
