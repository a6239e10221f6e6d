import ContractTests.Expr.Json
import ContractTests.Json.Printer
import ContractTests.Json.Shape
import ContractTests.TestClass.Basic
import ContractTests.TestClass.Options

/-! # Test classes as JSON

A statement is a record tagged by `stmt`. Test methods, test classes and the options of a class are
plain records; of the options only those that differ from their defaults have to be given.
-/

set_option autoImplicit false

namespace ContractTests

namespace Stmt

/-! ## Statements -/

/-- The fields of each variant of the record. -/
def variants : List (String × List String) :=
  [("symbolic_input", ["type_name", "name"]), ("var_decl", ["type_name", "name", "init"]),
   ("assign", ["target", "value"]), ("assume", ["condition"]), ("assert", ["condition"]),
   ("method_call", ["call"]), ("if", ["condition", "then_branch", "early_return"])]

/-- A record tagged by its variant. -/
def tagged (variant : String) (members : List (String × Json)) : Json :=
  .object (("stmt", .string variant) :: members)

mutual

/-- The record of a statement. -/
def toJson : Stmt → Json
  | .input type name =>
    tagged "symbolic_input" [("type_name", .string type), ("name", .string name)]
  | .declare type name init =>
    tagged "var_decl" [("type_name", .string type), ("name", .string name), ("init", init.toJson)]
  | .assign target value => tagged "assign" [("target", .string target), ("value", value.toJson)]
  | .assume condition => tagged "assume" [("condition", condition.toJson)]
  | .assert condition => tagged "assert" [("condition", condition.toJson)]
  | .perform call => tagged "method_call" [("call", call.toJson)]
  | .whenever condition body returns =>
    tagged "if"
      [("condition", condition.toJson), ("then_branch", .array (toJsonAll body)),
       ("early_return", .bool returns)]

/-- The records of the statements. -/
def toJsonAll : List Stmt → List Json
  | [] => []
  | s :: rest => toJson s :: toJsonAll rest

end

/-- The statement of a variant with the given fields, given how the statements of a block are
read. -/
def ofFields? (decode : Json → Option Stmt) (variant : String) (fields : List (Option Json)) :
    Option Stmt := do
  match variant, fields with
  | "symbolic_input", [some type, some name] =>
    return .input (← type.string?) (← name.string?)
  | "var_decl", [some type, some name, some init] =>
    return .declare (← type.string?) (← name.string?) (← Expr.ofJson? true init)
  | "assign", [some target, some value] =>
    return .assign (← target.string?) (← Expr.ofJson? true value)
  | "assume", [some condition] => return .assume (← Expr.ofJson? true condition)
  | "assert", [some condition] => return .assert (← Expr.ofJson? true condition)
  | "method_call", [some performed] => return .perform (← Expr.ofJson? true performed)
  | "if", [some condition, some body, some returns] =>
    return .whenever (← Expr.ofJson? true condition) (← body.list? decode) (← returns.bool?)
  | _, _ => none

/-- The statement of a record that is at most `depth` deep. -/
def ofJsonWithin? : Nat → Bool → Json → Option Stmt
  | 0, _, _ => none
  | depth + 1, nested, j => do
    let (variant, record) ← j.untag? "stmt" (variants.map (·.1)) nested
    let names ← variants.lookup variant
    ofFields? (ofJsonWithin? depth true) variant (← record.record? names)

/-- The statement of a record. -/
def ofJson? (j : Json) : Option Stmt := ofJsonWithin? j.depth false j

end Stmt

/-! ## Methods and classes -/

namespace TestMethod

def toJson (m : TestMethod) : Json :=
  .object [("name", .string m.name), ("statements", .array (Stmt.toJsonAll m.body))]

def ofJson? (j : Json) : Option TestMethod := do
  match ← j.record? ["name", "statements"] with
  | [some name, some body] => return ⟨← name.string?, ← body.list? Stmt.ofJson?⟩
  | _ => none

end TestMethod

namespace TestClass

def toJson (c : TestClass) : Json :=
  .object
    [("namespace", .string c.package), ("name", .string c.name),
     ("imports", .array (c.imports.map Json.string)),
     ("helpers", .array (c.methods.map TestMethod.toJson)),
     ("entrypoint", .array (Stmt.toJsonAll c.main))]

def ofJson? (j : Json) : Option TestClass := do
  match ← j.record? ["namespace", "name", "imports", "helpers", "entrypoint"] with
  | [some package, some name, some imports, some methods, some main] =>
    return {
      package := ← package.string?
      name := ← name.string?
      imports := ← imports.list? Json.string?
      methods := ← methods.list? TestMethod.ofJson?
      main := ← main.list? Stmt.ofJson? }
  | _ => none

/-- The text of a class. -/
def save (c : TestClass) : String := c.toJson.pretty

end TestClass

/-! ## Options -/

namespace ClassOptions

def shape : Json.Shape :=
  .record
    [("namespace", .all), ("unit_name", .all), ("target_class", .all), ("imports", .all),
     ("unmatched_calls", .choice), ("echo_inputs", .all)]

def toJson (o : ClassOptions) : Json :=
  .object
    [("namespace", .string o.package), ("unit_name", .string o.className),
     ("target_class", .string o.targetClass), ("imports", .array (o.imports.map Json.string)),
     ("unmatched_calls", .string o.unmatchedCalls.name), ("echo_inputs", .bool o.echoInputs)]

/-- The options of a record whose fields all have defaults. -/
def ofJson? (j : Json) : Option ClassOptions := do
  let default : ClassOptions := {}
  let unmatched? (j : Json) : Option UnmatchedCalls := do
    UnmatchedCalls.ofName? (← j.variant? false)
  match ← j.record?
      ["namespace", "unit_name", "target_class", "imports", "unmatched_calls", "echo_inputs"] with
  | [package, className, targetClass, imports, unmatchedCalls, echoInputs] =>
    return {
      package := ← Json.field? Json.string? default.package package
      className := ← Json.field? Json.string? default.className className
      targetClass := ← Json.field? Json.string? default.targetClass targetClass
      imports := ← Json.field? (Json.list? Json.string?) default.imports imports
      unmatchedCalls := ← Json.field? unmatched? default.unmatchedCalls unmatchedCalls
      echoInputs := ← Json.field? Json.bool? default.echoInputs echoInputs }
  | _ => none

end ClassOptions

end ContractTests
