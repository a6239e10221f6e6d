import ContractTests.JavaType
import ContractTests.TestClass.Basic
import ContractTests.Text.Blank

/-! # Symbolic form of a test class

For symbolic execution an input becomes a declaration whose value is made symbolic by a call of
`Debug`, and an assumption becomes a call of `Debug.assume`. All else stays as it is, and `Debug` is
imported unless the class imports something of that name.
-/

set_option autoImplicit false

namespace ContractTests

/-- A call of a function of `Debug`. -/
def debugCall (name : String) (args : List Expr) : Expr := .send (.var "Debug") name args

/-- The function of `Debug` that makes a symbolic value of a scalar type or a string. -/
def symbolicFunction? : String → Option String
  | "int" | "Integer" => some "makeSymbolicInteger"
  | "long" | "Long" => some "makeSymbolicLong"
  | "short" | "Short" => some "makeSymbolicShort"
  | "byte" | "Byte" => some "makeSymbolicByte"
  | "char" | "Character" => some "makeSymbolicChar"
  | "double" | "Double" => some "makeSymbolicReal"
  | "String" | "java.lang.String" => some "makeSymbolicString"
  | _ => none

/-- The object that a symbolic reference starts from: an empty collection, or null. -/
def symbolicSeed (type : String) : Expr :=
  match JavaType.category type with
  | .collection => .create (JavaType.implementation (JavaType.base type) ++ "<>") []
  | .primitive => .null
  | .reference => .null

/-- A fresh symbolic value of a type, labelled with the name of the variable that it is for. -/
def symbolicValue (type name : String) : Expr :=
  let bare := Text.trimmed type
  let label := Expr.string name
  match symbolicFunction? bare with
  | some function => debugCall function [label]
  | none =>
    if bare == "float" || bare == "Float" then
      .cast "float" (debugCall "makeSymbolicReal" [label])
    else if bare == "boolean" || bare == "Boolean" then
      .binary .notEqual (debugCall "makeSymbolicInteger" [label]) (.int 0)
    else .cast bare (debugCall "makeSymbolicRef" [label, symbolicSeed type])

namespace Stmt

mutual

/-- The symbolic form of a statement. -/
def symbolic : Stmt → Stmt
  | .input type name => .declare type name (symbolicValue type name)
  | .assume condition => .perform (debugCall "assume" [condition])
  | .whenever condition body returns => .whenever condition (symbolicAll body) returns
  | .declare type name init => .declare type name init
  | .assign target value => .assign target value
  | .assert condition => .assert condition
  | .perform call => .perform call

/-- The symbolic forms of the statements of a block. -/
def symbolicAll : List Stmt → List Stmt
  | [] => []
  | s :: rest => symbolic s :: symbolicAll rest

end

end Stmt

namespace TestClass

/-- The import of `Debug`. -/
def debugImport : String := "gov.nasa.jpf.symbc.Debug"

/-- Whether an import provides the name `Debug`. -/
def providesDebug (name : String) : Bool :=
  name == debugImport || ".Debug".toList.isSuffixOf name.toList

/-- The symbolic form of a test class. -/
def symbolic (c : TestClass) : TestClass where
  package := c.package
  name := c.name
  imports := if c.imports.any providesDebug then c.imports else c.imports ++ [debugImport]
  methods := c.methods.map fun m => { m with body := Stmt.symbolicAll m.body }
  main := Stmt.symbolicAll c.main

end TestClass

end ContractTests
