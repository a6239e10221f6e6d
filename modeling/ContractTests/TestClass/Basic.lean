import ContractTests.Stmt

/-! # Test classes

A test class holds one test method for every function under test and a main method that calls them in
the order of the call sequence.
-/

set_option autoImplicit false

namespace ContractTests

structure TestMethod where
  name : String
  body : List Stmt
deriving Repr

namespace TestMethod

/-- The name of the test method for a function. -/
def nameFor (function : String) : String := function ++ "_helper"

/-- All statements of the method, nested ones included. -/
def statements (m : TestMethod) : List Stmt := Stmt.nestedAll m.body

end TestMethod

structure TestClass where
  package : String
  name : String
  imports : List String
  methods : List TestMethod
  main : List Stmt
deriving Repr

namespace TestClass

/-- A class without imports, methods and main statements. -/
def empty (package name : String) : TestClass := ⟨package, name, [], [], []⟩

/-- All statements of the class, in its methods and in the main method, nested ones included. -/
def statements (c : TestClass) : List Stmt :=
  c.methods.flatMap TestMethod.statements ++ Stmt.nestedAll c.main

/-- Whether the class imports `name`. -/
def hasImport (c : TestClass) (name : String) : Bool := c.imports.contains name

/-- The class with one more import, unless it has it already. -/
def addImport (c : TestClass) (name : String) : TestClass :=
  if c.hasImport name then c else { c with imports := c.imports ++ [name] }

/-- The method of that name. -/
def method? (c : TestClass) (name : String) : Option TestMethod :=
  c.methods.find? (·.name == name)

/-- The name of the class with its package. -/
def qualifiedName (c : TestClass) : String :=
  if c.package == "" then c.name else c.package ++ "." ++ c.name

end TestClass

end ContractTests
