import ContractTests.Contract.CallSequence
import ContractTests.Contract.Table
import ContractTests.TestClass.Method

/-! # The test class of a call sequence

`TestClass.build` makes one test method for every function of a call sequence and a main method that
replays the sequence on an instance of the class. When a condition calls a function without a
receiver, the members of the target class are imported.
-/

set_option autoImplicit false

namespace ContractTests.TestClass

/-- The test methods of the named functions. -/
def methodsFor (options : ClassOptions) (table : ContractTable) :
    List String → Except BuildError (List TestMethod)
  | [] => .ok []
  | name :: rest =>
    match table.get? name with
    | some contract => do
      let method ← contract.testMethod options
      let methods ← methodsFor options table rest
      return method :: methods
    | none =>
      match options.unmatchedCalls with
      | .error => .error (.unmatched name)
      | .skip => methodsFor options table rest

/-- Whether an assumption or assertion of the method calls a function without a receiver. -/
def hasBareCall (m : TestMethod) : Bool :=
  (m.statements.filterMap Stmt.checked?).any fun condition => condition.subterms.any Expr.isBareCall

/-- The import of the members of the target class. -/
def staticImport (options : ClassOptions) : String :=
  "static " ++ options.package ++ "." ++ options.targetClass ++ ".*"

/-- The configured imports without repetitions, and that of the target class if it is needed. -/
def importsFor (options : ClassOptions) (methods : List TestMethod) : List String :=
  (options.imports ++ if methods.any hasBareCall then [staticImport options] else []).eraseDups

/-- The variable of the main method that holds an instance of the class. -/
def instanceName : String := "instance"

/-- An instance of the class, and a call of a test method for every call that has a contract. -/
def mainFor (options : ClassOptions) (table : ContractTable) (calls : CallSequence) : List Stmt :=
  .declare options.className instanceName (.create options.className []) ::
    (calls.filter table.contains).map fun name =>
      .perform (.send (.var instanceName) (TestMethod.nameFor name) [])

/-- The test class for a call sequence. -/
def build (options : ClassOptions) (table : ContractTable) (calls : CallSequence) :
    Except BuildError TestClass := do
  let methods ← methodsFor options table (CallSequence.distinct calls)
  return {
    package := options.package
    name := options.className
    imports := importsFor options methods
    methods := methods
    main := mainFor options table calls }

end ContractTests.TestClass
