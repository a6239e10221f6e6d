import ContractTests.Expr.Basic

/-! # Statements of a test

The statements of a test method, before they are given a concrete form. Blocks nest through `whenever`.
-/

set_option autoImplicit false

namespace ContractTests

/-- A statement. -/
inductive Stmt where
  /-- An input whose value is not constrained. -/
  | input (type name : String)
  /-- A local variable with its first value. -/
  | declare (type name : String) (init : Expr)
  | assign (target : String) (value : Expr)
  | assume (condition : Expr)
  | assert (condition : Expr)
  /-- A call whose value is not used. -/
  | perform (call : Expr)
  /-- A block run when the condition holds; if `returns`, the method ends with the block. -/
  | whenever (condition : Expr) (body : List Stmt) (returns : Bool)
deriving Repr, Inhabited

namespace Stmt

mutual

/-- The statement and then all statements nested in it. -/
def nested : Stmt → List Stmt
  | .whenever condition body returns => .whenever condition body returns :: nestedAll body
  | .input type name => [.input type name]
  | .declare type name init => [.declare type name init]
  | .assign target value => [.assign target value]
  | .assume condition => [.assume condition]
  | .assert condition => [.assert condition]
  | .perform call => [.perform call]

/-- The statements of a block with all nested ones. -/
def nestedAll : List Stmt → List Stmt
  | [] => []
  | s :: rest => nested s ++ nestedAll rest

end

/-- The name that a statement itself declares. -/
def declared? : Stmt → Option String
  | .input _ name => some name
  | .declare _ name _ => some name
  | _ => none

/-- The condition of an assumption or assertion. -/
def checked? : Stmt → Option Expr
  | .assume condition => some condition
  | .assert condition => some condition
  | _ => none

end Stmt

end ContractTests
