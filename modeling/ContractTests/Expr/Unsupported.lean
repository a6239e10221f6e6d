import ContractTests.Expr.Basic

/-! # Unsupported expressions

The failure of a pass that meets a node it has no meaning for.
-/

set_option autoImplicit false

namespace ContractTests

/-- What was being done with an expression. -/
inductive Activity where
  | rendering
  | precondition
  | postcondition
deriving DecidableEq, Repr

def Activity.name : Activity → String
  | .rendering => "baseline rendering"
  | .precondition => "precondition transform"
  | .postcondition => "post-condition transform"

/-- A node of this kind has no meaning in this activity. -/
structure Unsupported where
  kind : Expr.Kind
  activity : Activity
deriving DecidableEq, Repr

def Unsupported.message (u : Unsupported) : String :=
  "Unsupported expression '" ++ u.kind.name ++ "' during " ++ u.activity.name

end ContractTests
