import ContractTests.Expr.PostState
import ContractTests.JavaType

/-! # Contracts

The contract of a function: its signature, and the conditions before and after a call. Conditions are
given as lists of clauses; `Contract.ofClauses` joins them and brings them into normal form.
-/

set_option autoImplicit false

namespace ContractTests

structure Parameter where
  name : String
  type : String
deriving DecidableEq, Repr

def Parameter.category (p : Parameter) : TypeCategory := JavaType.category p.type

/-- The name, parameters and return type of a function under test. -/
structure Signature where
  name : String
  parameters : List Parameter
  returnType : String
deriving DecidableEq, Repr

namespace Signature

/-- The first parameter of that name. -/
def parameter? (s : Signature) (name : String) : Option Parameter :=
  s.parameters.find? (·.name == name)

def parameterNames (s : Signature) : List String := s.parameters.map (·.name)

def returnsVoid (s : Signature) : Bool := JavaType.isVoid s.returnType

end Signature

/-- A function's name in the table, its signature, and its conditions. -/
structure Contract where
  name : String
  signature : Signature
  precondition : Option Expr
  postcondition : Option Expr
deriving Repr

namespace Contract

/-- The contract with its conditions in normal form. -/
def ofConditions (name : String) (signature : Signature) (pre post : Option Expr) : Contract where
  name := name
  signature := signature
  precondition := pre.map Expr.normalForm
  postcondition := post.map Expr.normalForm

/-- The contract whose conditions are the conjunctions of the clauses. -/
def ofClauses (name : String) (signature : Signature) (requires ensures : List Expr) : Contract :=
  ofConditions name signature (Expr.conjunction? requires) (Expr.conjunction? ensures)

def parameters (c : Contract) : List Parameter := c.signature.parameters

end Contract

end ContractTests
