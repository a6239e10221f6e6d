/-! # Options of a test class

What can be chosen about the generated test class, with the values it takes when nothing is chosen.
-/

set_option autoImplicit false

namespace ContractTests

/-- What to do with a call for which there is no contract. -/
inductive UnmatchedCalls where
  /-- Fail. -/
  | error
  /-- Leave the call out. -/
  | skip
deriving DecidableEq, Repr

namespace UnmatchedCalls

def name : UnmatchedCalls → String
  | .error => "error"
  | .skip => "skip"

def ofName? : String → Option UnmatchedCalls
  | "error" => some .error
  | "skip" => some .skip
  | _ => none

end UnmatchedCalls

structure ClassOptions where
  /-- The package of the test class. -/
  package : String := "atcgen.generated"
  /-- The name of the test class. -/
  className : String := "GeneratedATCs"
  /-- The class that holds the functions under test. -/
  targetClass : String := "Helper"
  imports : List String := ["org.junit.Test", "java.util.*"]
  unmatchedCalls : UnmatchedCalls := .error
  /-- Whether the inputs are printed before the call. -/
  echoInputs : Bool := false
deriving DecidableEq, Repr

end ContractTests
