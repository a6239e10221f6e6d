import ContractTests.Java.Class
import ContractTests.Search.Documents
import ContractTests.TestClass.Json
import ContractTests.TestClass.Symbolic

/-! # Artifacts

Everything that is generated for a test class: its source as it is and in symbolic form, the search
documents and, if it is wanted, the class itself as JSON.
-/

set_option autoImplicit false

namespace ContractTests

structure Artifacts where
  package : String
  className : String
  baseline : String
  symbolic : String
  /-- The search documents by file name. -/
  documents : List (String × Properties)
  /-- The class as JSON. -/
  json : Option String

/-- Why the artifacts could not be generated. -/
inductive GenerationError where
  | unsupported (cause : Unsupported)
  | signature (cause : Java.SignatureError)
deriving DecidableEq, Repr

def GenerationError.message : GenerationError → String
  | .unsupported cause => cause.message
  | .signature cause => cause.message

/-- The artifacts of a test class. -/
def TestClass.artifacts (c : TestClass) (settings : SearchSettings) (withJson : Bool) :
    Except GenerationError Artifacts := do
  let baseline ← c.render.mapError .unsupported
  let symbolic ← c.symbolic.render.mapError .unsupported
  let documents ← (settings.documents c.symbolic symbolic).mapError .signature
  return {
    package := c.package
    className := c.name
    baseline := baseline
    symbolic := symbolic
    documents := documents
    json := if withJson then some c.save else none }

end ContractTests
