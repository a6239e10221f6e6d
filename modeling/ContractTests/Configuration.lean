import ContractTests.Search.Settings
import ContractTests.TestClass.Json
import ContractTests.Toml.Reader

/-! # Configuration files

The options of the test class and the settings of the search, as a configuration file gives them in its
tables `atc` and `jpf`. In a file a record may also be an array that goes on after its last field, and the
choice for unmatched calls a table with one empty member.
-/

set_option autoImplicit false

namespace ContractTests

structure Configuration where
  options : ClassOptions := {}
  settings : SearchSettings := {}
deriving DecidableEq, Repr

namespace Configuration

def ofJson? (j : Json) : Option Configuration := do
  match ← j.record? ["atc", "jpf"] with
  | [options, settings] =>
    return {
      options := ← Json.field? ClassOptions.ofJson? {} options
      settings := ← Json.field? SearchSettings.ofJson? {} settings }
  | _ => none

def shape : Json.Shape :=
  .record [("atc", ClassOptions.shape), ("jpf", SearchSettings.shape)]

/-- The configuration of a text. -/
def ofToml? (text : String) : Option Configuration := do
  ofJson? ((← Toml.read? text).fitted shape)

/-- The files that are looked for when no configuration file is named, the first one first. -/
def defaultFiles : List String := ["atcgen.toml", ".atcgen.toml"]

end Configuration

end ContractTests
