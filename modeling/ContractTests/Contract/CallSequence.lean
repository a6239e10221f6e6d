import ContractTests.Text.Affix
import ContractTests.Text.Blank

/-! # Call sequences

The functions to exercise, in order and with repetitions.
-/

set_option autoImplicit false

namespace ContractTests

/-- Function names in the order of their calls. -/
abbrev CallSequence := List String

namespace CallSequence

/-- The names in a text, separated by commas and white space. -/
def parse (text : String) : CallSequence :=
  ((Text.splitOn (fun c => c == ',' || Text.isBlank c) text.toList).filter (!·.isEmpty)).map
    String.ofList

/-- The names without repetitions, in the order of first occurrence. -/
def distinct (calls : CallSequence) : List String := calls.eraseDups

/-- The names in a list of values that may be blank or have white space around them. -/
def ofValues (values : List String) : CallSequence :=
  (values.map Text.trimmed).filter (· != "")

end CallSequence

end ContractTests
