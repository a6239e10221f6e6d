import ContractTests.Json.Tree

/-! # Reading JSON

`Json.read?` reads a whole text as one value. `Json.readFirst?` reads those parts of the value at the
start of a text that a shape asks for, and says whether the text ends with it.
-/

set_option autoImplicit false

namespace ContractTests.Json

/-- The value at the start of a text as far as `shape` reads it, and whether nothing but white space
follows it. -/
def readFirst? (shape : Shape) (s : String) : Option (Json × Bool) := do
  let tokens := Token.scan s.toList
  let (t, rest) ← Tree.ofTokens? (2 * tokens.length) tokens
  return (← t.value? shape, rest.isEmpty)

/-- The value that a text holds. -/
def read? (s : String) : Option Json :=
  match readFirst? .all s with
  | some (j, true) => some j
  | _ => none

end ContractTests.Json
