/-! # Fresh names

`fresh taken name` is the first of `name 0`, `name 1`, … that is not taken. One more name than are
taken is enough to look at when the names differ.
-/

set_option autoImplicit false

namespace ContractTests.Text

/-- The first name of a sequence that is not taken. -/
def fresh (taken : List String) (name : Nat → String) : String :=
  (((List.range (taken.length + 1)).map name).find? (!taken.contains ·)).getD (name 0)

end ContractTests.Text
