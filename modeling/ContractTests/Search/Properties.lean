/-! # Property documents

A document of `key = value` lines with comments and empty lines. A key may be given more than once; the
last value counts.
-/

set_option autoImplicit false

namespace ContractTests

/-- A line of a property document. -/
inductive PropertyLine where
  | comment (text : String)
  | entry (key value : String)
  | blank
deriving DecidableEq, Repr

namespace PropertyLine

def text : PropertyLine → String
  | .comment text => "# " ++ text
  | .entry key value => key ++ " = " ++ value
  | .blank => ""

def key? : PropertyLine → Option String
  | .entry key _ => some key
  | _ => none

/-- The value, if the line is an entry of that key. -/
def valueOf? (key : String) : PropertyLine → Option String
  | .entry other value => if other == key then some value else none
  | _ => none

end PropertyLine

/-- The lines of a document. -/
abbrev Properties := List PropertyLine

namespace Properties

/-- The text of a document, every line with its line break. -/
def text (d : Properties) : String := String.join (d.map fun line => line.text ++ "\n")

/-- The value of the last entry of a key. -/
def get? (d : Properties) (key : String) : Option String :=
  d.reverse.findSome? (PropertyLine.valueOf? key)

/-- The keys of the entries in order. -/
def keys (d : Properties) : List String := d.filterMap PropertyLine.key?

end Properties

end ContractTests
