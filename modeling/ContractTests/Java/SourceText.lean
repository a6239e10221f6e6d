/-! # Source text

A text under construction, line by line, with an indentation level. An empty line carries no
indentation.
-/

set_option autoImplicit false

namespace ContractTests

/-- The lines written so far, and the level of the next one. -/
structure SourceText where
  lines : List String
  level : Nat
deriving DecidableEq, Repr

namespace SourceText

def empty : SourceText := ⟨[], 0⟩

/-- The indentation of a level: four spaces each. -/
def indentation (level : Nat) : String := String.ofList (List.replicate (4 * level) ' ')

/-- Add a line at the current level. -/
def line (t : SourceText) (text : String) : SourceText :=
  { t with lines := t.lines ++ [if text == "" then "" else indentation t.level ++ text] }

/-- Add an empty line. -/
def blank (t : SourceText) : SourceText := { t with lines := t.lines ++ [""] }

/-- Write the next lines one level deeper. -/
def indent (t : SourceText) : SourceText := { t with level := t.level + 1 }

/-- Write the next lines one level less deep, at the least at level zero. -/
def dedent (t : SourceText) : SourceText := { t with level := t.level - 1 }

/-- The lines joined, with a line break at the end. -/
def text (t : SourceText) : String := String.intercalate "\n" t.lines ++ "\n"

end SourceText

end ContractTests
