import ContractTests.Java.Expression
import ContractTests.Java.SourceText
import ContractTests.Stmt

/-! # Statements in Java

`Stmt.render` adds the lines of a statement to a source text. The body of a block stands one level
deeper than its head.
-/

set_option autoImplicit false

namespace ContractTests.Stmt

/-- The line that reads an input. A scalar needs no cast. -/
def inputLine (type name : String) : String :=
  if JavaType.category type == .primitive then
    type ++ " " ++ name ++ " = Symbolic.input(\"" ++ name ++ "\");"
  else type ++ " " ++ name ++ " = (" ++ type ++ ") Symbolic.input(\"" ++ name ++ "\");"

mutual

/-- The source text with the lines of the statement. -/
def render (out : SourceText) : Stmt → Except Unsupported SourceText
  | .input type name => .ok (out.line (inputLine type name))
  | .declare type name init => do
    let text ← init.render
    return out.line (type ++ " " ++ name ++ " = " ++ text ++ ";")
  | .assign target value => do
    let text ← value.render
    return out.line (target ++ " = " ++ text ++ ";")
  | .assume condition => do
    let text ← condition.render
    return out.line ("assume(" ++ text ++ ");")
  | .assert condition => do
    let text ← condition.render
    return out.line ("assert(" ++ text ++ ");")
  | .perform call => do
    let text ← call.render
    return out.line (text ++ ";")
  | .whenever condition body returns => do
    let text ← condition.renderBare
    let out ← renderAll (out.line ("if (" ++ text ++ ") \x7b")).indent body
    let out := if returns then out.line "return;" else out
    return out.dedent.line "\x7d"

/-- The source text with the lines of all the statements. -/
def renderAll (out : SourceText) : List Stmt → Except Unsupported SourceText
  | [] => .ok out
  | s :: rest => do
    let out ← render out s
    renderAll out rest

end

end ContractTests.Stmt
