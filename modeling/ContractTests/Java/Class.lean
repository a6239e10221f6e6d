import ContractTests.Java.Statement
import ContractTests.TestClass.Basic
import ContractTests.TestClass.Sharing

/-! # Test classes in Java

`TestClass.render` writes a test class as a compilation unit: package, imports, one annotated method
for every test method with its repeated calls shared, and the main method.
-/

set_option autoImplicit false

namespace ContractTests.TestClass

/-- The source text with a test method. -/
def renderMethod (out : SourceText) (m : TestMethod) : Except Unsupported SourceText := do
  let body ← Stmt.shareCalls m.body
  let out := ((out.line "@Test").line ("public void " ++ m.name ++ "() \x7b")).indent
  let out ← Stmt.renderAll out body
  return out.dedent.line "\x7d"

/-- The source text with all test methods, an empty line before each. -/
def renderMethods (out : SourceText) : List TestMethod → Except Unsupported SourceText
  | [] => .ok out
  | m :: rest => do
    let out ← renderMethod out.blank m
    renderMethods out rest

/-- The package and the imports. -/
def renderHead (c : TestClass) : SourceText :=
  let out := SourceText.empty
  let out := if c.package == "" then out else (out.line ("package " ++ c.package ++ ";")).blank
  let out := c.imports.foldl (fun out name => out.line ("import " ++ name ++ ";")) out
  if c.imports.isEmpty then out else out.blank

/-- The Java source of the class. -/
def render (c : TestClass) : Except Unsupported String := do
  let out := ((renderHead c).line ("public class " ++ c.name ++ " \x7b")).indent
  let out ← renderMethods out c.methods
  let out := (out.blank.line "public static void main(String[] args) \x7b").indent
  let out ← Stmt.renderAll out c.main
  return ((out.dedent.line "\x7d").dedent.line "\x7d").text

end ContractTests.TestClass
