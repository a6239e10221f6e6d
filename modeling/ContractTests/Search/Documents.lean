import ContractTests.Decimal.Notation
import ContractTests.Java.Declaration
import ContractTests.Search.Properties
import ContractTests.Search.Settings
import ContractTests.TestClass.Basic

/-! # Search documents

The property documents that drive the symbolic search: one for the whole program, and one for every
test method, which names the method by the signature that its source declares.
-/

set_option autoImplicit false

namespace ContractTests

/-- The value of a property that is on or off. -/
def boolText (b : Bool) : String := if b then "true" else "false"

namespace SearchSettings

/-- What all documents start with. -/
def headLines (s : SearchSettings) (target : String) : Properties :=
  [.entry "@using" "jpf-symbc", .blank,
   .comment "Target class", .entry "target" target, .blank,
   .comment "Compiled classes", .entry "classpath" s.classpath, .blank,
   .comment "Source code", .entry "sourcepath" s.sourcepath, .blank,
   .comment "Symbolic execution engine", .entry "vm.insn_factory.class" s.instructionFactory,
   .entry "symbolic.dp" s.solver, .entry "symbolic.string_dp" (boolText s.stringSolving),
   .entry "symbolic.arrays" (boolText s.symbolicArrays), .blank]

/-- The ranges of integers and the bounds of the search. -/
def boundLines (s : SearchSettings) (bounds : SearchBounds) : Properties :=
  [.comment "Integer ranges", .entry "symbolic.minint" (intText s.minInt.toInt),
   .entry "symbolic.maxint" (intText s.maxInt.toInt),
   .entry "symbolic.undefined" (intText s.undefinedInt.toInt), .blank,
   .comment "Search bounds", .entry "search.depth_limit" (natText bounds.depthLimit.toNat),
   .entry "search.time_limit" (natText bounds.timeLimit.toNat),
   .entry "search.multiple_errors" (boolText s.multipleErrors),
   .entry "search.class" s.searchClass, .blank]

/-- What follows the last dot of a qualified name. -/
def simpleName (name : String) : String :=
  String.ofList ((name.toList.reverse.takeWhile (· != '.')).reverse)

/-- The document of the search of one method of the class `target`. -/
def methodDocument (s : SearchSettings) (target signature : String) : Properties :=
  s.headLines target ++
    [.comment "Symbolic entry point", .entry "symbolic.method" (target ++ "." ++ signature),
     .blank] ++
    s.boundLines s.methodBounds ++
    [.comment "Test input extraction and coverage",
     .entry "listener" (String.intercalate "," s.listeners), .blank,
     .entry "coverage.include" ("*." ++ simpleName target), .entry "coverage.show_methods" "true",
     .entry "coverage.show_bodies" "true"]

/-- The document of the search of the whole program. -/
def programDocument (s : SearchSettings) (target : String) : Properties :=
  s.headLines target ++ s.boundLines s.programBounds ++
    [.comment "Path conditions and results",
     .entry "jpf.report.console.finished" s.programReport, .blank, .entry "vm.output" "true"]

/-- The file name of a document. -/
def fileName (className part : String) : String := className ++ "_" ++ part ++ ".jpf"

/-- The documents of the test methods, by file name. -/
def methodDocuments (s : SearchSettings) (c : TestClass) (source : String) :
    List TestMethod → Except Java.SignatureError (List (String × Properties))
  | [] => .ok []
  | m :: rest => do
    let signature ← Java.signatureOf source m.name
    let others ← methodDocuments s c source rest
    return (fileName c.name m.name, s.methodDocument c.qualifiedName signature) :: others

/-- All documents of a test class by file name, that of the program first. Signatures are read from
`source`, the Java source of the class. -/
def documents (s : SearchSettings) (c : TestClass) (source : String) :
    Except Java.SignatureError (List (String × Properties)) := do
  let methods ← s.methodDocuments c source c.methods
  return (fileName c.name "main", s.programDocument c.qualifiedName) :: methods

end SearchSettings

end ContractTests
