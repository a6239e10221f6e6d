import ContractTests.Json.Decode
import ContractTests.Json.Shape

/-! # Settings of a search

What can be chosen about the symbolic search, with the values it takes when nothing is chosen.
-/

set_option autoImplicit false

namespace ContractTests

/-- How far a search goes, in steps and in seconds. -/
structure SearchBounds where
  depthLimit : UInt32
  timeLimit : UInt32
deriving DecidableEq, Repr

def SearchBounds.shape : Json.Shape := .record [("depth_limit", .all), ("time_limit", .all)]

def SearchBounds.ofJson? (j : Json) : Option SearchBounds := do
  match ← j.record? ["depth_limit", "time_limit"] with
  | [some depth, some time] => return ⟨← depth.uint32?, ← time.uint32?⟩
  | _ => none

structure SearchSettings where
  classpath : String := "./bin"
  sourcepath : String := "$\x7bjpf-symbc\x7d/src/examples"
  instructionFactory : String := "gov.nasa.jpf.symbc.SymbolicInstructionFactory"
  /-- The constraint solver. -/
  solver : String := "z3"
  stringSolving : Bool := true
  symbolicArrays : Bool := true
  minInt : Int64 := -100
  maxInt : Int64 := 100
  undefinedInt : Int64 := -1000
  /-- The bounds of the search of one method. -/
  methodBounds : SearchBounds := ⟨500, 120⟩
  /-- The bounds of the search of the whole program. -/
  programBounds : SearchBounds := ⟨200, 60⟩
  multipleErrors : Bool := true
  searchClass : String := ".search.heuristic.BFSHeuristic"
  /-- The listeners of the search of one method. -/
  listeners : List String :=
    ["gov.nasa.jpf.symbc.sequences.SymbolicSequenceListener",
     "gov.nasa.jpf.symbc.SymbolicPathListener", "gov.nasa.jpf.listener.CoverageAnalyzer"]
  /-- What reports at the end of the search of the whole program. -/
  programReport : String := "gov.nasa.jpf.symbc.SymbolicPathListener"
deriving DecidableEq, Repr

namespace SearchSettings

/-- The names of the fields of a record of settings. -/
def fieldNames : List String :=
  ["classpath", "sourcepath", "insn_factory", "solver", "string_solving", "symbolic_arrays",
   "min_int", "max_int", "undefined", "method_search", "program_search", "multiple_errors",
   "search_class", "listeners", "program_report"]

def shape : Json.Shape :=
  .record (fieldNames.map fun name =>
    (name, if name == "method_search" || name == "program_search" then SearchBounds.shape else .all))

/-- The settings of a record whose fields all have defaults. -/
def ofJson? (j : Json) : Option SearchSettings := do
  let default : SearchSettings := {}
  match ← j.record? fieldNames with
  | [classpath, sourcepath, instructionFactory, solver, stringSolving, symbolicArrays, minInt,
      maxInt, undefinedInt, methodBounds, programBounds, multipleErrors, searchClass, listeners,
      programReport] =>
    return {
      classpath := ← Json.field? Json.string? default.classpath classpath
      sourcepath := ← Json.field? Json.string? default.sourcepath sourcepath
      instructionFactory :=
        ← Json.field? Json.string? default.instructionFactory instructionFactory
      solver := ← Json.field? Json.string? default.solver solver
      stringSolving := ← Json.field? Json.bool? default.stringSolving stringSolving
      symbolicArrays := ← Json.field? Json.bool? default.symbolicArrays symbolicArrays
      minInt := ← Json.field? Json.int64? default.minInt minInt
      maxInt := ← Json.field? Json.int64? default.maxInt maxInt
      undefinedInt := ← Json.field? Json.int64? default.undefinedInt undefinedInt
      methodBounds := ← Json.field? SearchBounds.ofJson? default.methodBounds methodBounds
      programBounds := ← Json.field? SearchBounds.ofJson? default.programBounds programBounds
      multipleErrors := ← Json.field? Json.bool? default.multipleErrors multipleErrors
      searchClass := ← Json.field? Json.string? default.searchClass searchClass
      listeners := ← Json.field? (Json.list? Json.string?) default.listeners listeners
      programReport := ← Json.field? Json.string? default.programReport programReport }
  | _ => none

end SearchSettings

end ContractTests
