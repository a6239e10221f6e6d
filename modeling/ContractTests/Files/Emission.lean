import ContractTests.Artifacts
import ContractTests.Files.Tree

/-! # Writing artifacts

Where the artifacts of a test class are written below an output directory:

* `baseline/<package>/<class>.java` and `symbolic/<package>/<class>.java`,
* the search documents, by their file names,
* `ir.json`, if the class is wanted as JSON.

A file that is there is replaced, so that writing twice is writing once.
-/

set_option autoImplicit false

namespace ContractTests

/-- A path at which writing failed. -/
structure EmissionError where
  path : String
  fault : FileFault
deriving DecidableEq, Repr

def EmissionError.message (e : EmissionError) : String :=
  "IO error at " ++ e.path ++ ": " ++ e.fault.message

namespace Artifacts

/-- The path of the source of a class below one of the two source directories. -/
def sourcePath (a : Artifacts) (out directory : String) : String :=
  Path.join (Path.packageDirectory (Path.join out directory) a.package) (a.className ++ ".java")

/-- The files to be written, by path and in order. -/
def files (a : Artifacts) (out : String) : List (String × String) :=
  [(a.sourcePath out "baseline", a.baseline), (a.sourcePath out "symbolic", a.symbolic)] ++
    a.documents.map (fun d => (Path.join out d.1, d.2.text)) ++
    a.json.toList.map fun text => (Path.join out "ir.json", text)

end Artifacts

namespace FileTree

/-- Write a file, making the directories above it. -/
def writeFile (t : FileTree) (path text : String) : Except EmissionError FileTree := do
  (t.makeDirectory (Path.parent path)).mapError (⟨Path.parent path, ·⟩)
  (t.write path text).mapError (⟨path, ·⟩)

/-- Write files in order. A failure ends the writing and leaves what is written. -/
def writeFiles (t : FileTree) : List (String × String) → FileTree × Except EmissionError Unit
  | [] => (t, .ok ())
  | (path, text) :: rest =>
    match t.writeFile path text with
    | .ok t => writeFiles t rest
    | .error e => (t, .error e)

/-- Write all artifacts below a directory. Gives the paths that were written. -/
def emit (t : FileTree) (a : Artifacts) (out : String) :
    FileTree × Except EmissionError (List String) :=
  let (t, done) := t.writeFiles (a.files out)
  (t, done.map fun _ => (a.files out).map (·.1))

end FileTree

end ContractTests
