import ContractTests.CommandLine.Run

/-! # The program

Reads the files that the arguments name, runs the command on them, and writes what it has changed.
-/

set_option autoImplicit false

open ContractTests

/-- The tree of those of the files that can be read. -/
def readInputs (paths : List String) : IO FileTree := do
  let mut files : List (String × String) := []
  for path in paths do
    let text? ← try some <$> IO.FS.readFile path catch _ => pure none
    if let some text := text? then
      files := files ++ [(path, text)]
  return FileTree.ofList files

/-- Write the files that differ from those read. -/
def writeChanges (before after : FileTree) : IO Unit := do
  for (location, text) in after.files do
    if before.file? location != some text then
      IO.FS.createDirAll (String.intercalate "/" location.dropLast)
      IO.FS.writeFile (String.intercalate "/" location) text

def main (arguments : List String) : IO UInt32 := do
  let before ← readInputs (CommandLine.inputPaths arguments)
  let outcome := CommandLine.run arguments before
  writeChanges before outcome.files
  IO.print outcome.output
  if let some error := outcome.error then
    IO.eprintln ("error: " ++ error)
  return outcome.exit.toUInt32
