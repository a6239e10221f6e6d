import ContractTests.CommandLine.Arguments
import ContractTests.Configuration
import ContractTests.Contract.Json
import ContractTests.Files.Emission
import ContractTests.TestClass.Build

/-! # Running a command

`CommandLine.run` does what a list of arguments asks for on a tree of files: it gives the exit code, the
text printed, the error if the command failed, and the files afterwards. An error that has a cause is
followed by the text of the cause.
-/

set_option autoImplicit false

namespace ContractTests.CommandLine

/-- What a run leaves behind. -/
structure Outcome where
  exit : Nat
  output : String
  error : Option String
  files : FileTree

/-- Why a command failed. -/
inductive RunError where
  | readConfiguration (path : String) (fault : FileFault)
  | parseConfiguration (path : String)
  | readContracts (path : String) (fault : FileFault)
  | parseContracts (path : String) (cause : ContractTable.LoadError)
  | readCalls (path : String) (fault : FileFault)
  | parseCalls (path : String)
  | noCalls
  | readSource (path : String) (fault : FileFault)
  | build (cause : BuildError)
  | generation (cause : GenerationError)
  | emission (cause : EmissionError)
  | signature (cause : Java.SignatureError)

/-- The texts of an error and of its causes, outermost first. -/
def RunError.chain : RunError → List String
  | .readConfiguration path fault => ["reading config " ++ path, fault.message]
  | .parseConfiguration path => ["parsing config " ++ path]
  | .readContracts path fault =>
    ["loading specs " ++ path, "IO error: " ++ fault.message, fault.message]
  | .parseContracts path .malformed => ["loading specs " ++ path, "JSON error"]
  | .parseContracts path (.duplicate cause) =>
    ["loading specs " ++ path, "JSON error: " ++ cause.message, cause.message]
  | .readCalls path fault => ["reading call sequence " ++ path, fault.message]
  | .parseCalls path => ["parsing call sequence " ++ path]
  | .noCalls => ["call sequence is empty"]
  | .readSource path fault => ["reading " ++ path, fault.message]
  | .build (.condition function cause) =>
    [(BuildError.condition function cause).message, cause.message]
  | .build cause => [cause.message]
  | .generation cause => [cause.message]
  | .emission cause => [cause.message, cause.fault.message]
  | .signature cause => [cause.message]

def RunError.message (e : RunError) : String := String.intercalate ": " e.chain

/-! ## Inputs -/

/-- The configuration of the file that is named, or of the first usual one that is there. -/
def loadConfiguration (files : FileTree) (path : Option String) : Except RunError Configuration :=
  match path.or (Configuration.defaultFiles.find? files.hasPath) with
  | none => .ok {}
  | some path => do
    let text ← (files.read path).mapError (.readConfiguration path)
    match Configuration.ofToml? text with
    | some configuration => return configuration
    | none => throw (.parseConfiguration path)

/-- The contracts of a file. -/
def loadContracts (files : FileTree) (path : String) : Except RunError ContractTable := do
  let text ← (files.read path).mapError (.readContracts path)
  (ContractTable.load text).mapError (.parseContracts path)

/-- The call sequence of a text: a JSON list if it starts with a bracket, and else names. -/
def callsOfText? (text : String) : Option CallSequence :=
  if (Text.trimStart text.toList).head? == some '[' then
    (Json.read? text).bind CallSequence.ofJson?
  else some (CallSequence.parse text)

/-- The call sequence, which may not be empty. -/
def loadCalls (files : FileTree) (source : CallSource) : Except RunError CallSequence := do
  let calls ← match source with
    | .values values => pure (CallSequence.ofValues values)
    | .file path => do
      let text ← (files.read path).mapError (.readCalls path)
      match callsOfText? text with
      | some calls => pure calls
      | none => throw (.parseCalls path)
  if calls.isEmpty then throw .noCalls else return calls

/-- The options with what the arguments say instead. -/
def GenerateCommand.options (command : GenerateCommand) (base : ClassOptions) : ClassOptions :=
  { base with
    className := command.className.getD base.className
    package := command.package.getD base.package
    unmatchedCalls := if command.skipUnmatched then .skip else base.unmatchedCalls
    echoInputs := command.echoInputs || base.echoInputs }

/-! ## Commands -/

/-- The class and the artifacts that a command generates. -/
def GenerateCommand.generate (command : GenerateCommand) (configuration : Configuration)
    (files : FileTree) : Except RunError (TestClass × Artifacts) := do
  let table ← loadContracts files command.contracts
  let calls ← loadCalls files command.calls
  let built ← (TestClass.build (command.options configuration.options) table calls).mapError .build
  let artifacts ← (built.artifacts configuration.settings command.withJson).mapError .generation
  return (built, artifacts)

/-- What is printed when the artifacts are written. -/
def report (built : TestClass) (out : String) (written : List String) : String :=
  "✓ " ++ natText built.methods.length ++ " helper(s) for " ++ built.qualifiedName ++ "\n" ++
    String.join (written.map fun path => "  " ++ Path.relativeTo out path ++ "\n")

/-- The files after a command, with what it prints or why it failed. -/
def execute (request : Request) (files : FileTree) : FileTree × Except RunError String :=
  match loadConfiguration files request.configuration with
  | .error e => (files, .error e)
  | .ok configuration =>
    match request.command with
    | .signature source method =>
      (files, do
        let text ← (files.read source).mapError (.readSource source)
        let signature ← (Java.signatureOf text method).mapError .signature
        return signature ++ "\n")
    | .generate command =>
      match command.generate configuration files with
      | .error e => (files, .error e)
      | .ok (built, artifacts) =>
        let (files, written) := files.emit artifacts command.out
        (files, (written.mapError .emission).map (report built command.out))

def usage : String :=
  "Usage: atcgen [--config PATH] [--debug] generate --specs PATH (--calls LIST | --calls-file PATH)\n" ++
  "              [--out PATH] [--emit-ir] [--unit-name NAME] [--namespace NAME]\n" ++
  "              [--skip-unmatched] [--echo-inputs]\n" ++
  "       atcgen [--config PATH] [--debug] signature --source PATH --method NAME\n"

/-- Do what the arguments ask for. -/
def run (arguments : List String) (files : FileTree) : Outcome :=
  match parse arguments with
  | .error .refused => ⟨2, "", none, files⟩
  | .error .help => ⟨0, usage, none, files⟩
  | .error .version => ⟨0, "atcgen 0.1.0\n", none, files⟩
  | .ok request =>
    match execute request files with
    | (files, .ok output) => ⟨0, output, none, files⟩
    | (files, .error e) => ⟨1, "", some e.message, files⟩

/-- The paths that a run may read. -/
def inputPaths (arguments : List String) : List String :=
  match parse arguments with
  | .error _ => []
  | .ok request =>
    let configuration := match request.configuration with
      | some path => [path]
      | none => Configuration.defaultFiles
    configuration ++
      match request.command with
      | .signature source _ => [source]
      | .generate command =>
        match command.calls with
        | .values _ => [command.contracts]
        | .file path => [command.contracts, path]

end ContractTests.CommandLine
