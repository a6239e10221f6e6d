import ContractTests.Text.Affix

/-! # Command line arguments

The options that each command takes, and what a list of arguments asks for. An option is given as
`--name value`, as `--name=value` or by its letter; a value does not start with a hyphen unless it is
attached. An option that is no list may be given once.
-/

set_option autoImplicit false

namespace ContractTests.CommandLine

/-- What an option takes. -/
inductive OptionKind where
  | flag
  | text
  /-- A path, which is not empty. -/
  | path
  /-- A list of texts separated by commas; the option may be repeated. -/
  | texts
deriving DecidableEq, Repr

structure OptionSpec where
  name : String
  letter : Option Char
  kind : OptionKind
deriving DecidableEq, Repr

/-- The options given, with their values. A flag has none. -/
abbrev Given := List (String × List String)

/-- Why reading the arguments ended early. -/
inductive Stop where
  | refused
  | help
  | version
deriving DecidableEq, Repr

/-! ## Options -/

/-- Add an option with its value to those given. -/
def OptionSpec.give (spec : OptionSpec) (value : String) (given : Given) : Except Stop Given :=
  match spec.kind, given.lookup spec.name with
  | .texts, before =>
    let values := (Text.splitOn (· == ',') value.toList).map String.ofList
    .ok ((spec.name, before.getD [] ++ values) :: given.filter (·.1 != spec.name))
  | _, some _ => .error .refused
  | .path, none => if value == "" then .error .refused else .ok ((spec.name, [value]) :: given)
  | .text, none => .ok ((spec.name, [value]) :: given)
  | .flag, none => .ok ((spec.name, []) :: given)

/-- Whether an argument stands for itself and not for an option. -/
def isPlain (argument : String) : Bool :=
  match argument.toList with
  | '-' :: _ :: _ => false
  | _ => true

/-- The name of a long option and the value attached to it. -/
def longOption (argument : List Char) : String × Option String :=
  let name := argument.takeWhile (· != '=')
  match argument.drop name.length with
  | _ :: value => (String.ofList name, some (String.ofList value))
  | [] => (String.ofList name, none)

/-- Read the options at the start of the arguments, and stop at the first argument that is none. -/
def readOptions (specs : List OptionSpec) (hasVersion : Bool) (given : Given) :
    List String → Except Stop (Given × List String)
  | [] => .ok (given, [])
  | argument :: rest =>
    if isPlain argument then .ok (given, argument :: rest)
    else
      let withValue (spec : OptionSpec) (attached : Option String) :
          Except Stop (Given × List String) :=
        match spec.kind, attached, rest with
        | .flag, none, rest => do readOptions specs hasVersion (← spec.give "" given) rest
        | .flag, some _, _ => .error .refused
        | _, some value, rest => do readOptions specs hasVersion (← spec.give value given) rest
        | _, none, value :: rest =>
          if isPlain value then do readOptions specs hasVersion (← spec.give value given) rest
          else .error .refused
        | _, none, [] => .error .refused
      match argument.toList with
      | ['-', '-'] => if rest.isEmpty then .ok (given, []) else .error .refused
      | '-' :: '-' :: long =>
        let (name, attached) := longOption long
        match specs.find? (·.name == name) with
        | some spec => withValue spec attached
        | none =>
          if name == "help" && attached.isNone then .error .help
          else if hasVersion && name == "version" && attached.isNone then .error .version
          else .error .refused
      | _ :: letter :: attached =>
        match specs.find? (·.letter == some letter) with
        | some spec =>
          let value := match attached with
            | [] => none
            | '=' :: value => some (String.ofList value)
            | value => some (String.ofList value)
          withValue spec value
        | none =>
          if letter == 'h' then .error .help
          else if hasVersion && letter == 'V' then .error .version
          else .error .refused
      | _ => .error .refused

/-! ## Commands -/

/-- The options that may stand before and after the command. -/
def globalOptions : List OptionSpec := [⟨"config", none, .path⟩, ⟨"debug", none, .flag⟩]

def generateOptions : List OptionSpec :=
  [⟨"specs", none, .path⟩, ⟨"calls", none, .texts⟩, ⟨"calls-file", none, .path⟩,
   ⟨"out", some 'o', .path⟩, ⟨"emit-ir", none, .flag⟩, ⟨"unit-name", none, .text⟩,
   ⟨"namespace", none, .text⟩, ⟨"skip-unmatched", none, .flag⟩, ⟨"echo-inputs", none, .flag⟩]

def signatureOptions : List OptionSpec :=
  [⟨"source", none, .path⟩, ⟨"method", none, .text⟩]

/-- Where the call sequence comes from. -/
inductive CallSource where
  | values (calls : List String)
  | file (path : String)
deriving DecidableEq, Repr

/-- Generate the tests of a call sequence. -/
structure GenerateCommand where
  contracts : String
  calls : CallSource
  out : String
  withJson : Bool
  className : Option String
  package : Option String
  skipUnmatched : Bool
  echoInputs : Bool
deriving DecidableEq, Repr

inductive Command where
  | generate (command : GenerateCommand)
  /-- Print the signature of a method declared in a source file. -/
  | signature (source method : String)
deriving DecidableEq, Repr

/-- A command with the configuration file that it names. -/
structure Request where
  configuration : Option String
  command : Command
deriving DecidableEq, Repr

/-- The value of an option that takes one. -/
def value? (given : Given) (name : String) : Option String :=
  (given.lookup name).bind List.head?

def hasOption (given : Given) (name : String) : Bool := (given.lookup name).isSome

/-- The command that the options of `generate` ask for. -/
def generateCommand? (given : Given) : Option GenerateCommand := do
  let contracts ← value? given "specs"
  let calls ← match given.lookup "calls", value? given "calls-file" with
    | some values, none => some (.values values)
    | none, some path => some (.file path)
    | _, _ => none
  return {
    contracts := contracts
    calls := calls
    out := (value? given "out").getD "atcgen-out"
    withJson := hasOption given "emit-ir"
    className := value? given "unit-name"
    package := value? given "namespace"
    skipUnmatched := hasOption given "skip-unmatched"
    echoInputs := hasOption given "echo-inputs" }

/-- The command that the options of `signature` ask for. -/
def signatureCommand? (given : Given) : Option Command := do
  return .signature (← value? given "source") (← value? given "method")

/-- Read the options of a command, which end with the arguments. -/
def commandOptions (specs : List OptionSpec) (arguments : List String) : Except Stop Given := do
  match ← readOptions (specs ++ globalOptions) false [] arguments with
  | (given, []) => return given
  | _ => .error .refused

/-- What the arguments ask for. -/
def parse (arguments : List String) : Except Stop Request := do
  let (globals, rest) ← readOptions globalOptions true [] arguments
  let request (given : Given) (command? : Option Command) : Except Stop Request :=
    match command? with
    | some command =>
      .ok ⟨(value? given "config").or (value? globals "config"), command⟩
    | none => .error .refused
  match rest with
  | "generate" :: rest =>
    let given ← commandOptions generateOptions rest
    request given ((generateCommand? given).map .generate)
  | "signature" :: rest =>
    let given ← commandOptions signatureOptions rest
    request given (signatureCommand? given)
  | ["help"] => .error .help
  | ["help", "generate"] => .error .help
  | ["help", "signature"] => .error .help
  | _ => .error .refused

end ContractTests.CommandLine
