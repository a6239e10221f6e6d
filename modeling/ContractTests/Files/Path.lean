import ContractTests.Text.Affix

/-! # Paths

A path is a text whose components are separated by slashes. `Path.join` goes from a directory to
something in it; `Path.packageDirectory` goes to the directory of a package. `Path.location` lists the
components that a path leads through, so that two paths of one location lead to the same place.
-/

set_option autoImplicit false

namespace ContractTests.Path

/-- The path of `part` seen from `directory`. A part that starts with a slash stands on its own. -/
def join (directory part : String) : String :=
  if part.toList.head? == some '/' then part
  else if directory.toList.getLast?.all (· == '/') then directory ++ part
  else directory ++ "/" ++ part

/-- The directory of a package, one component for each part of its name. -/
def packageDirectory (root package : String) : String :=
  (((Text.splitOn (· == '.') package.toList).filter (!·.isEmpty)).map String.ofList).foldl join root

/-- The components of a path, without those that lead nowhere. -/
def components (path : String) : List String :=
  ((Text.splitOn (· == '/') path.toList).map String.ofList).filter fun c => c != "" && c != "."

/-- The component that stands for the root of all files in a location. -/
def root : String := "/"

/-- The component that goes back to the directory above. -/
def up : String := ".."

/-- Go one component on. Above the root is the root; a location above the working directory starts with
steps up. -/
def step (location : List String) (component : String) : List String :=
  if component != up then location ++ [component]
  else
    match location.getLast? with
    | none => [up]
    | some last =>
      if last == root then location
      else if last == up then location ++ [up]
      else location.dropLast

/-- Where a path starts: at the working directory, or at the root of all files. -/
def start (path : String) : List String := if path.toList.head? == some '/' then [root] else []

/-- Where a path leads. -/
def location (path : String) : List String := (components path).foldl step (start path)

/-- Whether a path can only be that of a directory: it ends in a slash, or in a component that leads
nowhere. -/
def endsOpen (path : String) : Bool :=
  match path.toList.reverse with
  | '/' :: _ => true
  | '.' :: '/' :: _ => true
  | _ => false

/-- Drop slashes and empty components from the end of a reversed path. -/
def dropTrailing : List Char → List Char
  | ['/'] => ['/']
  | '/' :: rest => dropTrailing rest
  | '.' :: '/' :: rest => dropTrailing ('/' :: rest)
  | cs => cs
termination_by cs => cs.length

/-- The path without its last component. -/
def parent (path : String) : String :=
  String.ofList (dropTrailing (path.toList.reverse.dropWhile (· != '/'))).reverse

/-- Drop slashes and empty components from the beginning of a path. -/
def dropLeading : List Char → List Char
  | '/' :: rest => dropLeading rest
  | '.' :: '/' :: rest => dropLeading rest
  | cs => cs

/-- A path as seen from a directory; one that does not lead through the directory stays as it is. -/
def relativeTo (directory path : String) : String :=
  match Text.stripStart? directory.toList path.toList with
  | some rest => String.ofList (dropLeading rest)
  | none => path

end ContractTests.Path
