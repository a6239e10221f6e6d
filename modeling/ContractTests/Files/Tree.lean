import ContractTests.Files.Path

/-! # File trees

The files below a directory with their texts. A directory is there as long as a file is in it. Reading,
making directories and writing fail as they do on a file system.
-/

set_option autoImplicit false

namespace ContractTests

/-- Why a path cannot be read or written. -/
inductive FileFault where
  | notFound
  | alreadyExists
  | notADirectory
  | isADirectory
  | nameTooLong
  | nulCharacter
deriving DecidableEq, Repr

def FileFault.message : FileFault → String
  | .notFound => "No such file or directory (os error 2)"
  | .alreadyExists => "File exists (os error 17)"
  | .notADirectory => "Not a directory (os error 20)"
  | .isADirectory => "Is a directory (os error 21)"
  | .nameTooLong => "File name too long (os error 36)"
  | .nulCharacter => "file name contained an unexpected NUL byte"

/-- Files by location, with their texts. -/
structure FileTree where
  files : List (List String × String)
deriving DecidableEq, Repr

namespace FileTree

def empty : FileTree := ⟨[]⟩

/-- The text of the file at a location. -/
def file? (t : FileTree) (location : List String) : Option String := t.files.lookup location

/-- Whether a location is a directory: where a path starts, above that, or above a file. -/
def isDirectory (t : FileTree) (location : List String) : Bool :=
  location == [Path.root] || location.all (· == Path.up) ||
    t.files.any fun entry => location.isPrefixOf entry.1 && location != entry.1

/-- Put a text in the place of the file at a location, or after all files. -/
def place (location : List String) (text : String) :
    List (List String × String) → List (List String × String)
  | [] => [(location, text)]
  | entry :: rest =>
    if entry.1 == location then (location, text) :: rest else entry :: place location text rest

/-- The tree with a text at a location. -/
def put (t : FileTree) (location : List String) (text : String) : FileTree :=
  ⟨place location text t.files⟩

/-- The tree of files given by their paths. -/
def ofList (files : List (String × String)) : FileTree :=
  files.foldl (fun t file => t.put (Path.location file.1) file.2) empty

/-! ## Walking -/

/-- The longest name of a component, and the longest path, in bytes. -/
def componentLimit : Nat := 255

def pathLimit : Nat := 4095

/-- What a location holds. -/
inductive Node where
  | file (text : String)
  | directory
  | nothing
deriving DecidableEq, Repr

/-- What is found on the way from a directory through the components. Where a component is missing, so
are all that follow it. -/
def walk (t : FileTree) (location : List String) : List String → Except FileFault Node
  | [] => .ok .directory
  | name :: rest =>
    let next := Path.step location name
    if componentLimit < name.utf8ByteSize then .error .nameTooLong
    else
      match t.file? next with
      | some text => if rest.isEmpty then .ok (.file text) else .error .notADirectory
      | none => if t.isDirectory next then walk t next rest else .ok .nothing

/-- What a path leads to. -/
def find (t : FileTree) (path : String) : Except FileFault Node :=
  if path.toList.contains '\x00' then .error .nulCharacter
  else if path == "" then .ok .nothing
  else if pathLimit < path.utf8ByteSize then .error .nameTooLong
  else t.walk (Path.start path) (Path.components path)

/-! ## Reading and writing -/

/-- The text of the file at a path. -/
def read (t : FileTree) (path : String) : Except FileFault String :=
  match t.find path with
  | .error fault => .error fault
  | .ok .directory => .error .isADirectory
  | .ok .nothing => .error .notFound
  | .ok (.file text) => if Path.endsOpen path then .error .notADirectory else .ok text

/-- Whether something is at a path. -/
def hasPath (t : FileTree) (path : String) : Bool :=
  match t.find path with
  | .ok (.file _) => true
  | .ok .directory => true
  | _ => false

/-- Whether a directory can be made at a path, or is there. -/
def makeDirectory (t : FileTree) (path : String) : Except FileFault Unit :=
  if path == "" then .ok ()
  else
    match t.find path with
    | .error fault => .error fault
    | .ok (.file _) => .error .alreadyExists
    | .ok _ =>
      if (Path.components path).any (componentLimit < ·.utf8ByteSize) then .error .nameTooLong
      else .ok ()

/-- The tree with a text written to the file at a path, whose directory is there. -/
def write (t : FileTree) (path text : String) : Except FileFault FileTree :=
  match t.find path with
  | .error fault => .error fault
  | .ok .directory => .error .isADirectory
  | .ok _ =>
    if (Path.components path).any (componentLimit < ·.utf8ByteSize) then .error .nameTooLong
    else .ok (t.put (Path.location path) text)

end FileTree

end ContractTests
