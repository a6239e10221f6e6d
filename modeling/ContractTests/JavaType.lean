import ContractTests.Text.Blank

/-! # Java type names

What a declared type name says about the values of the type: whether they are copied by value, copied
element by element, or shared (`TypeCategory`). Only the name counts, without white space around it;
generic arguments and the package `java.util` do not decide whether a type is a collection.
-/

set_option autoImplicit false

namespace ContractTests

/-- How the values of a type are copied. -/
inductive TypeCategory where
  /-- Copied by value, never null. -/
  | primitive
  /-- Copied into a fresh container. -/
  | collection
  /-- Shared. -/
  | reference
deriving DecidableEq, Repr

namespace TypeCategory

def name : TypeCategory → String
  | .primitive => "primitive"
  | .collection => "collection"
  | .reference => "reference"

/-- Whether a value of the type may be null. -/
def isNullable (c : TypeCategory) : Bool := c != .primitive

end TypeCategory

namespace JavaType

/-- The scalar types and their boxes. -/
def primitives : List String :=
  ["int", "long", "short", "byte", "double", "float", "boolean", "char",
   "Integer", "Long", "Short", "Byte", "Double", "Float", "Boolean", "Character"]

/-- The collection types, without package and generic arguments. -/
def collections : List String :=
  ["Set", "Map", "List", "Collection", "Queue", "Deque", "HashSet", "HashMap", "ArrayList",
   "LinkedList", "TreeSet", "TreeMap", "LinkedHashSet", "LinkedHashMap", "ArrayDeque"]

/-- The package that a collection type may be qualified with. -/
def utilPackage : List Char := "java.util.".toList

/-- The characters of the name without white space around it, generic arguments and `java.util`. -/
def baseChars (type : List Char) : List Char :=
  let raw := Text.trimEnd ((Text.trim type).takeWhile (· != '<'))
  if utilPackage.isPrefixOf raw then raw.drop utilPackage.length else raw

/-- The name of the type without generic arguments and without the package `java.util`. -/
def base (type : String) : String := String.ofList (baseChars type.toList)

/-- The category of a type name. -/
def category (type : String) : TypeCategory :=
  if primitives.contains (Text.trimmed type) then .primitive
  else if collections.contains (base type) then .collection
  else .reference

/-- Whether a return type says that nothing is returned. -/
def isVoid (type : String) : Bool :=
  Text.trimmed type == "" || Text.trimmed type == "void"

/-- The class that a collection is copied into: the usual one for an interface, and else the type
itself. -/
def implementation (type : String) : String :=
  match base type with
  | "Set" => "HashSet"
  | "Map" => "HashMap"
  | "List" => "ArrayList"
  | "Collection" => "ArrayList"
  | "Queue" => "LinkedList"
  | "Deque" => "LinkedList"
  | other => other

/-- The generic arguments written in a type name, from the first angle bracket on. -/
def genericArguments? (type : String) : Option String :=
  match type.toList.dropWhile (· != '<') with
  | [] => none
  | cs => some (String.ofList cs)

end JavaType

end ContractTests
