import ContractTests.Contract.Basic

/-! # Contract tables

The contracts of a program by name, in the order in which their names were first inserted. Inserting
a contract under a name that is taken replaces the one there and keeps its place.
-/

set_option autoImplicit false

namespace ContractTests

/-- Contracts in order, each found by its own name. -/
structure ContractTable where
  contracts : List Contract
deriving Repr

namespace ContractTable

def empty : ContractTable := ⟨[]⟩

def names (t : ContractTable) : List String := t.contracts.map (·.name)

def size (t : ContractTable) : Nat := t.contracts.length

def isEmpty (t : ContractTable) : Bool := t.contracts.isEmpty

/-- The contract of that name. -/
def get? (t : ContractTable) (name : String) : Option Contract :=
  t.contracts.find? (·.name == name)

def contains (t : ContractTable) (name : String) : Bool := t.contracts.any (·.name == name)

/-- Put `c` in the place of the contract of its name, or at the end. -/
def place (c : Contract) : List Contract → List Contract
  | [] => [c]
  | other :: rest => if other.name == c.name then c :: rest else other :: place c rest

/-- The table with `c` in it. -/
def insert (t : ContractTable) (c : Contract) : ContractTable := ⟨place c t.contracts⟩

/-- The contract that `c` takes the place of, and the table with `c` in it. -/
def exchange (t : ContractTable) (c : Contract) : Option Contract × ContractTable :=
  (t.get? c.name, t.insert c)

/-- The first name that a contract before it already has. -/
def duplicate? : List Contract → List String → Option String
  | [], _ => none
  | c :: rest, seen => if seen.contains c.name then some c.name else duplicate? rest (seen ++ [c.name])

/-- Two contracts of one name in a list that is to be a table. -/
structure Duplicate where
  name : String
deriving DecidableEq, Repr

def Duplicate.message (d : Duplicate) : String :=
  "Invalid spec table: duplicate function '" ++ d.name ++ "'"

/-- The table of a list of contracts, whose names have to differ. -/
def ofList (contracts : List Contract) : Except Duplicate ContractTable :=
  match duplicate? contracts [] with
  | some name => .error ⟨name⟩
  | none => .ok (contracts.foldl insert empty)

end ContractTable

end ContractTests
