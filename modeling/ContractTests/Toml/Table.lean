import ContractTests.Json.Basic

/-! # TOML tables

The tables of a TOML document under construction. How a table came about decides what may still be done
with it: one with a header may not get a second one, and dotted keys may only extend tables that
dotted keys have made.
-/

set_option autoImplicit false

namespace ContractTests.Toml

/-- How a table came about. -/
inductive Origin where
  /-- It has a header of its own. -/
  | header
  /-- It is above a table that has a header. -/
  | above
  /-- It was made by dotted keys. -/
  | dotted
deriving DecidableEq, Repr

/-- What stands under a key. -/
inductive Item where
  | value (j : Json)
  | table (origin : Origin) (members : List (String × Item))
  /-- The tables of a repeated header, last one first. -/
  | tables (reversed : List (List (String × Item)))
deriving Repr

/-- The items of a table by key. -/
abbrev Members := List (String × Item)

/-- The members with another item under a key. -/
def put (key : String) (item : Item) : Members → Members
  | [] => [(key, item)]
  | m :: rest => if m.1 == key then (key, item) :: rest else m :: put key item rest

/-- The members after `change` was made in the table that a path of keys leads to. Tables that are
missing on the way are made with the given origin; a table that `closed` refuses is not entered. -/
def within (missing : Origin) (closed : Origin → Bool)
    (change : Origin → Members → Option Members) : Origin → List String → Members → Option Members
  | origin, [], members => change origin members
  | _, key :: path, members =>
    match members.lookup key with
    | none => do return put key (.table missing (← within missing closed change missing path [])) members
    | some (.table origin inner) =>
      if closed origin then none
      else do
        return put key (.table origin (← within missing closed change origin path inner)) members
    | some (.tables (last :: before)) => do
      return put key (.tables ((← within missing closed change .header path last) :: before)) members
    | some _ => none

/-- Give the table at `path` a header. -/
def openTable (path : List String) (key : String) : Members → Option Members :=
  within .above (fun _ => false)
    (fun _ members =>
      match members.lookup key with
      | none => some (put key (.table .header []) members)
      | some (.table .above inner) => some (put key (.table .header inner) members)
      | some _ => none)
    .header path

/-- Begin another table under a repeated header. -/
def pushTable (path : List String) (key : String) : Members → Option Members :=
  within .above (fun _ => false)
    (fun _ members =>
      match members.lookup key with
      | none => some (put key (.tables [[]]) members)
      | some (.tables reversed) => some (put key (.tables ([] :: reversed)) members)
      | some _ => none)
    .header path

/-- Put a value under a dotted key of a table. -/
def assignKey (path : List String) (key : String) (j : Json) : Members → Option Members :=
  within .dotted (· == .header)
    (fun origin members =>
      if (members.lookup key).isSome || (!path.isEmpty && origin != .dotted) then none
      else some (members ++ [(key, .value j)]))
    .header path

/-- Put a value under a dotted key of the table at `table`. -/
def assignIn (table path : List String) (key : String) (j : Json) : Members → Option Members :=
  within .above (fun _ => false) (fun _ members => assignKey path key j members) .header table

mutual

/-- The value of an item. -/
def Item.toJson : Item → Json
  | .value j => j
  | .table _ members => .object (membersToJson members)
  | .tables reversed => .array (tablesToJson reversed).reverse

/-- The values of the members. -/
def membersToJson : List (String × Item) → List (String × Json)
  | [] => []
  | (key, item) :: rest => (key, Item.toJson item) :: membersToJson rest

/-- The values of the tables. -/
def tablesToJson : List (List (String × Item)) → List Json
  | [] => []
  | members :: rest => .object (membersToJson members) :: tablesToJson rest

end

end ContractTests.Toml
