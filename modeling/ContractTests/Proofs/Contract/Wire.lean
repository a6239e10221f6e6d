import ContractTests.Proofs.Contract.Saved

/-! # The exchange form of contracts

A contract is exchanged as a `WireContract`: its conditions are lists of clauses, and a name that is
the function's own is left out. `Contract.toJson_eq` and `Contract.ofJson?_eq` say that the records of
contracts are those of their exchange forms. `ContractTable.Reachable.ofWire_toWire`: whatever was
inserted and loaded, a table comes back from its exchange form as it was.
-/

set_option autoImplicit false

namespace ContractTests

/-! ## Contracts -/

/-- A contract as it is exchanged. -/
structure WireContract where
  /-- The name in the table, when it is not that of the function. -/
  name : Option String
  signature : Signature
  requires : List Expr
  ensures : List Expr

namespace WireContract

def toContract (w : WireContract) : Contract :=
  .ofClauses (w.name.getD w.signature.name) w.signature w.requires w.ensures

def toJson (w : WireContract) : Json :=
  .object
    ((w.name.toList.map fun name => ("name", .string name)) ++ [("signature", w.signature.toJson)] ++
      Contract.clausesMember "requires" w.requires ++ Contract.clausesMember "ensures" w.ensures)

def ofJson? (j : Json) : Option WireContract := do
  match ← j.record? ["name", "signature", "requires", "ensures"] with
  | [name, some signature, requires, ensures] =>
    return {
      name := ← Json.field? (Json.nullable? Json.string?) none name
      signature := ← Signature.ofJson? signature
      requires := ← Json.field? (Json.list? (Expr.ofJson? false)) [] requires
      ensures := ← Json.field? (Json.list? (Expr.ofJson? false)) [] ensures }
  | _ => none

end WireContract

namespace Contract

def toWire (c : Contract) : WireContract where
  name := if c.name = c.signature.name then none else some c.name
  signature := c.signature
  requires := c.precondition.toList
  ensures := c.postcondition.toList

/-- The record of a contract is that of its exchange form. -/
theorem toJson_eq (c : Contract) : c.toJson = c.toWire.toJson := by
  by_cases hname : c.name = c.signature.name <;>
    simp [toJson, WireContract.toJson, toWire, hname]

/-- A record is read as an exchange form, which is then made a contract. -/
theorem ofJson?_eq (j : Json) : ofJson? j = (WireContract.ofJson? j).map (·.toContract) := by
  unfold ofJson? WireContract.ofJson?
  cases j.record? ["name", "signature", "requires", "ensures"] with
  | none => rfl
  | some fields =>
    -- only four fields with a signature are read
    rcases fields with _ | ⟨name, _ | ⟨_ | signature, _ | ⟨requires, _ | ⟨ensures, _ | _⟩⟩⟩⟩
    case some.cons.cons.nil =>
      simp only [Option.bind_eq_bind, Option.bind_some, Option.map_bind, Function.comp_def,
        Option.pure_def, Option.map_some, WireContract.toContract]
    all_goals rfl

/-- A contract in normal form is made of its exchange form, whether that has its name or not. -/
theorem toContract_toWire {c : Contract} (h : c.IsNormal) : c.toWire.toContract = c := by
  have hname : c.toWire.name.getD c.toWire.signature.name = c.name := by
    unfold toWire
    split
    · rename_i heq
      exact heq.symm
    · rfl
  rw [WireContract.toContract, hname]
  exact ofClauses_toList h

end Contract

/-! ## Tables -/

namespace ContractTable

variable {t : ContractTable} {c : Contract}

/-- The exchange forms of the contracts in order. -/
def toWire (t : ContractTable) : List WireContract := t.contracts.map Contract.toWire

/-- The table of exchange forms, whose names have to differ. -/
def ofWire (wire : List WireContract) : Except Duplicate ContractTable :=
  ofList (wire.map WireContract.toContract)

/-- The record of a table lists the records of the exchange forms. -/
theorem toJson_eq (t : ContractTable) :
    t.toJson = .object [("functions", .array (t.toWire.map WireContract.toJson))] := by
  have hcontracts : Contract.toJson = WireContract.toJson ∘ Contract.toWire :=
    funext Contract.toJson_eq
  rw [toJson, toWire, List.map_map, hcontracts]

/-- The tables that insertions and loads lead to from the empty one. A contract is made of given
conditions before it is inserted, and a table that is loaded takes the place of the one before. -/
inductive Reachable : ContractTable → Prop
  | empty : Reachable empty
  | insert {t : ContractTable} (h : Reachable t) (name : String) (signature : Signature)
      (pre post : Option Expr) : Reachable (t.insert (.ofConditions name signature pre post))
  | load {t : ContractTable} {text : String} (h : load text = .ok t) : Reachable t
  | ofWire {t : ContractTable} {wire : List WireContract} (h : ofWire wire = .ok t) : Reachable t

theorem isLoaded_empty : empty.IsLoaded := ⟨List.nodup_nil, nofun⟩

theorem IsLoaded.insert (h : t.IsLoaded) (hc : c.IsNormal) : (t.insert c).IsLoaded where
  nodup := nodup_names_insert h.nodup c
  normal := by
    intro other hother
    rcases mem_place hother with rfl | hother
    · exact hc
    · exact h.normal other hother

theorem isLoaded_of_ofWire {wire : List WireContract} (h : ofWire wire = .ok t) : t.IsLoaded := by
  obtain ⟨hnodup, hheld⟩ := ofList_eq_ok_iff.1 h
  refine ⟨?_, ?_⟩
  · rwa [names, hheld]
  · rw [hheld]
    exact List.forall_mem_map.2 fun w _ => Contract.isNormal_ofClauses _ _ _ _

theorem Reachable.isLoaded (h : t.Reachable) : t.IsLoaded := by
  induction h with
  | empty => exact isLoaded_empty
  | insert _ name signature pre post ih =>
    exact ih.insert (Contract.isNormal_ofConditions name signature pre post)
  | load h => exact isLoaded_of_load h
  | ofWire h => exact isLoaded_of_ofWire h

/-- A contract is found by its own name. -/
theorem get?_of_mem (hnodup : t.names.Nodup) (hc : c ∈ t.contracts) : t.get? c.name = some c := by
  rw [get?, List.find?_eq_some_iff_append]
  obtain ⟨earlier, later, hsplit⟩ := List.append_of_mem hc
  refine ⟨beq_self_eq_true _, earlier, later, hsplit, fun other hother => ?_⟩
  rw [names, hsplit, List.map_append, List.nodup_append] at hnodup
  have hne := hnodup.2.2 other.name (List.mem_map_of_mem hother) c.name List.mem_cons_self
  simpa using hne

/-- In a table that insertions and loads lead to, names differ, every contract is found by its own
name, and conditions are in normal form; its exchange form is read as the table itself. -/
theorem Reachable.ofWire_toWire (h : t.Reachable) :
    t.names.Nodup ∧ (∀ c ∈ t.contracts, t.get? c.name = some c ∧ c.IsNormal) ∧
      ContractTable.ofWire t.toWire = .ok t := by
  have hloaded := h.isLoaded
  refine ⟨hloaded.nodup, fun c hc => ⟨get?_of_mem hloaded.nodup hc, hloaded.normal c hc⟩, ?_⟩
  have hcontracts : t.toWire.map WireContract.toContract = t.contracts := by
    rw [toWire, List.map_map]
    exact (List.map_congr_left fun c hc => Contract.toContract_toWire (hloaded.normal c hc)).trans
      (List.map_id _)
  rw [ContractTable.ofWire, hcontracts, ofList_eq_ok_iff]
  exact ⟨hloaded.nodup, rfl⟩

/-- The function `halve` under the name `half`, and `quarter` under the name `halve`. The second
contract of `half` has taken the place of the first one. -/
def halves : ContractTable :=
  ((empty.insert (.ofConditions "half" ⟨"halve", [⟨"n", "int"⟩], "int"⟩ none none)).insert
      (.ofConditions "halve" ⟨"quarter", [⟨"n", "int"⟩], "int"⟩
        (some (.binary .greater (.var "n") (.int 3))) none)).insert
    (.ofConditions "half" ⟨"halve", [⟨"n", "int"⟩], "int"⟩ none
      (some (.binary .less (.var "n_post") (.call "post" [.var "n"]))))

theorem halves_ofWire_toWire : halves.Reachable ∧ halves.names = ["half", "halve"] ∧
    halves.contracts.map (·.postcondition) =
      [some (.binary .less (.postState "n") (.postState "n")), none] ∧
    (∀ c ∈ halves.contracts, halves.get? c.name = some c ∧ c.IsNormal) ∧
    ContractTable.ofWire halves.toWire = .ok halves := by
  have h : halves.Reachable :=
    ((Reachable.empty.insert "half" ⟨"halve", [⟨"n", "int"⟩], "int"⟩ none none).insert
      "halve" ⟨"quarter", [⟨"n", "int"⟩], "int"⟩ _ none).insert "half" _ none _
  obtain ⟨-, hcontracts, hwire⟩ := h.ofWire_toWire
  exact ⟨h, rfl, rfl, hcontracts, hwire⟩

end ContractTable

end ContractTests
