import ContractTests.Contract.Json
import ContractTests.Proofs.Contract.Table
import ContractTests.Proofs.Expr.Json
import ContractTests.Proofs.Expr.NormalForm

/-! # Saved tables

A table that was loaded can be saved and loaded again, provided that its floats are read from their
texts, exactly when no condition nests too deep (`ContractTable.load_save`). A table need not be so
when its text could be read: a list of clauses is saved as one conjunction, which nests as deep as
there are clauses (`ContractTable.not_loaded_of_many_clauses`), and a float may be read as a
neighbour of the one that was written.
-/

set_option autoImplicit false

namespace ContractTests

open Json

/-! ## Signatures -/

theorem Parameter.ofJson?_toJson (p : Parameter) : ofJson? p.toJson = some p := by
  simp [ofJson?, toJson, Json.record?, Json.member?, Json.string?]

theorem Parameter.covers_toJson (p : Parameter) : shape.Covers p.toJson := by
  refine Shape.covers_record ?_
  simp only [List.forall_mem_cons]
  exact ⟨⟨_, rfl, .scalar rfl⟩, ⟨_, rfl, .scalar rfl⟩, List.forall_mem_nil _⟩

theorem Parameter.readable_toJson (p : Parameter) : p.toJson.Readable := by
  simp [toJson]

theorem Signature.ofJson?_toJson (s : Signature) : ofJson? s.toJson = some s := by
  have hparameters : Json.list? Parameter.ofJson? (.array (s.parameters.map Parameter.toJson)) =
      some s.parameters := Json.list?_map fun p _ => p.ofJson?_toJson
  simp [ofJson?, toJson, Json.record?, Json.member?, Json.field?, Json.string?, hparameters]

theorem Signature.covers_toJson (s : Signature) : shape.Covers s.toJson := by
  have hparameters : (Shape.list Parameter.shape).Covers
      (.array (s.parameters.map Parameter.toJson)) :=
    Shape.covers_list (List.forall_mem_map.2 fun p _ => p.covers_toJson)
  refine Shape.covers_record ?_
  simp only [List.forall_mem_cons]
  exact ⟨⟨_, rfl, .scalar rfl⟩, ⟨_, rfl, hparameters⟩, ⟨_, rfl, .scalar rfl⟩,
    List.forall_mem_nil _⟩

theorem Signature.depth_toJson_le (s : Signature) : s.toJson.depth ≤ 3 := by
  have hparameters : Json.depthAll (s.parameters.map Parameter.toJson) ≤ 1 := by
    rw [Json.depthAll_le_iff, List.forall_mem_map]
    exact fun p _ => Nat.le_refl _
  simp only [toJson, Json.depth, Json.depthMembers]
  omega

theorem Signature.readable_toJson (s : Signature) : s.toJson.Readable := by
  have hparameters : (Json.array (s.parameters.map Parameter.toJson)).Readable :=
    .array (List.forall_mem_map.2 fun p _ => p.readable_toJson)
  refine .object ?_
  simp only [List.forall_mem_cons]
  exact ⟨.string _, hparameters, .string _, List.forall_mem_nil _⟩

/-! ## Contracts -/

namespace Contract

/-- The conditions that a contract has. -/
def conditions (c : Contract) : List Expr := c.precondition.toList ++ c.postcondition.toList

/-- The conditions are in normal form. -/
def IsNormal (c : Contract) : Prop := ∀ e ∈ c.conditions, e.normalForm = e

theorem isNormal_ofConditions (name : String) (signature : Signature) (pre post : Option Expr) :
    (ofConditions name signature pre post).IsNormal := by
  have hnormal {condition? : Option Expr} :
      ∀ e ∈ (condition?.map Expr.normalForm).toList, e.normalForm = e := by
    cases condition? with
    | none => exact List.forall_mem_nil _
    | some e => exact List.forall_mem_singleton.2 e.normalForm_normalForm
  exact List.forall_mem_append.2 ⟨hnormal, hnormal⟩

theorem isNormal_ofClauses (name : String) (signature : Signature) (requires ensures : List Expr) :
    (ofClauses name signature requires ensures).IsNormal :=
  isNormal_ofConditions _ _ _ _

theorem isNormal_of_ofJson? {j : Json} {c : Contract} (h : ofJson? j = some c) : c.IsNormal := by
  obtain ⟨fields, -, h⟩ := Option.bind_eq_some_iff.1 h
  split at h
  · obtain ⟨name, -, h⟩ := Option.bind_eq_some_iff.1 h
    obtain ⟨signature, -, h⟩ := Option.bind_eq_some_iff.1 h
    obtain ⟨requires, -, h⟩ := Option.bind_eq_some_iff.1 h
    obtain ⟨ensures, -, h⟩ := Option.bind_eq_some_iff.1 h
    cases h
    exact isNormal_ofClauses _ _ _ _
  · cases h

/-- A condition is written as a list of one clause. -/
theorem list?_clause {e : Expr} (h : e.FloatsReadBack) :
    Json.list? (Expr.ofJson? false) (.array [e.toJson]) = some [e] := by
  have he := Expr.ofJson?_toJson h.isFinite false
  simp [Json.list?, Json.array?, he]

/-- The conjunction of one clause in normal form is that clause. -/
theorem ofClauses_toList {c : Contract} (h : c.IsNormal) :
    ofClauses c.name c.signature c.precondition.toList c.postcondition.toList = c := by
  have hjoin {condition? : Option Expr} (h : ∀ e ∈ condition?.toList, e.normalForm = e) :
      (Expr.conjunction? condition?.toList).map Expr.normalForm = condition? := by
    cases condition? with
    | none => rfl
    | some e => exact congrArg some (h e (List.mem_singleton_self e))
  obtain ⟨hpre, hpost⟩ := List.forall_mem_append.1 h
  rw [ofClauses, ofConditions, hjoin hpre, hjoin hpost]

theorem ofJson?_toJson {c : Contract} (hnormal : c.IsNormal)
    (hfloats : ∀ e ∈ c.conditions, e.FloatsReadBack) : ofJson? c.toJson = some c := by
  have hclauses := ofClauses_toList hnormal
  obtain ⟨hpre, hpost⟩ := List.forall_mem_append.1 hfloats
  obtain ⟨name, signature, pre, post⟩ := c
  by_cases hname : name = signature.name <;> cases pre <;> cases post <;>
    simp_all [ofJson?, toJson, clausesMember, Json.record?, Json.member?, Json.field?,
      Json.nullable?, Json.string?, Signature.ofJson?_toJson, list?_clause]

/-- What holds of the members of a contract, given or not, holds of its record. -/
theorem forall_mem_toJson {c : Contract} {P : String × Json → Prop}
    (hname : P ("name", .string c.name)) (hsignature : P ("signature", c.signature.toJson))
    (hrequires : P ("requires", .array (c.precondition.toList.map Expr.toJson)))
    (hensures : P ("ensures", .array (c.postcondition.toList.map Expr.toJson))) :
    ∃ members, c.toJson = .object members ∧ ∀ m ∈ members, P m := by
  have hclauses {name : String} {clauses : List Expr}
      (h : P (name, .array (clauses.map Expr.toJson))) : ∀ m ∈ clausesMember name clauses, P m := by
    unfold clausesMember
    split
    · exact List.forall_mem_nil _
    · exact List.forall_mem_singleton.2 h
  refine ⟨_, rfl, ?_⟩
  simp only [List.forall_mem_append]
  refine ⟨⟨⟨?_, List.forall_mem_singleton.2 hsignature⟩, hclauses hrequires⟩, hclauses hensures⟩
  split
  · exact List.forall_mem_nil _
  · exact List.forall_mem_singleton.2 hname

theorem covers_toJson (c : Contract) : shape.Covers c.toJson := by
  obtain ⟨members, hc, hmembers⟩ := @forall_mem_toJson c
    (fun m => ∃ inner, List.lookup m.1 [("name", Shape.all), ("signature", Signature.shape),
      ("requires", .all), ("ensures", .all)] = some inner ∧ inner.Covers m.2)
    ⟨_, rfl, .scalar rfl⟩ ⟨_, rfl, c.signature.covers_toJson⟩ ⟨_, rfl, Shape.covers_all _⟩
    ⟨_, rfl, Shape.covers_all _⟩
  rw [hc]
  exact Shape.covers_record hmembers

theorem readable_toJson {c : Contract} (hfloats : ∀ e ∈ c.conditions, e.FloatsReadBack) :
    c.toJson.Readable := by
  obtain ⟨hpre, hpost⟩ := List.forall_mem_append.1 hfloats
  have hclauses {clauses : List Expr} (h : ∀ e ∈ clauses, e.FloatsReadBack) :
      (Json.array (clauses.map Expr.toJson)).Readable :=
    .array (List.forall_mem_map.2 fun e he => (h e he).readable_toJson)
  obtain ⟨members, hc, hmembers⟩ := @forall_mem_toJson c (fun m => m.2.Readable) (.string _)
    c.signature.readable_toJson (hclauses hpre) (hclauses hpost)
  rw [hc]
  exact .object hmembers

/-- Around a condition are the list of clauses and the record of the contract. -/
theorem depth_toJson_le_iff (c : Contract) {depth : Nat} (hdepth : 4 ≤ depth) :
    c.toJson.depth ≤ depth ↔ ∀ e ∈ c.conditions, e.toJson.depth + 2 ≤ depth := by
  obtain ⟨name, signature, pre, post⟩ := c
  have hsignature := signature.depth_toJson_le
  by_cases hname : name = signature.name <;> cases pre <;> cases post <;>
    simp [toJson, conditions, clausesMember, hname, Json.depth, Json.depthMembers,
      Json.depthAll] <;> omega

end Contract

/-! ## Tables -/

namespace ContractTable

variable {t : ContractTable}

/-- A table as `load` gives it: names differ, and conditions are in normal form. -/
structure IsLoaded (t : ContractTable) : Prop where
  nodup : t.names.Nodup
  normal : ∀ c ∈ t.contracts, c.IsNormal

/-- The floats of all conditions are read from their texts. -/
def FloatsReadBack (t : ContractTable) : Prop :=
  ∀ c ∈ t.contracts, ∀ e ∈ c.conditions, e.FloatsReadBack

theorem isNormal_of_contractsOf? {j : Json} {contracts : List Contract}
    (h : contractsOf? j = some contracts) : ∀ c ∈ contracts, c.IsNormal := by
  obtain ⟨fields, -, h⟩ := Option.bind_eq_some_iff.1 h
  split at h
  · obtain ⟨js, -, hjs⟩ := Option.bind_eq_some_iff.1 h
    intro c hc
    obtain ⟨j, -, hj⟩ := Json.exists_of_mem_mapM hjs hc
    exact Contract.isNormal_of_ofJson? hj
  · cases h

theorem isLoaded_of_ofJson {j : Json} (h : ofJson j = .ok t) : t.IsLoaded := by
  unfold ofJson at h
  split at h
  · cases h
  · rename_i contracts hcontracts
    cases hlist : ofList contracts with
    | error cause => rw [hlist] at h; cases h
    | ok t' =>
      rw [hlist] at h
      cases h
      obtain ⟨hnodup, hheld⟩ := ofList_eq_ok_iff.1 hlist
      refine ⟨?_, ?_⟩
      · rwa [names, hheld]
      · rw [hheld]
        exact isNormal_of_contractsOf? hcontracts

theorem isLoaded_of_load {text : String} (h : load text = .ok t) : t.IsLoaded := by
  unfold load at h
  split at h
  · cases h
  · obtain ⟨t', ht, h⟩ := bind_eq_ok_iff.1 h
    split at h
    · cases h
      exact isLoaded_of_ofJson ht
    · cases h

theorem IsLoaded.ofJson_toJson (h : t.IsLoaded) (hfloats : t.FloatsReadBack) :
    ofJson t.toJson = .ok t := by
  have hcontracts : Json.list? Contract.ofJson? (.array (t.contracts.map Contract.toJson)) =
      some t.contracts :=
    Json.list?_map fun c hc => Contract.ofJson?_toJson (h.normal c hc) (hfloats c hc)
  have htable : ofList t.contracts = .ok t := ofList_eq_ok_iff.2 ⟨h.nodup, rfl⟩
  have hread : contractsOf? t.toJson = some t.contracts := by
    simp [contractsOf?, toJson, Json.record?, Json.member?, hcontracts]
  rw [ofJson, hread]
  exact congrArg (Except.mapError _) htable

theorem covers_toJson (t : ContractTable) : shape.Covers t.toJson := by
  refine Shape.covers_record (List.forall_mem_singleton.2 ⟨_, rfl, Shape.covers_list ?_⟩)
  exact List.forall_mem_map.2 fun c _ => c.covers_toJson

theorem FloatsReadBack.readable_toJson (h : t.FloatsReadBack) : t.toJson.Readable := by
  refine .object (List.forall_mem_singleton.2 (.array ?_))
  exact List.forall_mem_map.2 fun c hc => Contract.readable_toJson (h c hc)

/-- The greatest depth of a condition in the text of a table: four levels are around it. -/
def conditionDepthLimit : Nat := Tree.depthLimit - 4

/-- A table is as deep as its deepest condition makes it. -/
theorem depth_toJson_le_iff (t : ContractTable) :
    t.toJson.depth ≤ Tree.depthLimit ↔
      ∀ c ∈ t.contracts, ∀ e ∈ c.conditions, e.toJson.depth ≤ conditionDepthLimit := by
  have htable : t.toJson.depth = Json.depthAll (t.contracts.map Contract.toJson) + 2 := by
    simp [toJson, Json.depth, Json.depthMembers]
  have hlimit : Tree.depthLimit = 127 := rfl
  have hcontracts : Json.depthAll (t.contracts.map Contract.toJson) ≤ 125 ↔
      ∀ c ∈ t.contracts, c.toJson.depth ≤ 125 := by
    rw [Json.depthAll_le_iff, List.forall_mem_map]
  rw [htable, hlimit, show ∀ n, n + 2 ≤ 127 ↔ n ≤ 125 from fun n => by omega, hcontracts]
  refine forall₂_congr fun c _ => (c.depth_toJson_le_iff (by decide)).trans ?_
  refine forall₂_congr fun e _ => ?_
  rw [conditionDepthLimit, hlimit]
  omega

/-- A written table is loaded as its value says, unless it nests too deep. -/
theorem load_pretty {j : Json} (hreadable : j.Readable) (hcovers : shape.Covers j) :
    load j.pretty = if j.depth ≤ Tree.depthLimit then ofJson j else .error .malformed := by
  have hread := hreadable.readFirst?_pretty hcovers
  unfold load
  by_cases hdepth : j.depth ≤ Tree.depthLimit
  · rw [if_pos hdepth] at hread
    simp [hread, hdepth]
  · rw [if_neg hdepth] at hread
    rw [hread, if_neg hdepth]

/-- A loaded table is saved so that it can be loaded again, unless a condition nests too deep. -/
theorem IsLoaded.load_eq (h : t.IsLoaded) (hfloats : t.FloatsReadBack) :
    load t.save =
      if ∀ c ∈ t.contracts, ∀ e ∈ c.conditions, e.toJson.depth ≤ conditionDepthLimit then .ok t
      else .error .malformed := by
  rw [save, load_pretty hfloats.readable_toJson t.covers_toJson, h.ofJson_toJson hfloats]
  exact if_congr t.depth_toJson_le_iff rfl rfl

/-- A table that was loaded can be saved and loaded again, unless a condition nests too deep. -/
theorem load_save {text : String} (h : load text = .ok t) (hfloats : t.FloatsReadBack) :
    load t.save =
      if ∀ c ∈ t.contracts, ∀ e ∈ c.conditions, e.toJson.depth ≤ conditionDepthLimit then .ok t
      else .error .malformed :=
  (isLoaded_of_load h).load_eq hfloats

/-- A table in which `halve` has the clauses `n > 0` and `n < 9`, each of them apart. -/
def halveClauses : Json :=
  .object [("functions", .array [.object
    [("signature", (Signature.mk "halve" [⟨"n", "int"⟩] "int").toJson),
     ("requires", .array
      [(Expr.binary .greater (.var "n") (.int 0)).toJson,
       (Expr.binary .less (.var "n") (.int 9)).toJson])]])]

/-- The table that is read from the text of `halveClauses`. -/
def halveTable : ContractTable where
  contracts :=
    [{ name := "halve"
       signature := ⟨"halve", [⟨"n", "int"⟩], "int"⟩
       precondition := some (.binary .and (.binary .greater (.var "n") (.int 0))
         (.binary .less (.var "n") (.int 9)))
       postcondition := none }]

theorem halve_load_save :
    load halveClauses.pretty = .ok halveTable ∧ load halveTable.save = .ok halveTable := by
  have hclause (op : BinaryOp) (n : Int64) :
      (Expr.binary op (.var "n") (.int n)).FloatsReadBack := by
    intro x hx
    simp [Expr.subterms, Expr.int] at hx
  have hreadable : halveClauses.Readable := by
    simp [halveClauses, Signature.readable_toJson, (hclause _ _).readable_toJson]
  have hcovers : shape.Covers halveClauses := by
    refine Shape.covers_record (List.forall_mem_singleton.2
      ⟨_, rfl, Shape.covers_list (List.forall_mem_singleton.2 (Shape.covers_record ?_))⟩)
    simp only [List.forall_mem_cons]
    exact ⟨⟨_, rfl, Signature.covers_toJson _⟩, ⟨_, rfl, Shape.covers_all _⟩,
      List.forall_mem_nil _⟩
  have h : load halveClauses.pretty = .ok halveTable := by
    rw [load_pretty hreadable hcovers, if_pos (by decide +kernel)]
    rfl
  have hfloats : halveTable.FloatsReadBack := by
    intro c hc e he x hx
    obtain rfl := List.mem_singleton.1 hc
    obtain rfl := List.mem_singleton.1 he
    simp [Expr.subterms, Expr.int] at hx
  refine ⟨h, (load_save h hfloats).trans (if_pos fun c hc e he => ?_)⟩
  obtain rfl := List.mem_singleton.1 hc
  obtain rfl := List.mem_singleton.1 he
  decide +kernel

/-! ## Many clauses -/

/-- A condition nests as deep as it has clauses. -/
theorem length_le_depth {clauses : List Expr} {e : Expr}
    (h : (Expr.conjunction? clauses).map Expr.normalForm = some e) :
    clauses.length ≤ e.toJson.depth := by
  cases clauses with
  | nil => cases h
  | cons first rest =>
    cases h
    have hdepth := Expr.add_length_le_depth_foldl .and first.normalForm (rest.map Expr.normalForm)
    have hpos := first.normalForm.depth_toJson_pos
    rw [Expr.normalForm_foldl, List.length_cons]
    rw [List.length_map] at hdepth
    omega

/-- More clauses than a condition may nest deep are lost when they are saved. -/
theorem not_loaded_of_many_clauses {name : String} {signature : Signature}
    {requires ensures : List Expr} (h : t.IsLoaded) (hfloats : t.FloatsReadBack)
    (hc : .ofClauses name signature requires ensures ∈ t.contracts)
    (hmany : conditionDepthLimit < requires.length ∨ conditionDepthLimit < ensures.length) :
    load t.save = .error .malformed := by
  rw [h.load_eq hfloats]
  refine if_neg fun hshallow => ?_
  have hconditions := List.forall_mem_append.1 (hshallow _ hc)
  -- the conjunction of the longer list is a condition of the contract, and deeper than the limit
  have hlist {clauses : List Expr}
      (hdepth : ∀ e ∈ ((Expr.conjunction? clauses).map Expr.normalForm).toList,
        e.toJson.depth ≤ conditionDepthLimit) : clauses.length ≤ conditionDepthLimit := by
    cases hjoined : (Expr.conjunction? clauses).map Expr.normalForm with
    | none =>
      cases clauses with
      | nil => exact Nat.zero_le _
      | cons first rest => cases hjoined
    | some e =>
      rw [hjoined] at hdepth
      exact Nat.le_trans (length_le_depth hjoined) (hdepth e (List.mem_singleton_self e))
  rcases hmany with hmany | hmany
  · exact absurd (hlist hconditions.1) (Nat.not_le_of_lt hmany)
  · exact absurd (hlist hconditions.2) (Nat.not_le_of_lt hmany)

end ContractTable

end ContractTests
