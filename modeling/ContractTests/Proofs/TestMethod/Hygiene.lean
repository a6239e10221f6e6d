import ContractTests.Proofs.TestMethod.Writes
import ContractTests.TestClass.Sharing

/-! # The names of a test method

A test method declares its parameters, containers, snapshots and perhaps a variable for the result
(`Contract.declared_testMethod`). Containers, snapshots and result have different names in every
test, and the result is no parameter, but the names of containers and snapshots are made without a
look at the names in use. `Contract.hygienic_iff` says what keeps them apart: no parameter and no
variable of a condition has such a name.
-/

set_option autoImplicit false

namespace ContractTests.Contract

variable {c : Contract} {options : ClassOptions} {test : TestMethod}

/-! ## Declared names -/

def containerNames (c : Contract) : List String :=
  (c.parameters.filter c.isContained).map fun p => containerName p.name

def snapshotNames (c : Contract) : List String := c.snapshotted.map fun p => snapshotName p.name

/-- The names that are made for containers and snapshots. -/
def introduced (c : Contract) : List String := c.containerNames ++ c.snapshotNames

/-- The variables of the conditions, plain or under post-state. -/
def conditionVariables (c : Contract) : List String :=
  [c.precondition, c.postcondition].flatMap fun condition? =>
    (condition?.map Expr.mentioned).getD []

theorem declared?_of_not_writes {s : Stmt} (h : s.writes = false) : s.declared? = none := by
  cases s with
  | input => cases h
  | declare => cases h
  | _ => rfl

theorem filterMap_declared_inputs (c : Contract) :
    c.inputs.filterMap Stmt.declared? = c.signature.parameterNames ++ c.containerNames := by
  rw [inputs, List.filterMap_append, List.filterMap_map, List.filterMap_map]
  exact congrArg₂ (· ++ ·) (congrFun List.filterMap_eq_map c.parameters)
    (congrFun List.filterMap_eq_map (c.parameters.filter c.isContained))

theorem filterMap_declared_snapshotDeclarations (c : Contract) :
    c.snapshotDeclarations.filterMap Stmt.declared? = c.snapshotNames := by
  rw [snapshotDeclarations, List.filterMap_map]
  exact congrFun List.filterMap_eq_map c.snapshotted

theorem filterMap_declared_writeBacks (c : Contract) :
    c.writeBacks.filterMap Stmt.declared? = [] :=
  List.filterMap_eq_nil_iff.2 (List.forall_mem_map.2 fun _ _ => rfl)

theorem declared_testMethod (h : c.testMethod options = .ok test) :
    Stmt.declared test.body =
      c.signature.parameterNames ++ (c.introduced ++ c.declaredResult?.toList) := by
  have hwrites : ∀ s : Stmt, s.writes = false → s.declared? = none :=
    fun _ => declared?_of_not_writes
  obtain ⟨call, hcall⟩ := exists_isCallStatement c options
  rw [Stmt.declared, ← Stmt.filterMap_filter_writes hwrites, filter_writes_testMethod h hcall,
    ← List.singleton_append (l := c.writeBacks), ← List.append_assoc (c.invocation options).before]
  simp only [List.filterMap_append, Stmt.filterMap_filter_writes hwrites, filterMap_declared_inputs,
    filterMap_declared_snapshotDeclarations, filterMap_declared_writeBacks]
  rw [← List.filterMap_append, hcall.declared, introduced, List.append_nil, List.append_assoc,
    List.append_assoc]

/-! ## Names that differ -/

theorem eq_resultName_of_mem {name : String} (h : name ∈ c.declaredResult?.toList) :
    name = c.resultName := by
  unfold declaredResult? at h
  split at h
  · exact List.mem_singleton.1 h
  · cases h

theorem nodup_containerNames (h : c.signature.parameterNames.Nodup) : c.containerNames.Nodup := by
  have hnames : ((c.parameters.filter c.isContained).map (·.name)).Nodup :=
    (List.filter_sublist.map _).nodup h
  have hcontainers := hnames.map fun _ _ => containerName_inj.1
  rwa [List.map_map] at hcontainers

/-- The variables of a condition are listed once, and each has at most one snapshot. -/
theorem nodup_snapshotNames (c : Contract) : c.snapshotNames.Nodup := by
  unfold snapshotNames snapshotted
  split
  · exact List.nodup_nil
  · rename_i post _
    rw [List.map_filterMap]
    refine List.Nodup.filterMap ?_ ((nodup_eraseDups _).filter _)
    intro first second snapshot hfirst hsecond
    obtain ⟨p, hp, rfl⟩ := Option.map_eq_some_iff.1 hfirst
    obtain ⟨q, hq, heq⟩ := Option.map_eq_some_iff.1 hsecond
    have hpname : p.name = first := by simpa using List.find?_some hp
    have hqname : q.name = second := by simpa using List.find?_some hq
    rw [← hpname, ← hqname]
    exact (snapshotName_inj.1 heq).symm

/-- What the test makes up has different names. -/
theorem nodup_introduced (h : c.signature.parameterNames.Nodup) :
    (c.introduced ++ c.declaredResult?.toList).Nodup := by
  have hresult : c.declaredResult?.toList.Nodup := by
    cases c.declaredResult? with
    | none => exact List.nodup_nil
    | some name => exact List.nodup_singleton name
  rw [introduced, List.nodup_append, List.nodup_append]
  refine ⟨⟨nodup_containerNames h, c.nodup_snapshotNames, ?apart⟩, hresult, ?result⟩
  case apart =>
    intro container hcontainer snapshot hsnapshot
    obtain ⟨p, -, rfl⟩ := List.mem_map.1 hcontainer
    obtain ⟨q, -, rfl⟩ := List.mem_map.1 hsnapshot
    exact (snapshotName_ne_containerName q.name p.name).symm
  case result =>
    intro name hname other hother
    rw [eq_resultName_of_mem hother]
    rcases List.mem_append.1 hname with hname | hname
    · obtain ⟨p, -, rfl⟩ := List.mem_map.1 hname
      exact c.containerName_ne_resultName p.name
    · obtain ⟨p, -, rfl⟩ := List.mem_map.1 hname
      exact c.snapshotName_ne_resultName p.name

/-- Parameters keep apart from what the test makes up when they do so from containers and snapshots.
-/
theorem nodup_declared_iff (h : c.testMethod options = .ok test)
    (hparameters : c.signature.parameterNames.Nodup) :
    (Stmt.declared test.body).Nodup ↔ ∀ name ∈ c.introduced, name ∉ c.signature.parameterNames := by
  rw [declared_testMethod h, List.nodup_append]
  constructor
  · rintro ⟨-, -, hapart⟩ name hname hparameter
    exact hapart name hparameter name (List.mem_append_left _ hname) rfl
  · intro hnew
    refine ⟨hparameters, nodup_introduced hparameters, ?_⟩
    rintro name hparameter _ hmade rfl
    rcases List.mem_append.1 hmade with hmade | hmade
    · exact hnew name hmade hparameter
    · rw [eq_resultName_of_mem hmade] at hparameter
      exact c.resultName_not_mem hparameter

/-! ## Hygiene -/

/-- No variable is declared twice, and no variable of a condition is taken for a container or
snapshot. -/
structure Hygienic (c : Contract) (body : List Stmt) : Prop where
  nodup : (Stmt.declared body).Nodup
  uncaptured : ∀ name ∈ c.conditionVariables, name ∉ c.signature.parameterNames →
    name ∉ c.introduced

/-- A test method declares its parameters, its containers and snapshots and perhaps its result. That
is hygienic exactly when no container and no snapshot has the name of a parameter or of a variable of
a condition. -/
theorem hygienic_iff (h : c.testMethod options = .ok test)
    (hparameters : c.signature.parameterNames.Nodup) :
    Stmt.declared test.body =
        c.signature.parameterNames ++ (c.introduced ++ c.declaredResult?.toList) ∧
      (c.Hygienic test.body ↔ ∀ name ∈ c.introduced,
        name ∉ c.signature.parameterNames ∧ name ∉ c.conditionVariables) := by
  refine ⟨declared_testMethod h, ?_⟩
  have hnodup := nodup_declared_iff h hparameters
  constructor
  · rintro ⟨hdeclared, huncaptured⟩ name hname
    have hnew := hnodup.1 hdeclared name hname
    exact ⟨hnew, fun hvariable => huncaptured name hvariable hnew hname⟩
  · intro hapart
    refine ⟨hnodup.2 fun name hname => (hapart name hname).1, ?_⟩
    exact fun name hvariable _ hname => (hapart name hname).2 hvariable

/-- The contract of `int scale(int result, Set<Integer> data)` with the precondition `result[0] > 0`
and the postcondition `'(data).contains(result * rate)`. -/
def scale : Contract where
  name := "scale"
  signature := ⟨"scale", [⟨"result", "int"⟩, ⟨"data", "Set<Integer>"⟩], "int"⟩
  precondition := some (.binary .greater (.index (.var "result") (.int 0)) (.int 0))
  postcondition := some
    (.send (.postState "data") "contains" [.binary .times (.var "result") (.var "rate")])

/-- The contract of `int raise(int x, int x_old)` with the postcondition `'(x) > x`. -/
def raise : Contract where
  name := "raise"
  signature := ⟨"raise", [⟨"x", "int"⟩, ⟨"x_old", "int"⟩], "int"⟩
  precondition := none
  postcondition := some (.binary .greater (.postState "x") (.var "x"))

theorem scale_hygienic_raise_not :
    (∃ test, scale.testMethod {} = .ok test ∧ scale.signature.parameterNames.Nodup ∧
      Stmt.declared test.body =
        ["result", "data", "resultRef", "data_old", "result_old", "result_1"] ∧
      scale.Hygienic test.body) ∧
    ∃ test, raise.testMethod {} = .ok test ∧ raise.signature.parameterNames.Nodup ∧
      Stmt.declared test.body = ["x", "x_old", "x_old"] ∧ ¬raise.Hygienic test.body := by
  obtain ⟨scaled, hscaled⟩ : ∃ test, scale.testMethod {} = .ok test := ⟨_, rfl⟩
  obtain ⟨raised, hraised⟩ : ∃ test, raise.testMethod {} = .ok test := ⟨_, rfl⟩
  have hscale : scale.signature.parameterNames.Nodup := by decide
  have hraise : raise.signature.parameterNames.Nodup := by decide
  obtain ⟨hdeclared, hapart⟩ := hygienic_iff hscaled hscale
  obtain ⟨hdeclared', hapart'⟩ := hygienic_iff hraised hraise
  refine ⟨⟨scaled, hscaled, hscale, hdeclared, hapart.2 (by decide)⟩, raised, hraised, hraise,
    hdeclared', fun hhygienic => ?_⟩
  have hclash : "x_old" ∈ raise.introduced := by decide
  exact (hapart'.1 hhygienic "x_old" hclash).1 (by decide)

end ContractTests.Contract
