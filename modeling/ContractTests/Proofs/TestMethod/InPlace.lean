import ContractTests.Proofs.TestMethod.Writes

/-! # Parameters passed in place

`Contract.PassedInPlace` is what makes a change of a primitive parameter visible: the parameter is
put into a container, the call gets the container, and the element is written back before the
assertion. `Contract.passedInPlace_of_primitive` says for which parameters a test method does this:
those that a condition accesses by index, and in a function that returns nothing the first parameter
under post-state. A later parameter under post-state is passed by value, even when the first one is
not primitive.
-/

set_option autoImplicit false

namespace ContractTests

namespace Stmt

/-- The value that a statement assigns to the variable. -/
def assigned? (name : String) : Stmt → Option Expr
  | .assign target value => if target == name then some value else none
  | _ => none

/-- The body is `before`, then `block`, on its own or under a condition, and then `after`. -/
inductive Encloses (before block after : List Stmt) : List Stmt → Prop
  | plain : Encloses before block after (before ++ (block ++ after))
  | guarded (condition : Expr) :
      Encloses before block after (before ++ (.whenever condition block false :: after))

end Stmt

namespace Contract

open Stmt (nestedAll nested)

variable {c : Contract} {options : ClassOptions} {test : TestMethod} {p : Parameter}

/-- The element of a parameter's container. -/
def element (name : String) : Expr := .index (.var (containerName name)) (.int 0)

/-- The parameter is declared as a container before the call, the call `call` has the container in
its place, and after it, in the same block, the element is assigned to the parameter, which is
assigned nothing else. All assertions are in `after`. -/
structure PassesInPlace (c : Contract) (options : ClassOptions) (p : Parameter)
    (before : List Stmt) (call : Stmt) (later after body : List Stmt) : Prop where
  encloses : Stmt.Encloses before (call :: later) after body
  declared :
    .declare (p.type ++ "[]") (containerName p.name) (.create (p.type ++ "[]") [.var p.name]) ∈ before
  passed : ∃ args,
    call.evaluated? = some (.send (.var options.targetClass) c.signature.name args) ∧
      args.length = c.parameters.length ∧
      ∀ i : Nat, c.parameters[i]? = some p → args[i]? = some (.var (containerName p.name))
  writtenBack : .assign p.name (element p.name) ∈ later
  once : (nestedAll body).filterMap (Stmt.assigned? p.name) = [element p.name]
  unchecked : ∀ s ∈ nestedAll before ++ nestedAll (call :: later), ∀ condition,
    s ≠ .assert condition

/-- The body passes the parameter in place. -/
def PassedInPlace (c : Contract) (options : ClassOptions) (p : Parameter) (body : List Stmt) :
    Prop :=
  ∃ before call later after, PassesInPlace c options p before call later after body

/-! ## Which parameters are passed in containers -/

/-- A condition accesses the variable by index. -/
def IsIndexed (c : Contract) (name : String) : Prop :=
  ∃ condition ∈ c.precondition.toList ++ c.postcondition.toList, ∃ base position,
    .index base position ∈ condition.subterms ∧ base.mentioned? = some name

/-- The postcondition has the variable under post-state. -/
def IsUnderPostState (c : Contract) (name : String) : Prop :=
  ∃ post, c.postcondition = some post ∧ .postState name ∈ post.subterms

/-- Of the parameters under post-state the parameter is the first one. -/
def IsFirstUnderPostState (c : Contract) (p : Parameter) : Prop :=
  c.IsUnderPostState p.name ∧
    ∃ earlier later, c.parameters = earlier ++ p :: later ∧
      ∀ q ∈ earlier, ¬c.IsUnderPostState q.name

theorem mem_indexed_iff {names : List String} {name : String} {e : Expr} :
    name ∈ Expr.indexed names e ↔ name ∈ names ∧ ∃ base position,
      .index base position ∈ e.subterms ∧ base.mentioned? = some name := by
  rw [Expr.indexed, List.mem_eraseDups, List.mem_filter, List.mem_filterMap, List.contains_iff_mem,
    and_comm]
  refine and_congr_right fun _ => ⟨?_, ?_⟩
  · rintro ⟨node, hnode, hname⟩
    cases node with
    | index base position => exact ⟨base, position, hnode, hname⟩
    | _ => cases hname
  · rintro ⟨base, position, hnode, hname⟩
    exact ⟨_, hnode, hname⟩

theorem mem_indexed_parameter_iff (hp : p ∈ c.parameters) :
    p.name ∈ c.indexed ↔ c.IsIndexed p.name := by
  have hname := mem_parameterNames hp
  unfold indexed IsIndexed
  cases c.precondition <;> cases c.postcondition <;> simp [mem_indexed_iff, hname]

theorem mem_postStates_iff {name : String} {e : Expr} :
    name ∈ e.postStates ↔ .postState name ∈ e.subterms := by
  rw [Expr.postStates, List.mem_eraseDups, List.mem_filterMap]
  constructor
  · rintro ⟨node, hnode, hname⟩
    cases node with
    | postState other => cases hname; exact hnode
    | _ => cases hname
  · exact fun hnode => ⟨_, hnode, rfl⟩

/-- The parameter that is looked for first is the first one under post-state. -/
theorem find_observed_iff {name : String} :
    c.postcondition.bind (Expr.observed? c.signature.parameterNames) = some name ↔
      c.IsUnderPostState name ∧ ∃ earlier later,
        c.signature.parameterNames = earlier ++ name :: later ∧
          ∀ other ∈ earlier, ¬c.IsUnderPostState other := by
  cases hpost : c.postcondition with
  | none => simp [IsUnderPostState, hpost]
  | some post =>
    have hunder (other : String) : c.IsUnderPostState other ↔ other ∈ post.postStates := by
      simp [IsUnderPostState, hpost, mem_postStates_iff]
    simp only [Option.bind_some, Expr.observed?, List.find?_eq_some_iff_append, hunder,
      List.contains_eq_mem, decide_eq_true_eq, Bool.not_eq_true', decide_eq_false_iff_not]

theorem observed?_of_first (hprimitive : p.category = .primitive) (h : c.IsFirstUnderPostState p) :
    c.observed? = some p.name := by
  obtain ⟨hunder, earlier, later, hparameters, hearlier⟩ := h
  rw [observed?, Option.filter_eq_some_iff]
  constructor
  · refine find_observed_iff.2 ⟨hunder, earlier.map (·.name), later.map (·.name), ?_, ?_⟩
    · rw [Signature.parameterNames, ← List.map_cons, ← List.map_append]
      exact congrArg _ hparameters
    · exact List.forall_mem_map.2 hearlier
  · -- an earlier parameter of the name would be under post-state, too
    have hfind : c.signature.parameter? p.name = some p := by
      rw [Signature.parameter?, List.find?_eq_some_iff_append]
      refine ⟨beq_self_eq_true _, earlier, later, hparameters, fun q hq => ?_⟩
      rw [Bool.not_eq_true', beq_eq_false_iff_ne]
      exact fun heq => hearlier q hq (heq ▸ hunder)
    rw [categoryOf?, hfind, Option.map_some, Parameter.category] at *
    exact beq_iff_eq.2 (congrArg some hprimitive)

theorem first_of_observed? (hnames : c.signature.parameterNames.Nodup) (hp : p ∈ c.parameters)
    (h : c.observed? = some p.name) : c.IsFirstUnderPostState p := by
  obtain ⟨hunder, earlier, later, hsplit, hearlier⟩ :=
    find_observed_iff.1 (Option.filter_eq_some_iff.1 h).1
  obtain ⟨first, rest, hparameters, rfl, hrest⟩ := List.map_eq_append_iff.1 hsplit
  obtain ⟨q, last, rfl, hname, -⟩ := List.map_eq_cons_iff.1 hrest
  have hq : q ∈ c.parameters := by
    rw [parameters, hparameters]
    exact List.mem_append_right _ List.mem_cons_self
  obtain rfl : q = p := List.inj_on_of_nodup_map hnames hq hp hname
  refine ⟨hunder, first, last, hparameters, fun r hr => ?_⟩
  exact hearlier r.name (List.mem_map_of_mem hr)

theorem isContained_iff (hp : p ∈ c.parameters) (hprimitive : p.category = .primitive) :
    c.isContained p = true ↔
      c.IsIndexed p.name ∨ (c.signature.returnsVoid = true ∧ c.observed? = some p.name) := by
  rw [isContained, hprimitive, beq_self_eq_true, Bool.true_and, Bool.or_eq_true, Bool.and_eq_true,
    List.contains_iff_mem, mem_indexed_parameter_iff hp, beq_iff_eq]

/-- Primitive parameters of one name are passed in the same way. -/
theorem mem_contained_iff_isContained (hp : p ∈ c.parameters)
    (hprimitive : p.category = .primitive) :
    p.name ∈ c.contained ↔ c.isContained p = true := by
  rw [mem_contained_iff_exists]
  constructor
  · rintro ⟨q, hq, hcontained, hname⟩
    have hcategory : q.category = .primitive := by
      rw [isContained, Bool.and_eq_true] at hcontained
      exact beq_iff_eq.1 hcontained.1
    rw [isContained_iff hq hcategory, hname] at hcontained
    exact (isContained_iff hp hprimitive).2 hcontained
  · exact fun hcontained => ⟨p, hp, hcontained, rfl⟩

/-! ## The call site -/

/-- The call and the write-backs stand in one block, after the inputs and before the assertion. -/
theorem exists_encloses (h : c.testMethod options = .ok test) {call : Stmt}
    (hcall : IsCallStatement c options call) :
    ∃ before after, Stmt.Encloses before (call :: c.writeBacks) after test.body ∧
      (∀ s ∈ c.inputs, s ∈ before) ∧
      ∀ s ∈ nestedAll before, ∀ condition, s ≠ .assert condition := by
  obtain ⟨assumption, checks, -, -, hbody⟩ := testMethod_eq_ok h
  have hblock : (c.invocation options).block ++ c.writeBacks = call :: c.writeBacks := by
    rw [hcall.block, List.singleton_append]
  refine ⟨c.inputs ++ ([.assume assumption] ++ (c.snapshotDeclarations ++ (c.nullGuard ++
    (c.echoes options ++ (c.invocation options).before)))), checks, ?encloses, ?inputs, ?unchecked⟩
  case encloses =>
    rw [hbody, callStatements, hblock]
    cases Expr.conjunction? (c.nullable.map (nullTest .notEqual)) with
    | none =>
      convert Stmt.Encloses.plain using 1
      simp only [List.append_assoc, List.cons_append, List.nil_append]
    | some allPresent =>
      convert Stmt.Encloses.guarded allPresent using 1
      simp only [List.append_assoc, List.cons_append, List.nil_append]
  case inputs => exact fun s hs => List.mem_append_left _ hs
  case unchecked =>
    have hassume : nestedAll [.assume assumption] = [.assume assumption] :=
      Stmt.nestedAll_of_flat (List.forall_mem_singleton.2 (by simp only [nested]))
    intro s hs
    simp only [Stmt.nestedAll_append, nestedAll_inputs, hassume, nestedAll_snapshotDeclarations,
      nestedAll_nullGuard, nestedAll_echoes, hcall.nestedAll_before, List.mem_append] at hs
    rcases hs with hs | hs | hs | hs | hs | hs
    · rcases List.mem_append.1 hs with hs | hs
      · obtain ⟨_, -, rfl⟩ := List.mem_map.1 hs
        rintro _ ⟨⟩
      · obtain ⟨_, -, rfl⟩ := List.mem_map.1 hs
        rintro _ ⟨⟩
    · obtain rfl := List.mem_singleton.1 hs
      rintro _ ⟨⟩
    · obtain ⟨_, -, rfl⟩ := List.mem_map.1 hs
      rintro _ ⟨⟩
    · rcases mem_nullGuard hs with ⟨_, rfl⟩ | ⟨_, rfl⟩
      · rintro _ ⟨⟩
      · rintro _ ⟨⟩
    · obtain ⟨_, rfl⟩ := mem_echoes hs
      rintro _ ⟨⟩
    · obtain ⟨_, _, rfl⟩ := hcall.before s hs
      rintro _ ⟨⟩

/-! ## Assignments -/

theorem assigned?_of_not_writes {name : String} {s : Stmt} (h : s.writes = false) :
    s.assigned? name = none := by
  cases s with
  | assign => cases h
  | _ => rfl

theorem filterMap_assigned_writeBacks (c : Contract) (name : String) :
    c.writeBacks.filterMap (Stmt.assigned? name) =
      (c.contained.filter (· == name)).map element := by
  rw [writeBacks, List.filterMap_map]
  induction c.contained with
  | nil => rfl
  | cons other rest ih =>
    rw [List.filterMap_cons, List.filter_cons, ih, Function.comp_apply, Stmt.assigned?]
    cases other == name <;> rfl

/-- A variable is assigned the result of the call or the element of its container. -/
theorem filterMap_assigned_testMethod (h : c.testMethod options = .ok test) {call : Stmt}
    (hcall : IsCallStatement c options call) (name : String) :
    (nestedAll test.body).filterMap (Stmt.assigned? name) =
      (call.assigned? name).toList ++ (c.contained.filter (· == name)).map element := by
  have hwrites : ∀ s : Stmt, s.writes = false → s.assigned? name = none :=
    fun _ => assigned?_of_not_writes
  have hinputs : c.inputs.filterMap (Stmt.assigned? name) = [] := by
    rw [List.filterMap_eq_nil_iff, inputs, List.forall_mem_append]
    exact ⟨List.forall_mem_map.2 fun _ _ => rfl, List.forall_mem_map.2 fun _ _ => rfl⟩
  have hsnapshots : c.snapshotDeclarations.filterMap (Stmt.assigned? name) = [] :=
    List.filterMap_eq_nil_iff.2 (List.forall_mem_map.2 fun _ _ => rfl)
  have hbefore : (c.invocation options).before.filterMap (Stmt.assigned? name) = [] := by
    rw [List.filterMap_eq_nil_iff]
    intro s hs
    obtain ⟨type, init, rfl⟩ := hcall.before s hs
    rfl
  have hone : [call].filterMap (Stmt.assigned? name) = (call.assigned? name).toList := by
    cases hcall : call.assigned? name with
    | none => simp [hcall]
    | some value => simp [hcall]
  rw [← Stmt.filterMap_filter_writes hwrites, filter_writes_testMethod h hcall,
    ← List.singleton_append (l := c.writeBacks)]
  simp only [List.filterMap_append, Stmt.filterMap_filter_writes hwrites, hinputs, hsnapshots,
    hbefore, hone, filterMap_assigned_writeBacks, List.nil_append]

theorem filter_contained {name : String} (h : name ∈ c.contained) :
    c.contained.filter (· == name) = [name] := by
  have hnodup : c.contained.Nodup := nodup_eraseDups _
  rw [List.filter_beq, List.count_eq_one_of_mem hnodup h, List.replicate_one]

/-- The call gives its result to no parameter passed in a container. -/
theorem IsCallStatement.assigned?_eq_none {call : Stmt} (h : IsCallStatement c options call)
    {name : String} (hname : name ∈ c.contained) : call.assigned? name = none := by
  cases call with
  | assign target value =>
    rw [Stmt.assigned?, if_neg]
    rw [beq_iff_eq]
    rintro rfl
    exact h.assigned target value rfl hname
  | _ => rfl

/-- What the call assigns is no element. -/
theorem IsCallStatement.assigned?_ne_element {call : Stmt} (h : IsCallStatement c options call)
    (name : String) : call.assigned? name ≠ some (element name) := by
  have hevaluated := h.evaluated
  cases call with
  | assign target value =>
    cases hevaluated
    rw [Stmt.assigned?]
    split
    · simp [testedCall, element]
    · exact (Option.some_ne_none _).symm
  | _ => rintro ⟨⟩

/-! ## Passing in place -/

theorem getElem?_testedCall_args (c : Contract) {i : Nat} (hp : c.parameters[i]? = some p)
    (hcontained : p.name ∈ c.contained) :
    (c.parameters.map fun p => Expr.var (c.passed p))[i]? = some (.var (containerName p.name)) := by
  rw [List.getElem?_map, hp, Option.map_some, passed, if_pos (List.contains_iff_mem.2 hcontained)]

theorem passedInPlace_of_mem_contained (h : c.testMethod options = .ok test) (hp : p ∈ c.parameters)
    (hprimitive : p.category = .primitive) (hcontained : p.name ∈ c.contained) :
    PassedInPlace c options p test.body := by
  obtain ⟨call, hcall⟩ := exists_isCallStatement c options
  obtain ⟨before, after, hencloses, hinputs, hunchecked⟩ := exists_encloses h hcall
  refine ⟨before, call, c.writeBacks, after, hencloses, hinputs _ ?declared, ?passed, ?writtenBack,
    ?once, ?unchecked⟩
  case declared =>
    have hmem := (mem_contained_iff_isContained hp hprimitive).1 hcontained
    exact List.mem_append_right _ (List.mem_map_of_mem (List.mem_filter.2 ⟨hp, hmem⟩))
  case passed =>
    refine ⟨c.parameters.map fun p => .var (c.passed p), hcall.evaluated, List.length_map _, ?_⟩
    exact fun i hi => c.getElem?_testedCall_args hi hcontained
  case writtenBack => exact List.mem_map_of_mem hcontained
  case once =>
    rw [filterMap_assigned_testMethod h hcall, hcall.assigned?_eq_none hcontained,
      filter_contained hcontained]
    rfl
  case unchecked =>
    intro s hs
    rcases List.mem_append.1 hs with hs | hs
    · exact hunchecked s hs
    · rw [← List.singleton_append, ← hcall.block, hcall.nestedAll_block] at hs
      rcases List.mem_cons.1 hs with rfl | hs
      · rintro condition rfl
        cases hcall.evaluated
      · obtain ⟨name, -, rfl⟩ := List.mem_map.1 hs
        nofun

theorem mem_contained_of_passedInPlace (h : c.testMethod options = .ok test)
    (hpassed : PassedInPlace c options p test.body) : p.name ∈ c.contained := by
  obtain ⟨before, call', later, after, hpassed⟩ := hpassed
  obtain ⟨call, hcall⟩ := exists_isCallStatement c options
  have hmem : element p.name ∈ (nestedAll test.body).filterMap (Stmt.assigned? p.name) := by
    rw [hpassed.once]
    exact List.mem_singleton_self _
  rw [filterMap_assigned_testMethod h hcall, List.mem_append, Option.mem_toList] at hmem
  rcases hmem with hmem | hmem
  · exact absurd hmem (hcall.assigned?_ne_element p.name)
  · obtain ⟨name, hname, -⟩ := List.mem_map.1 hmem
    obtain ⟨hcontained, heq⟩ := List.mem_filter.1 hname
    exact beq_iff_eq.1 heq ▸ hcontained

/-- A primitive parameter is passed in place exactly when it is passed in a container. -/
theorem passedInPlace_iff (h : c.testMethod options = .ok test) (hp : p ∈ c.parameters)
    (hprimitive : p.category = .primitive) :
    PassedInPlace c options p test.body ↔
      c.IsIndexed p.name ∨ (c.signature.returnsVoid = true ∧ c.observed? = some p.name) := by
  rw [← isContained_iff hp hprimitive, ← mem_contained_iff_isContained hp hprimitive]
  exact ⟨mem_contained_of_passedInPlace h, passedInPlace_of_mem_contained h hp hprimitive⟩

/-- A primitive parameter is passed in place when a condition accesses it by index. Without an index
access it is passed in place only in a function that returns nothing, and there it has to be the
first parameter under post-state. -/
theorem passedInPlace_of_primitive (h : c.testMethod options = .ok test) (hp : p ∈ c.parameters)
    (hprimitive : p.category = .primitive) :
    (c.IsIndexed p.name → PassedInPlace c options p test.body) ∧
      (c.signature.parameterNames.Nodup → (PassedInPlace c options p test.body ↔
        c.IsIndexed p.name ∨ (c.signature.returnsVoid = true ∧ c.IsFirstUnderPostState p))) := by
  rw [passedInPlace_iff h hp hprimitive]
  refine ⟨.inl, fun hnames => or_congr_right (and_congr_right fun _ => ⟨?_, ?_⟩)⟩
  · exact first_of_observed? hnames hp
  · exact observed?_of_first hprimitive

/-- The contract of `void settle(int x, int y, int z)` with the precondition `z[0] > 0` and the
postcondition `'(x) > '(y)`. -/
def settle : Contract where
  name := "settle"
  signature := ⟨"settle", [⟨"x", "int"⟩, ⟨"y", "int"⟩, ⟨"z", "int"⟩], "void"⟩
  precondition := some (.binary .greater (.index (.var "z") (.int 0)) (.int 0))
  postcondition := some (.binary .greater (.postState "x") (.postState "y"))

theorem settle_passedInPlace : ∃ test, settle.testMethod {} = .ok test ∧
    settle.signature.parameterNames.Nodup ∧
    PassedInPlace settle {} ⟨"x", "int"⟩ test.body ∧
    ¬PassedInPlace settle {} ⟨"y", "int"⟩ test.body ∧
    PassedInPlace settle {} ⟨"z", "int"⟩ test.body := by
  obtain ⟨test, htest⟩ : ∃ test, settle.testMethod {} = .ok test := ⟨_, rfl⟩
  have hnames : settle.signature.parameterNames.Nodup := by decide
  have hx : ⟨"x", "int"⟩ ∈ settle.parameters := by decide
  have hy : ⟨"y", "int"⟩ ∈ settle.parameters := by decide
  have hz : ⟨"z", "int"⟩ ∈ settle.parameters := by decide
  have hfirst : settle.IsFirstUnderPostState ⟨"x", "int"⟩ :=
    ⟨⟨_, rfl, mem_postStates_iff.1 (by decide)⟩, [], _, rfl, nofun⟩
  have hindexed : settle.IsIndexed "z" := (mem_indexed_parameter_iff hz).1 (by decide)
  refine ⟨test, htest, hnames, ?_, ?_, ?_⟩
  · exact ((passedInPlace_of_primitive htest hx rfl).2 hnames).2 (.inr ⟨rfl, hfirst⟩)
  · rw [(passedInPlace_of_primitive htest hy rfl).2 hnames]
    rintro (hy' | ⟨-, hy'⟩)
    · exact absurd ((mem_indexed_parameter_iff hy).2 hy') (by decide)
    · exact absurd (observed?_of_first rfl hy') (by decide)
  · exact (passedInPlace_of_primitive htest hz rfl).1 hindexed

end Contract

end ContractTests
