import ContractTests.Proofs.Expr.Traversal
import ContractTests.Proofs.TestRun.Call

/-! # The run of a test method

`testMethod_run`: a test method stops at its assumption, or returns early because an input is null,
or makes its call once and then checks its assertion. The three cases are told apart by the
assumption and the inputs alone. In the last one no null is passed where a parameter may be null,
and `Returned` says what the assertion finds in the memory.
-/

set_option autoImplicit false

universe u

namespace ContractTests.Contract

variable {D : Type u} {s : Scenario D} {c : Contract} {options : ClassOptions}
  {start m : Memory D}

/-! ## The statements of a test method -/

theorem assumption_eq_ok {condition : Expr} (h : c.assumption = .ok condition) :
    (c.precondition = none ∧ condition = .bool true) ∨
      ∃ pre, c.precondition = some pre ∧ pre.asAssumption c.parameters = .ok condition := by
  unfold assumption at h
  cases hpre : c.precondition with
  | none =>
    rw [hpre] at h
    cases h
    exact .inl ⟨rfl, rfl⟩
  | some pre =>
    simp only [hpre] at h
    split at h
    · cases h
    · cases hout : pre.asAssumption c.parameters with
      | error cause => rw [hout] at h; cases h
      | ok out =>
        rw [hout] at h
        cases h
        exact .inr ⟨pre, rfl, hout⟩

theorem assertion_eq_ok {binding : Option String} {checks : List Stmt}
    (h : c.assertion binding = .ok checks) :
    (c.postcondition = none ∧ checks = []) ∨
      ∃ post out, c.postcondition = some post ∧
        post.asAssertion binding c.snapshots c.parameters = .ok out ∧
        checks = [.assert (out.nullSafe (c.mayBeNull binding))] := by
  unfold assertion at h
  cases hpost : c.postcondition with
  | none =>
    rw [hpost] at h
    cases h
    exact .inl ⟨rfl, rfl⟩
  | some post =>
    rw [hpost] at h
    cases hout : post.asAssertion binding c.snapshots c.parameters with
    | error cause =>
      simp only [hout] at h
      cases h
    | ok out =>
      simp only [hout] at h
      cases h
      exact .inr ⟨post, out, rfl, hout, rfl⟩

theorem testMethod_eq_ok {test : TestMethod} (h : c.testMethod options = .ok test) :
    ∃ assumption checks, c.assumption = .ok assumption ∧
      c.assertion (c.invocation options).binding = .ok checks ∧
      test.body = c.inputs ++ (.assume assumption :: (c.snapshotDeclarations ++ (c.nullGuard ++
        (c.echoes options ++ (c.callStatements options ++ checks))))) := by
  obtain ⟨assumption, hassumption, h⟩ := bind_eq_ok_iff.1 h
  obtain ⟨checks, hchecks, h⟩ := bind_eq_ok_iff.1 h
  cases h
  refine ⟨assumption, checks, hassumption, hchecks, ?_⟩
  simp only [List.append_assoc, List.cons_append, List.nil_append]

/-- There is at most one assertion, so that none keeps another one from being checked. -/
theorem runAll_checks (s : Scenario D) (m : Memory D) {conditions : List Expr}
    (hone : conditions.length ≤ 1) :
    ∃ ending, (ending = .finished ∨ ending = .failed) ∧
      s.runAll m (conditions.map .assert) = ⟨ending, m, conditions.map (.checked · m)⟩ := by
  match conditions, hone with
  | [], _ => exact ⟨.finished, .inl rfl, Scenario.runAll_nil⟩
  | [condition], _ =>
    rw [List.map_singleton, Scenario.runAll_singleton, Scenario.run]
    cases s.truth m condition with
    | true => exact ⟨.finished, .inl rfl, rfl⟩
    | false => exact ⟨.failed, .inr rfl, rfl⟩

/-! ## The run -/

/-- After the events `earlier` the run makes the call from the memory `before`, and then checks the
conditions in the memory that it ends with. -/
structure CallsOnce (c : Contract) (options : ClassOptions) (s : Scenario D)
    (start before : Memory D) (earlier : List (Event D)) (conditions : List Expr) (r : Run D) :
    Prop where
  ending : r.ending = .finished ∨ r.ending = .failed
  events : r.events =
    earlier ++ c.callEvent options before :: conditions.map (.checked · r.memory)
  arguments : List.Forall₂ (fun p v => p.category.isNullable = true → v ≠ .null) c.parameters
    (c.arguments before)
  returned : Returned c options s start before c.contained r.memory

/-- The three courses of a test method that has its inputs in the memory `entered`. -/
inductive Course (c : Contract) (options : ClassOptions) (s : Scenario D) (start : Memory D)
    (assumption : Expr) (conditions : List Expr) (entered : Memory D) : Run D → Prop
  | blocked (hassumed : s.truth entered assumption = false) :
      Course c options s start assumption conditions entered
        ⟨.blocked, entered, [.assumed assumption entered]⟩
  | returned {last : Memory D} (hassumed : s.truth entered assumption = true)
      (hnull : ∃ p ∈ c.nullable, s.input p.name = .null) :
      Course c options s start assumption conditions entered
        ⟨.returned, last, [.assumed assumption entered]⟩
  | called {guarded before : Memory D} {r : Run D} (hassumed : s.truth entered assumption = true)
      (hpresent : ∀ p ∈ c.nullable, s.input p.name ≠ .null)
      (hcall : CallsOnce c options s start before
        (.assumed assumption entered ::
          c.nullable.map fun p => .assumed (nullTest .notEqual p) guarded) conditions r) :
      Course c options s start assumption conditions entered r

theorem exists_course {test : TestMethod} (h : c.testMethod options = .ok test)
    (hnames : c.NamesApart) (s : Scenario D) (start : Memory D) :
    ∃ assumption conditions entered, c.assumption = .ok assumption ∧
      c.assertion (c.invocation options).binding = .ok (conditions.map .assert) ∧
      (∀ p ∈ c.parameters, entered.store p.name = s.input p.name) ∧
      Course c options s start assumption conditions entered (s.runAll start test.body) := by
  obtain ⟨assumption, checks, hassumption, hchecks, hbody⟩ := testMethod_eq_ok h
  obtain ⟨entered, hentry, hentered⟩ := runAll_entry (s := s) hnames
  obtain ⟨conditions, rfl, hconditions⟩ : ∃ conditions : List Expr,
      checks = conditions.map .assert ∧ conditions.length ≤ 1 := by
    rcases assertion_eq_ok hchecks with ⟨-, rfl⟩ | ⟨post, out, -, -, rfl⟩
    · exact ⟨[], rfl, Nat.zero_le 1⟩
    · exact ⟨[_], rfl, Nat.le_refl 1⟩
  refine ⟨assumption, conditions, entered, hassumption, hchecks, hentered.inputs, ?_⟩
  rw [hbody, Scenario.runAll_append_of_finished _ hentry, Scenario.runAll_cons, Scenario.run]
  cases htruth : s.truth entered assumption with
  | false => exact .blocked htruth
  | true =>
    obtain ⟨m, hsnapshots, hm⟩ := runAll_snapshotDeclarations hnames hentered
    simp only [if_true, Run.andThen, Scenario.runAll_append_of_finished _ hsnapshots,
      List.nil_append]
    have hstore : ∀ p ∈ c.nullable, m.store p.name = s.input p.name :=
      fun p hp => hm.inputs p (mem_parameters_of_mem_nullable hp)
    by_cases hnull : ∃ p ∈ c.nullable, s.input p.name = .null
    · have hguard : s.runAll m c.nullGuard = ⟨.returned, m, []⟩ := by
        obtain ⟨p, hp, hinput⟩ := hnull
        exact runAll_nullGuard_of_null ⟨p, hp, (hstore p hp).trans hinput⟩
      rw [Scenario.runAll_append_of_ne _ (by simp [hguard]), hguard]
      exact .returned htruth hnull
    · have hpresent : ∀ p ∈ c.nullable, s.input p.name ≠ .null :=
        fun p hp hinput => hnull ⟨p, hp, hinput⟩
      have hguard := runAll_nullGuard (s := s) fun p hp => (hstore p hp).symm ▸ hpresent p hp
      obtain ⟨before, after, hcall, hbefore, hafter⟩ :=
        runAll_callStatements options hnames hm hpresent
      obtain ⟨ending, hending, hchecked⟩ := runAll_checks s after hconditions
      simp only [Scenario.runAll_append_of_finished _ hguard,
        Scenario.runAll_append_of_finished _ (runAll_echoes options),
        Scenario.runAll_append_of_finished _ hcall, hchecked, List.nil_append]
      exact .called htruth hpresent
        ⟨hending, rfl, arguments_present hnames hbefore.inputs hpresent, hafter⟩

/-- Any test method, from any memory: a false assumption blocks it; a null input of a type that may
be null makes it return early; and else it calls the function once. -/
theorem testMethod_run {test : TestMethod} (h : c.testMethod options = .ok test)
    (hnames : c.NamesApart) (s : Scenario D) (start : Memory D) :
    ∃ assumption conditions entered, c.assumption = .ok assumption ∧
      c.assertion (c.invocation options).binding = .ok (conditions.map .assert) ∧
      (∀ p ∈ c.parameters, entered.store p.name = s.input p.name) ∧
      (s.truth entered assumption = false →
        s.runAll start test.body = ⟨.blocked, entered, [.assumed assumption entered]⟩) ∧
      (s.truth entered assumption = true → (∃ p ∈ c.nullable, s.input p.name = .null) →
        ∃ last, s.runAll start test.body = ⟨.returned, last, [.assumed assumption entered]⟩) ∧
      (s.truth entered assumption = true → (∀ p ∈ c.nullable, s.input p.name ≠ .null) →
        ∃ guarded before, CallsOnce c options s start before
          (.assumed assumption entered ::
            c.nullable.map fun p => .assumed (nullTest .notEqual p) guarded)
          conditions (s.runAll start test.body)) := by
  obtain ⟨assumption, conditions, entered, hassumption, hchecks, hinputs, hcourse⟩ :=
    exists_course h hnames s start
  refine ⟨assumption, conditions, entered, hassumption, hchecks, hinputs, ?_⟩
  generalize s.runAll start test.body = r at hcourse
  cases hcourse with
  | blocked hassumed =>
    rw [hassumed]
    exact ⟨fun _ => rfl, nofun, nofun⟩
  | returned hassumed hnull =>
    rw [hassumed]
    obtain ⟨p, hp, hinput⟩ := hnull
    exact ⟨nofun, fun _ _ => ⟨_, rfl⟩, fun _ hpresent => absurd hinput (hpresent p hp)⟩
  | called hassumed hpresent hcall =>
    rw [hassumed]
    exact ⟨nofun, fun _ ⟨p, hp, hinput⟩ => absurd hinput (hpresent p hp), fun _ _ => ⟨_, _, hcall⟩⟩

/-- The contract of `void grow(List<String> xs, int n)` with the postcondition `'(n) > n`. -/
def grow : Contract where
  name := "grow"
  signature := ⟨"grow", [⟨"xs", "List<String>"⟩, ⟨"n", "int"⟩], "void"⟩
  precondition := none
  postcondition := some (.binary .greater (.postState "n") (.var "n"))

/-- The test method of `grow`. -/
def growTest : TestMethod where
  name := TestMethod.nameFor "grow"
  body := [
    .input "List<String>" "xs",
    .input "int" "n",
    .declare "int[]" "nRef" (.create "int[]" [.var "n"]),
    .assume (.bool true),
    .declare "int" "n_old" (.var "n"),
    .whenever (.binary .equal (.var "xs") .null) [] true,
    .assume (.binary .notEqual (.var "xs") .null),
    .whenever (.binary .notEqual (.var "xs") .null) [
      .perform (.send (.var "Helper") "grow" [.var "xs", .var "nRef"]),
      .assign "n" (.index (.var "nRef") (.int 0))] false,
    .assert (.binary .greater (.var "n") (.var "n_old"))]

/-- The inputs of these names are an object, the others are 1. A call returns 0 and leaves 3 in
every object that it can reach. -/
def leavesThree (objects : List String) : Scenario Nat where
  input name := if name ∈ objects then .object (.given 0) else .scalar 1
  input_given name l h := by
    split at h
    · cases h; exact ⟨0, rfl⟩
    · cases h
  holds _ _ := true
  value _ _ := .null
  effect _ _ _ _ := ⟨.scalar 0, fun _ => [.scalar 3]⟩

/-- The memory without variables and objects. -/
def emptyMemory : Memory Nat := ⟨fun _ => .null, fun _ => [], 0⟩

theorem grow_callsOnce : grow.testMethod {} = .ok growTest ∧
    ∃ entered guarded before conditions,
      CallsOnce grow {} (leavesThree ["xs"]) emptyMemory before
        (.assumed (.bool true) entered ::
          grow.nullable.map fun p => .assumed (nullTest .notEqual p) guarded)
        conditions ((leavesThree ["xs"]).runAll emptyMemory growTest.body) := by
  have h : grow.testMethod {} = .ok growTest := rfl
  have hnames : grow.NamesApart := ⟨by decide, by decide, by decide⟩
  have hpresent : ∀ p ∈ grow.nullable, (leavesThree ["xs"]).input p.name ≠ .null := by
    intro p hp
    obtain rfl : p = ⟨"xs", "List<String>"⟩ := List.mem_singleton.1 hp
    nofun
  obtain ⟨assumption, conditions, entered, hassumption, -, -, -, -, hcall⟩ :=
    testMethod_run h hnames (leavesThree ["xs"]) emptyMemory
  cases (rfl : grow.assumption = .ok (.bool true)).symm.trans hassumption
  obtain ⟨guarded, before, hcall⟩ := hcall rfl hpresent
  exact ⟨h, entered, guarded, before, conditions, hcall⟩

end ContractTests.Contract
