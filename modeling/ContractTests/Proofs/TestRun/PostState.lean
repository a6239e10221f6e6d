import ContractTests.Proofs.Contract.Assertion
import ContractTests.Proofs.TestRun.Law

/-! # What post-state reads

The assertion reads every variable under post-state from one variable, the `binding` of the
invocation, when there is one. `ownValue` is a parameter's own value after the call, and
`store_binding_of_void`, `store_binding_of_observed` and `store_binding_of_result` say what the
variable holds: each parameter's own value in the first case only, and in the others the own value
of the observed parameter or the result of the call.
-/

set_option autoImplicit false

universe u v

namespace ContractTests.Contract

variable {D : Type u} {s : Scenario D} {c : Contract} {options : ClassOptions}
  {start before m : Memory D} {p : Parameter}

/-- A parameter's own value after the call, in the memory that the assertion is checked in: the
element of its container, the result of the call if that is assigned to it, and else what it was,
which may be a live object. -/
def ownValue (c : Contract) (options : ClassOptions) (s : Scenario D) (before m : Memory D)
    (p : Parameter) : Datum D :=
  if c.isContained p then m.element (m.store (containerName p.name)) 0
  else if c.observed? = some p.name then (c.effect options s before).result
  else s.input p.name

/-! ## The variable that is read -/

section

variable (hnames : c.NamesApart) (h : Returned c options s start before c.contained m)
include hnames h

theorem store_eq_ownValue (hp : p ∈ c.parameters)
    (hbinding : (c.invocation options).binding = c.observed?) :
    m.store p.name = c.ownValue options s before m p := by
  unfold ownValue
  cases hcontained : c.isContained p with
  | true =>
    exact h.writtenBack p hp hcontained ((hnames.mem_contained_iff hp).2 hcontained)
  | false =>
    rw [if_neg Bool.false_ne_true]
    split
    · rename_i hobserved
      refine h.result p.name (hbinding.trans hobserved) fun hmem => ?_
      rw [(hnames.mem_contained_iff hp).1 hmem] at hcontained
      cases hcontained
    · rename_i hobserved
      exact h.kept p hp hcontained (hbinding ▸ hobserved)

/-- Nothing is returned, and the first parameter under post-state is not primitive. -/
theorem store_binding_of_void (hobserved : c.observed? = none)
    (hvoid : c.signature.returnsVoid = true) (hp : p ∈ c.parameters) :
    m.store ((c.invocation options).binding.getD p.name) = c.ownValue options s before m p := by
  have hbinding : (c.invocation options).binding = none := by
    rw [invocation_of_void options hobserved hvoid]
  rw [hbinding, Option.getD_none]
  exact store_eq_ownValue hnames h hp (hbinding.trans hobserved.symm)

/-- The first parameter under post-state is primitive. -/
theorem store_binding_of_observed (hp : p ∈ c.parameters) (hobserved : c.observed? = some p.name)
    (name : String) :
    m.store ((c.invocation options).binding.getD name) = c.ownValue options s before m p := by
  have hbinding : (c.invocation options).binding = some p.name := by
    by_cases hcontained : p.name ∈ c.contained
    · rw [invocation_of_contained options hobserved hcontained]
    · rw [invocation_of_rebound options hobserved hcontained]
  rw [hbinding, Option.getD_some]
  exact store_eq_ownValue hnames h hp (hbinding.trans hobserved.symm)

omit hnames in
/-- Something is returned, and the first parameter under post-state is not primitive. -/
theorem store_binding_of_result (hobserved : c.observed? = none)
    (hvoid : c.signature.returnsVoid = false) (name : String) :
    m.store ((c.invocation options).binding.getD name) = (c.effect options s before).result := by
  have hbinding : (c.invocation options).binding = some c.resultName := by
    rw [invocation_of_result options hobserved hvoid]
    split <;> rfl
  rw [hbinding, Option.getD_some]
  exact h.result c.resultName hbinding c.resultName_not_mem_contained

end

/-! ## The assertion -/

/-- The assertion that a run checks reads, where the postcondition has a variable under post-state,
the variable of the binding, or that variable itself when there is no binding. When nothing is
returned and no primitive parameter comes first under post-state, that is the parameter's own value;
when a primitive parameter comes first, it is the own value of this one, and else it is the result
of the call. -/
theorem postState_read {test : TestMethod} (h : c.testMethod options = .ok test)
    (hnames : c.NamesApart) {condition : Expr}
    (hchecked : .checked condition m ∈ (s.runAll start test.body).events) :
    ∃ (post out : Expr) (before : Memory D), c.postcondition = some post ∧
      condition = out.nullSafe (c.mayBeNull (c.invocation options).binding) ∧
      c.callEvent options before ∈ (s.runAll start test.body).events ∧
      Returned c options s start before c.contained m ∧
      (∀ (α : Type v) (I : Interpretation α) (f : Datum D → α),
        out.value I (.ofStore fun x => f (m.store x)) = post.value I
          ⟨fun x => f (m.store ((c.snapshots.lookup x).getD x)),
            fun x => f (m.store ((c.invocation options).binding.getD x)),
            Expr.isScalarParameter c.parameters⟩) ∧
      (c.observed? = none → c.signature.returnsVoid = true → ∀ q ∈ c.parameters,
        m.store ((c.invocation options).binding.getD q.name) = c.ownValue options s before m q) ∧
      (∀ p ∈ c.parameters, c.observed? = some p.name → ∀ x,
        m.store ((c.invocation options).binding.getD x) = c.ownValue options s before m p) ∧
      (c.observed? = none → c.signature.returnsVoid = false → ∀ x,
        m.store ((c.invocation options).binding.getD x) = (c.effect options s before).result) := by
  obtain ⟨assumption, conditions, entered, -, hchecks, -, hcourse⟩ := exists_course h hnames s start
  generalize s.runAll start test.body = r at hcourse hchecked
  cases hcourse with
  | blocked => simp at hchecked
  | returned => simp at hchecked
  | @called guarded before r _ _ hcall =>
    have hevents := hcall.events
    obtain ⟨hcondition, rfl⟩ : condition ∈ conditions ∧ r.memory = m := by
      rw [hevents] at hchecked
      simpa [callEvent] using hchecked
    obtain ⟨post, out, hpost, hout, hconditions⟩ :
        ∃ post out, c.postcondition = some post ∧
          post.asAssertion (c.invocation options).binding c.snapshots c.parameters = .ok out ∧
          conditions = [out.nullSafe (c.mayBeNull (c.invocation options).binding)] := by
      rcases assertion_eq_ok hchecks with ⟨-, hnil⟩ | ⟨post, out, hpost, hout, hone⟩
      · rw [List.map_eq_nil_iff.1 hnil] at hcondition
        cases hcondition
      · obtain ⟨_, rfl, ⟨⟩⟩ := List.map_eq_singleton_iff.1 hone
        exact ⟨post, out, hpost, hout, rfl⟩
    rw [hconditions, List.mem_singleton] at hcondition
    refine ⟨post, out, before, hpost, hcondition, by rw [hevents]; simp, hcall.returned,
      fun α I f => Expr.value_of_asAssertion hout ⟨?_, ?_, ?_⟩,
      fun hobserved hvoid q hq => store_binding_of_void hnames hcall.returned hobserved hvoid hq,
      fun p hp hobserved => store_binding_of_observed hnames hcall.returned hp hobserved,
      store_binding_of_result hcall.returned⟩
    · intro name snapshot hsnapshot
      rw [hsnapshot, Option.getD_some]
    · intro name _ hsnapshot
      rw [hsnapshot, Option.getD_none]
    · exact fun _ _ => rfl

theorem grow_postState_read : ∃ before,
    ((leavesThree ["xs"]).runAll emptyMemory growTest.body).memory.store
        ((grow.invocation {}).binding.getD "n") =
      grow.ownValue {} (leavesThree ["xs"]) before
        ((leavesThree ["xs"]).runAll emptyMemory growTest.body).memory ⟨"n", "int"⟩ := by
  have h : grow.testMethod {} = .ok growTest := rfl
  have hnames : grow.NamesApart := ⟨by decide, by decide, by decide⟩
  have hchecked : .checked (.binary .greater (.var "n") (.var "n_old"))
        ((leavesThree ["xs"]).runAll emptyMemory growTest.body).memory ∈
      ((leavesThree ["xs"]).runAll emptyMemory growTest.body).events :=
    List.mem_of_getLast? rfl
  obtain ⟨post, out, before, -, -, -, -, -, -, hobserved, -⟩ :=
    postState_read.{0, 0} h hnames hchecked
  exact ⟨before, hobserved ⟨"n", "int"⟩ (by decide) rfl "n"⟩

/-! ## Post-state that is not a parameter's own -/

/-- `boolean add(Set<Integer> s)` with the postcondition `'(s).contains(1)`. -/
def addToSet : Contract where
  name := "add"
  signature := ⟨"add", [⟨"s", "Set<Integer>"⟩], "boolean"⟩
  precondition := none
  postcondition := some (.send (.postState "s") "contains" [.int 1])

/-- `void order(int x, int y)` with the postcondition `'(x) > '(y)`. -/
def orderPair : Contract where
  name := "order"
  signature := ⟨"order", [⟨"x", "int"⟩, ⟨"y", "int"⟩], "void"⟩
  precondition := none
  postcondition := some (.binary .greater (.postState "x") (.postState "y"))

/-- `void put(Set<Integer> xRef, int x)` with the postcondition `'(xRef).contains(x[0])`. -/
def putIntoSet : Contract where
  name := "put"
  signature := ⟨"put", [⟨"xRef", "Set<Integer>"⟩, ⟨"x", "int"⟩], "void"⟩
  precondition := none
  postcondition := some (.send (.postState "xRef") "contains" [.index (.var "x") (.int 0)])

/-- `void merge(int x, Set<Integer> x)` with the postcondition `'(x).contains(1)`. -/
def mergeNamesakes : Contract where
  name := "merge"
  signature := ⟨"merge", [⟨"x", "int"⟩, ⟨"x", "Set<Integer>"⟩], "void"⟩
  precondition := none
  postcondition := some (.send (.postState "x") "contains" [.int 1])

/-- The test of the contract checks `condition` last, in a memory in which the variable `read` does
not hold `own`. -/
def ChecksOther (c : Contract) (s : Scenario Nat) (condition : Expr) (read : String)
    (own : Datum Nat) : Prop :=
  ∃ test, c.testMethod {} = .ok test ∧
    (s.runAll emptyMemory test.body).events.getLast? =
      some (.checked condition (s.runAll emptyMemory test.body).memory) ∧
    (s.runAll emptyMemory test.body).memory.store read ≠ own

/-- A set under post-state is read from the returned value; two parameters under post-state are read
from one variable; and parameters that share a name with a container or with each other are not told
apart. -/
theorem postState_not_own :
    ChecksOther addToSet (leavesThree ["s"]) (.send (.var "result") "contains" [.int 1]) "result"
      ((leavesThree ["s"]).input "s") ∧
    ChecksOther orderPair (leavesThree []) (.binary .greater (.var "x") (.var "x")) "x"
      ((leavesThree []).input "y") ∧
    ChecksOther putIntoSet (leavesThree ["xRef"])
      (.send (.var "xRef") "contains" [.var "x_old"]) "xRef"
      ((leavesThree ["xRef"]).input "xRef") ∧
    ChecksOther mergeNamesakes (leavesThree ["x"]) (.send (.var "x") "contains" [.int 1]) "x"
      ((leavesThree ["x"]).input "x") :=
  ⟨⟨_, rfl, rfl, nofun⟩, ⟨_, rfl, rfl, nofun⟩, ⟨_, rfl, rfl, nofun⟩, ⟨_, rfl, rfl, nofun⟩⟩

end ContractTests.Contract
