import ContractTests.Proofs.Sharing.Rounds
import ContractTests.Proofs.TestRun.Law

/-! # The statements that write a variable

Of the statements of a test method, at every depth, those that give a variable a value are the
inputs and containers, the snapshots, the statements that receive the result, and the write-backs, in
this order (`Contract.filter_writes_testMethod`). The names that a method declares and the values
that it assigns are read off this list.
-/

set_option autoImplicit false

namespace ContractTests

namespace Stmt

/-- Whether a statement gives a variable a value. -/
def writes : Stmt → Bool
  | .input .. => true
  | .declare .. => true
  | .assign .. => true
  | _ => false

/-- The expression that a statement evaluates for its value or effect. -/
def evaluated? : Stmt → Option Expr
  | .declare _ _ init => some init
  | .assign _ value => some value
  | .perform call => some call
  | _ => none

/-! ## Nested statements -/

theorem nested_of_evaluated? {s : Stmt} {e : Expr} (h : s.evaluated? = some e) : nested s = [s] := by
  cases s with
  | whenever => cases h
  | _ => simp only [nested]

/-- What is read off the statements that write is read off those alone. -/
theorem filterMap_filter_writes {α : Type} {f : Stmt → Option α}
    (hf : ∀ s, s.writes = false → f s = none) (body : List Stmt) :
    (body.filter writes).filterMap f = body.filterMap f := by
  rw [List.filterMap_filter]
  refine List.filterMap_congr fun s _ => ?_
  split
  · rfl
  · rename_i hs
    exact (hf s (by simpa using hs)).symm

end Stmt

namespace Contract

open Stmt (nestedAll nested)

variable {c : Contract} {options : ClassOptions} {test : TestMethod}

/-! ## The parts of a test method -/

theorem nestedAll_inputs (c : Contract) : nestedAll c.inputs = c.inputs := by
  rw [inputs, Stmt.nestedAll_append, Stmt.nestedAll_map fun _ => by simp only [nested],
    Stmt.nestedAll_map fun _ => by simp only [nested]]

theorem nestedAll_snapshotDeclarations (c : Contract) :
    nestedAll c.snapshotDeclarations = c.snapshotDeclarations :=
  Stmt.nestedAll_map (fun _ => by simp only [nested]) _

theorem nestedAll_writeBacks (c : Contract) : nestedAll c.writeBacks = c.writeBacks :=
  Stmt.nestedAll_map (fun _ => by simp only [nested]) _

theorem mem_nullGuard {s : Stmt} (h : s ∈ c.nullGuard) :
    (∃ anyNull, s = .whenever anyNull [] true) ∨ ∃ p, s = .assume (nullTest .notEqual p) := by
  unfold nullGuard at h
  split at h
  · cases h
  · rcases List.mem_cons.1 h with rfl | h
    · exact .inl ⟨_, rfl⟩
    · obtain ⟨p, -, rfl⟩ := List.mem_map.1 h
      exact .inr ⟨p, rfl⟩

theorem mem_echoes {s : Stmt} (h : s ∈ c.echoes options) : ∃ p, s = echo p := by
  unfold echoes at h
  split at h
  · obtain ⟨p, -, rfl⟩ := List.mem_map.1 h
    exact ⟨p, rfl⟩
  · cases h

theorem nestedAll_nullGuard (c : Contract) : nestedAll c.nullGuard = c.nullGuard := by
  apply Stmt.nestedAll_of_flat
  intro s hs
  rcases mem_nullGuard hs with ⟨anyNull, rfl⟩ | ⟨p, rfl⟩
  · simp only [nested, nestedAll]
  · simp only [nested]

theorem nestedAll_echoes (c : Contract) (options : ClassOptions) :
    nestedAll (c.echoes options) = c.echoes options := by
  apply Stmt.nestedAll_of_flat
  intro s hs
  obtain ⟨p, rfl⟩ := mem_echoes hs
  simp only [echo, nested]

theorem filter_writes_nullGuard (c : Contract) : c.nullGuard.filter Stmt.writes = [] := by
  rw [List.filter_eq_nil_iff]
  intro s hs
  rcases mem_nullGuard hs with ⟨anyNull, rfl⟩ | ⟨p, rfl⟩
  · exact Bool.false_ne_true
  · exact Bool.false_ne_true

theorem filter_writes_echoes (c : Contract) (options : ClassOptions) :
    (c.echoes options).filter Stmt.writes = [] := by
  rw [List.filter_eq_nil_iff]
  intro s hs
  obtain ⟨p, rfl⟩ := mem_echoes hs
  exact Bool.false_ne_true

/-- All that follows the call statements is an assertion. -/
theorem asserts_of_assertion {binding : Option String} {checks : List Stmt}
    (h : c.assertion binding = .ok checks) : ∀ s ∈ checks, ∃ condition, s = .assert condition := by
  rcases assertion_eq_ok h with ⟨-, rfl⟩ | ⟨_, _, -, -, rfl⟩
  · exact List.forall_mem_nil _
  · exact List.forall_mem_singleton.2 ⟨_, rfl⟩

theorem filter_writes_assertion {binding : Option String} {checks : List Stmt}
    (h : c.assertion binding = .ok checks) : (nestedAll checks).filter Stmt.writes = [] := by
  have hasserts := asserts_of_assertion h
  have hnested : nestedAll checks = checks := by
    apply Stmt.nestedAll_of_flat
    intro s hs
    obtain ⟨condition, rfl⟩ := hasserts s hs
    simp only [nested]
  rw [hnested, List.filter_eq_nil_iff]
  intro s hs
  obtain ⟨condition, rfl⟩ := hasserts s hs
  exact Bool.false_ne_true

/-! ## The call -/

/-- The variable that is declared for the result. -/
def declaredResult? (c : Contract) : Option String :=
  if c.observed?.isNone && !c.signature.returnsVoid then some c.resultName else none

/-- The statement `call` makes the call of the function under test. Before it there is at most the
declaration of the result's variable. -/
structure IsCallStatement (c : Contract) (options : ClassOptions) (call : Stmt) : Prop where
  block : (c.invocation options).block = [call]
  evaluated : call.evaluated? = some (c.testedCall options)
  before : ∀ s ∈ (c.invocation options).before, ∃ type init, s = .declare type c.resultName init
  declared : ((c.invocation options).before ++ [call]).filterMap Stmt.declared? =
    c.declaredResult?.toList
  /-- The result is not assigned to a parameter passed in a container. -/
  assigned : ∀ name value, call = .assign name value → name ∉ c.contained

theorem IsCallStatement.of_eq {before : List Stmt} {call : Stmt} {binding : Option String}
    (heq : c.invocation options = ⟨before, [call], binding⟩)
    (hevaluated : call.evaluated? = some (c.testedCall options))
    (hbefore : ∀ s ∈ before, ∃ type init, s = .declare type c.resultName init)
    (hdeclared : (before ++ [call]).filterMap Stmt.declared? = c.declaredResult?.toList)
    (hassigned : ∀ name value, call = .assign name value → name ∉ c.contained) :
    IsCallStatement c options call where
  block := by rw [heq]
  evaluated := hevaluated
  before := by rwa [heq]
  declared := by rwa [heq]
  assigned := hassigned

theorem exists_isCallStatement (c : Contract) (options : ClassOptions) :
    ∃ call, IsCallStatement c options call := by
  cases hobserved : c.observed? with
  | some name =>
    have hresult : c.declaredResult? = none := by
      rw [declaredResult?, hobserved]
      rfl
    by_cases hcontained : name ∈ c.contained
    · have heq := invocation_of_contained options hobserved hcontained
      exact ⟨_, .of_eq heq rfl (List.forall_mem_nil _) (by rw [hresult]; rfl) nofun⟩
    · have heq := invocation_of_rebound options hobserved hcontained
      refine ⟨_, .of_eq heq rfl (List.forall_mem_nil _) (by rw [hresult]; rfl) ?_⟩
      rintro other value ⟨⟩
      exact hcontained
  | none =>
    cases hvoid : c.signature.returnsVoid with
    | true =>
      have hresult : c.declaredResult? = none := by
        rw [declaredResult?, hvoid, Bool.not_true, Bool.and_false]
        rfl
      have heq := invocation_of_void options hobserved hvoid
      exact ⟨_, .of_eq heq rfl (List.forall_mem_nil _) (by rw [hresult]; rfl) nofun⟩
    | false =>
      have hresult : c.declaredResult? = some c.resultName := by
        rw [declaredResult?, hobserved, hvoid]
        rfl
      have heq := invocation_of_result options hobserved hvoid
      cases hguarded : c.isGuarded with
      | true =>
        rw [hguarded, if_pos rfl] at heq
        refine ⟨_, .of_eq heq rfl (List.forall_mem_singleton.2 ⟨_, _, rfl⟩)
          (by rw [hresult]; rfl) ?_⟩
        rintro other value ⟨⟩
        exact c.resultName_not_mem_contained
      | false =>
        rw [hguarded, if_neg Bool.false_ne_true] at heq
        exact ⟨_, .of_eq heq rfl (List.forall_mem_nil _) (by rw [hresult]; rfl) nofun⟩

namespace IsCallStatement

variable {call : Stmt}

theorem nestedAll_before (h : IsCallStatement c options call) :
    nestedAll (c.invocation options).before = (c.invocation options).before := by
  apply Stmt.nestedAll_of_flat
  intro s hs
  obtain ⟨type, init, rfl⟩ := h.before s hs
  simp only [nested]

theorem nestedAll_block (h : IsCallStatement c options call) :
    nestedAll ((c.invocation options).block ++ c.writeBacks) = call :: c.writeBacks := by
  have hcall : nestedAll [call] = [call] :=
    Stmt.nestedAll_of_flat (List.forall_mem_singleton.2 (Stmt.nested_of_evaluated? h.evaluated))
  rw [h.block, Stmt.nestedAll_append, nestedAll_writeBacks, hcall, List.singleton_append]

/-- Around the call there may be a guard, which writes nothing itself. -/
theorem filter_writes_callStatements (h : IsCallStatement c options call) :
    (nestedAll (c.callStatements options)).filter Stmt.writes =
      ((c.invocation options).before ++ call :: c.writeBacks).filter Stmt.writes := by
  simp only [callStatements]
  rw [Stmt.nestedAll_append, List.filter_append, h.nestedAll_before, List.filter_append]
  congr 1
  split
  · rw [Stmt.nestedAll_whenever, h.nestedAll_block]
    exact List.filter_cons_of_neg Bool.false_ne_true
  · rw [h.nestedAll_block]

end IsCallStatement

/-! ## The whole method -/

theorem filter_writes_testMethod (h : c.testMethod options = .ok test) {call : Stmt}
    (hcall : IsCallStatement c options call) :
    (nestedAll test.body).filter Stmt.writes =
      c.inputs ++ (c.snapshotDeclarations ++
        ((c.invocation options).before ++ call :: c.writeBacks).filter Stmt.writes) := by
  obtain ⟨assumption, checks, -, hchecks, hbody⟩ := testMethod_eq_ok h
  have hinputs : c.inputs.filter Stmt.writes = c.inputs := by
    rw [List.filter_eq_self, inputs, List.forall_mem_append]
    exact ⟨List.forall_mem_map.2 fun _ _ => rfl, List.forall_mem_map.2 fun _ _ => rfl⟩
  have hsnapshots : c.snapshotDeclarations.filter Stmt.writes = c.snapshotDeclarations :=
    List.filter_eq_self.2 (List.forall_mem_map.2 fun _ _ => rfl)
  have hassume : (nestedAll [.assume assumption]).filter Stmt.writes = [] := rfl
  rw [hbody, ← List.singleton_append]
  simp only [Stmt.nestedAll_append, List.filter_append, nestedAll_inputs, hinputs, hassume,
    nestedAll_snapshotDeclarations, hsnapshots, nestedAll_nullGuard, filter_writes_nullGuard,
    nestedAll_echoes, filter_writes_echoes, hcall.filter_writes_callStatements,
    filter_writes_assertion hchecks, List.nil_append, List.append_nil]

end Contract

end ContractTests
