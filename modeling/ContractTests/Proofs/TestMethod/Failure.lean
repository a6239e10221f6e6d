import ContractTests.Proofs.Contract.Assertion
import ContractTests.TestClass.Method

/-! # When no test method can be built

A precondition may not mention the post-state of a variable, and no condition may have a post-state
wrapper left, except in the position of an access to a scalar parameter, which is dropped
(`Expr.ExposesWrapper`). `Contract.testMethod_fails_iff` says for every contract which of these
errors is reported, and that there is a test method when there is none.
-/

set_option autoImplicit false

namespace ContractTests

namespace Expr

/-! ## What is looked at -/

/-- The children that are looked at: of an access to a scalar parameter only the parameter. -/
def keptChildren (params : List Parameter) : Expr → List Expr
  | .index base position =>
    if base.isScalarBase (isScalarParameter params) then [base] else [base, position]
  | e => e.children

/-- The subterm stands in the expression at a place that is not in the position of an access to a
scalar parameter. -/
inductive KeptIn (params : List Parameter) (x : Expr) : Expr → Prop
  | here : KeptIn params x x
  | inChild {c e : Expr} (hc : c ∈ e.keptChildren params) (h : KeptIn params x c) :
      KeptIn params x e

/-- A post-state wrapper is left where it is looked at. -/
def ExposesWrapper (params : List Parameter) (e : Expr) : Prop :=
  ∃ x, KeptIn params x e ∧ x.isWrapper = true

section

variable {params : List Parameter} {e : Expr}

theorem exposesWrapper_iff : e.ExposesWrapper params ↔
    e.isWrapper = true ∨ ∃ c ∈ e.keptChildren params, c.ExposesWrapper params := by
  constructor
  · rintro ⟨x, hx, hwrapper⟩
    cases hx with
    | here => exact .inl hwrapper
    | inChild hc h => exact .inr ⟨_, hc, x, h, hwrapper⟩
  · rintro (hwrapper | ⟨c, hc, x, hx, hwrapper⟩)
    · exact ⟨e, .here, hwrapper⟩
    · exact ⟨x, .inChild hc hx, hwrapper⟩

theorem keptChildren_of_isScalarBase {base position : Expr}
    (h : base.isScalarBase (isScalarParameter params) = true) :
    (index base position).keptChildren params = [base] := by
  rw [keptChildren, if_pos h]

theorem keptChildren_eq_children (h : ∀ base position, e = .index base position →
    base.isScalarBase (isScalarParameter params) = false) : e.keptChildren params = e.children := by
  cases e with
  | index base position =>
    rw [keptChildren, if_neg (by rw [h base position rfl]; decide)]
    rfl
  | _ => rfl

/-- A variable, plain or under post-state, is no wrapper, nor is an access to it. -/
theorem not_exposesWrapper_of_looked {looked : Expr} (hlooked : looked.mentioned?.isSome)
    (h : looked = e ∨ ∃ position, e = .index looked position ∧
      looked.isScalarBase (isScalarParameter params) = true) : ¬e.ExposesWrapper params := by
  have hleaf : ¬looked.ExposesWrapper params := by
    rw [exposesWrapper_iff]
    cases looked <;> simp_all [mentioned?, isWrapper, keptChildren, children]
  rcases h with rfl | ⟨position, rfl, hscalar⟩
  · exact hleaf
  · rw [exposesWrapper_iff, keptChildren_of_isScalarBase hscalar]
    simpa [isWrapper] using hleaf

end

/-! ## Failing passes -/

/-- A pass looks for wrappers at the node: where it answers there is none to be found, where it
refuses it has found one, and else it looks at the children that are kept. -/
structure LooksForWrapper (params : List Parameter) (cause : Unsupported)
    (step : Expr → Option (Except Unsupported Expr)) (e : Expr) : Prop where
  answered : ∀ e', step e = some (.ok e') → ¬e.ExposesWrapper params
  refused : ∀ failure, step e = some (.error failure) → failure = cause ∧ e.isWrapper = true
  passed : step e = none → e.isWrapper = false ∧ e.keptChildren params = e.children

/-- A pass that looks for wrappers fails exactly when there is one. -/
theorem replaceM_eq_error_iff {params : List Parameter} {cause failure : Unsupported}
    {step : Expr → Option (Except Unsupported Expr)} {e : Expr}
    (h : ∀ x ∈ e.subterms, LooksForWrapper params cause step x) :
    e.replaceM step = .error failure ↔ failure = cause ∧ e.ExposesWrapper params := by
  induction e using children_induction generalizing failure with
  | node e ih =>
    have hnode := h e (self_mem_subterms e)
    cases hstep : step e with
    | some answer =>
      rw [replaceM_of_some hstep]
      cases answer with
      | ok e' => simp [hnode.answered e' hstep]
      | error found =>
        obtain ⟨rfl, hwrapper⟩ := hnode.refused found hstep
        have hexposes : e.ExposesWrapper params := exposesWrapper_iff.2 (.inl hwrapper)
        simp [hexposes, eq_comm]
    | none =>
      obtain ⟨hwrapper, hkept⟩ := hnode.passed hstep
      have hchild {c : Expr} (hc : c ∈ e.children) {other : Unsupported} :
          c.replaceM step = .error other ↔ other = cause ∧ c.ExposesWrapper params :=
        ih c hc fun x hx => h x (mem_subterms_of_mem_children hc hx)
      rw [replaceM_of_none hstep, exposesWrapper_iff, hwrapper, hkept]
      simp only [Bool.false_eq_true, false_or]
      constructor
      · intro hfails
        obtain ⟨before, c, after, hsplit, -, hc⟩ := mapChildrenM_eq_error_iff.1 hfails
        have hmem : c ∈ e.children := by simp [hsplit]
        obtain ⟨hcause, hexposes⟩ := (hchild hmem).1 hc
        exact ⟨hcause, c, hmem, hexposes⟩
      · rintro ⟨rfl, c, hc, hexposes⟩
        cases hmap : e.mapChildrenM (replaceM step) with
        | ok e' =>
          -- then no child has failed, not even the one with the wrapper
          have hall := (mapChildrenM_eq_ok_iff.1 hmap).children
          obtain ⟨c', -, hc'⟩ := exists_of_mem_right hall.flip hc
          rw [(hchild hc).2 ⟨rfl, hexposes⟩] at hc'
          cases hc'
        | error other =>
          obtain ⟨before, first, after, hsplit, -, hfirst⟩ := mapChildrenM_eq_error_iff.1 hmap
          have hmem : first ∈ e.children := by simp [hsplit]
          rw [((hchild hmem).1 hfirst).1]

/-! ## Assumptions and assertions -/

theorem kind_of_isWrapper {e : Expr} (h : e.isWrapper = true) : e.kind = .call := by
  cases e <;> first | rfl | cases h

section

variable {params : List Parameter} {e : Expr}

/-- A wrapper that a step looks at is the node itself, and no scalar access. -/
theorem looked_eq_of_isWrapper (h : ((e.scalarBase? params).getD e).isWrapper = true) :
    (e.scalarBase? params).getD e = e := by
  rcases scalarBase?_getD params e with ⟨base, position, -, hscalar, hlooked⟩ | ⟨hlooked, -⟩
  · rw [hlooked] at h
    obtain ⟨name, rfl | rfl⟩ := eq_of_isScalarBase hscalar <;> cases h
  · exact hlooked

theorem looksForWrapper_assertionStep (binding : Option String) (snapshots : Snapshots) :
    LooksForWrapper params ⟨.call, .postcondition⟩ (assertionStep binding snapshots params) e where
  answered e' h := by
    obtain ⟨looked, hlooked, hread⟩ := assertionStep_eq_ok h
    refine not_exposesWrapper_of_looked ?_ hlooked
    rcases hread with ⟨name, rfl, -⟩ | ⟨name, rfl, -⟩ <;> rfl
  refused failure h := by
    unfold assertionStep at h
    split at h
    · cases h
    · cases h
    · split at h
      · rename_i hwrapper
        rw [looked_eq_of_isWrapper hwrapper] at h hwrapper
        rw [kind_of_isWrapper hwrapper] at h
        cases h
        exact ⟨rfl, hwrapper⟩
      · cases h
  passed h := by
    obtain ⟨-, hwrapper, hindex⟩ := assertionStep_eq_none h
    exact ⟨hwrapper, keptChildren_eq_children hindex⟩

/-- Without post-state, an assumption looks for wrappers as an assertion does. -/
theorem looksForWrapper_assumptionStep (h : ∀ name, .postState name ∉ e.subterms) :
    LooksForWrapper params ⟨.call, .precondition⟩ (assumptionStep params) e := by
  have hlooked := scalarBase?_getD_mem params e
  refine ⟨fun e' hstep => ?answered, fun failure hstep => ?refused, fun hstep => ?passed⟩
  case passed =>
    have hnone := (assumptionStep_eq_none_iff none []).1 hstep
    exact (looksForWrapper_assertionStep none []).passed hnone
  case answered =>
    exact (looksForWrapper_assertionStep none []).answered e'
      (assertionStep_of_assumptionStep hstep)
  case refused =>
    unfold assumptionStep at hstep
    split at hstep
    · cases hstep
    · rename_i name hname
      exact absurd (hname ▸ hlooked) (h name)
    · split at hstep
      · rename_i hwrapper
        rw [looked_eq_of_isWrapper hwrapper] at hstep hwrapper
        rw [kind_of_isWrapper hwrapper] at hstep
        cases hstep
        exact ⟨rfl, hwrapper⟩
      · cases hstep

end

/-- A postcondition fails exactly when it exposes a wrapper. -/
theorem asAssertion_eq_error_iff {binding : Option String} {snapshots : Snapshots}
    {params : List Parameter} {post : Expr} {failure : Unsupported} :
    post.asAssertion binding snapshots params = .error failure ↔
      failure = ⟨.call, .postcondition⟩ ∧ post.ExposesWrapper params :=
  replaceM_eq_error_iff fun _ _ => looksForWrapper_assertionStep binding snapshots

/-- A precondition without post-state fails exactly when it exposes a wrapper. -/
theorem asAssumption_eq_error_iff {params : List Parameter} {pre : Expr} {failure : Unsupported}
    (h : ∀ name, .postState name ∉ pre.subterms) :
    pre.asAssumption params = .error failure ↔
      failure = ⟨.call, .precondition⟩ ∧ pre.ExposesWrapper params :=
  replaceM_eq_error_iff fun _ hx =>
    looksForWrapper_assumptionStep fun name hname => h name (subterms_trans hname hx)

/-! ## The first post-state -/

/-- The first variable under post-state, in source order. -/
def FirstPostState (e : Expr) (name : String) : Prop :=
  ∃ before after, e.subterms = before ++ .postState name :: after ∧
    ∀ x ∈ before, x.postState? = none

theorem postState?_eq_some_iff {x : Expr} {name : String} :
    x.postState? = some name ↔ x = .postState name := by
  cases x <;> simp [postState?]

theorem head?_postStates_eq_some_iff {e : Expr} {name : String} :
    e.postStates.head? = some name ↔ e.FirstPostState name := by
  have hhead : e.postStates.head? = (e.subterms.filterMap postState?).head? := by
    rw [postStates]
    cases e.subterms.filterMap postState? with
    | nil => rfl
    | cons first rest => rw [List.eraseDups_cons]; rfl
  rw [hhead, List.head?_eq_some_iff]
  simp only [List.filterMap_eq_cons_iff, postState?_eq_some_iff]
  constructor
  · rintro ⟨_, before, _, after, hsplit, hbefore, rfl, -⟩
    exact ⟨before, after, hsplit, hbefore⟩
  · rintro ⟨before, after, hsplit, hbefore⟩
    exact ⟨_, before, _, after, hsplit, hbefore, rfl, rfl⟩

theorem postStates_eq_nil_iff {e : Expr} :
    e.postStates = [] ↔ ∀ name, .postState name ∉ e.subterms := by
  rw [postStates, List.eq_nil_iff_forall_not_mem]
  simp only [List.mem_eraseDups, List.mem_filterMap, postState?_eq_some_iff, exists_eq_right]

end Expr

/-! ## Failing methods -/

theorem exists_ok_iff_forall_ne_error {ε α : Type} {x : Except ε α} :
    (∃ a, x = .ok a) ↔ ∀ failure, x ≠ .error failure := by
  cases x <;> simp

namespace Contract

variable {options : ClassOptions} {c : Contract} {failure : BuildError}

/-- The precondition does not mention the state after the call. -/
def IsOneState (c : Contract) : Prop :=
  ∀ pre ∈ c.precondition, ∀ name, .postState name ∉ pre.subterms

/-- A wrapper is left in the precondition. -/
def ExposesBefore (c : Contract) : Prop := ∃ pre ∈ c.precondition, pre.ExposesWrapper c.parameters

/-- A wrapper is left in the postcondition. -/
def ExposesAfter (c : Contract) : Prop := ∃ post ∈ c.postcondition, post.ExposesWrapper c.parameters

/-- Where post-state occurs, it occurs first somewhere. -/
theorem not_exists_firstPostState_iff :
    (¬∃ pre ∈ c.precondition, ∃ name, pre.FirstPostState name) ↔ c.IsOneState := by
  simp only [IsOneState, ← Expr.postStates_eq_nil_iff, ← Expr.head?_postStates_eq_some_iff,
    not_exists, not_and, ← ne_eq, ← Option.eq_none_iff_forall_ne_some, List.head?_eq_none_iff]

theorem assumption_eq_error_iff : c.assumption = .error failure ↔
    (∃ pre ∈ c.precondition, ∃ name, pre.FirstPostState name ∧
      failure = .postStateBefore c.name name) ∨
    c.IsOneState ∧ c.ExposesBefore ∧ failure = .condition c.name ⟨.call, .precondition⟩ := by
  unfold assumption IsOneState ExposesBefore
  cases c.precondition with
  | none => simp
  | some pre =>
    simp only [Option.mem_some_iff, exists_eq_left', forall_eq',
      ← Expr.head?_postStates_eq_some_iff, ← Expr.postStates_eq_nil_iff]
    cases hpost : pre.postStates with
    | cons name rest => simp [eq_comm]
    | nil =>
      have hfails {cause : Unsupported} : pre.asAssumption c.parameters = .error cause ↔
          cause = ⟨.call, .precondition⟩ ∧ pre.ExposesWrapper c.parameters :=
        Expr.asAssumption_eq_error_iff (Expr.postStates_eq_nil_iff.1 hpost)
      cases hresult : pre.asAssumption c.parameters with
      | ok assumption =>
        have hnone : ¬pre.ExposesWrapper c.parameters := fun h => by
          have herror := hfails.2 ⟨rfl, h⟩
          rw [hresult] at herror
          cases herror
        simp [Except.mapError, hnone]
      | error cause =>
        obtain ⟨rfl, hexposes⟩ := hfails.1 hresult
        simp [Except.mapError, hexposes, eq_comm]

theorem exists_assumption_iff : (∃ e, c.assumption = .ok e) ↔ c.IsOneState ∧ ¬c.ExposesBefore := by
  rw [exists_ok_iff_forall_ne_error]
  simp only [ne_eq, assumption_eq_error_iff, not_or]
  constructor
  · intro h
    have hone : c.IsOneState := not_exists_firstPostState_iff.1 fun ⟨pre, hpre, name, hname⟩ =>
      (h _).1 ⟨pre, hpre, name, hname, rfl⟩
    exact ⟨hone, fun hexposes => (h _).2 ⟨hone, hexposes, rfl⟩⟩
  · rintro ⟨hone, hnone⟩ failure
    refine ⟨fun ⟨pre, hpre, name, hname, _⟩ => ?_, fun h => hnone h.2.1⟩
    exact not_exists_firstPostState_iff.2 hone ⟨pre, hpre, name, hname⟩

theorem assertion_eq_error_iff {binding : Option String} :
    c.assertion binding = .error failure ↔
      c.ExposesAfter ∧ failure = .condition c.name ⟨.call, .postcondition⟩ := by
  unfold assertion ExposesAfter
  cases c.postcondition with
  | none => simp
  | some post =>
    simp only [Option.mem_some_iff, exists_eq_left']
    cases hresult : post.asAssertion binding c.snapshots c.parameters with
    | ok condition =>
      have hnone : ¬post.ExposesWrapper c.parameters := fun h => by
        have herror : post.asAssertion binding c.snapshots c.parameters =
            .error ⟨.call, .postcondition⟩ := Expr.asAssertion_eq_error_iff.2 ⟨rfl, h⟩
        rw [hresult] at herror
        cases herror
      simp [hnone]
    | error cause =>
      obtain ⟨rfl, hexposes⟩ := Expr.asAssertion_eq_error_iff.1 hresult
      simp [hexposes, eq_comm]

/-- The assumption is made before the assertion. -/
theorem testMethod_eq_error_iff : c.testMethod options = .error failure ↔
    c.assumption = .error failure ∨ (∃ e, c.assumption = .ok e) ∧
      c.assertion (c.invocation options).binding = .error failure := by
  unfold testMethod
  cases c.assumption with
  | error other => simp [bind, Except.bind]
  | ok e =>
    cases c.assertion (c.invocation options).binding <;> simp [bind, Except.bind, pure, Except.pure]

theorem testMethod_ne_unmatched (name : String) :
    c.testMethod options ≠ .error (.unmatched name) := by
  simp [testMethod_eq_error_iff, assumption_eq_error_iff, assertion_eq_error_iff]

theorem exists_assertion_iff {binding : Option String} :
    (∃ checks, c.assertion binding = .ok checks) ↔ ¬c.ExposesAfter := by
  rw [exists_ok_iff_forall_ne_error]
  simp only [ne_eq, assertion_eq_error_iff, not_and]
  exact ⟨fun h hexposes => h _ hexposes rfl, fun h _ hexposes => absurd hexposes h⟩

theorem exists_testMethod_iff : (∃ m, c.testMethod options = .ok m) ↔
    (∃ e, c.assumption = .ok e) ∧
      ∃ checks, c.assertion (c.invocation options).binding = .ok checks := by
  unfold testMethod
  cases c.assumption with
  | error => simp [bind, Except.bind]
  | ok e =>
    cases c.assertion (c.invocation options).binding <;> simp [bind, Except.bind, pure, Except.pure]

/-- A contract has no test method in three cases, the first of which that applies is reported: its
precondition has a variable under post-state, of which the first one is named; the precondition
has a wrapper left; the postcondition has a wrapper left. In all other cases it has one. -/
theorem testMethod_fails_iff :
    (∀ function name, c.testMethod options = .error (.postStateBefore function name) ↔
      function = c.name ∧ ∃ pre ∈ c.precondition, pre.FirstPostState name) ∧
    ((∃ name, c.testMethod options = .error (.postStateBefore c.name name)) ↔ ¬c.IsOneState) ∧
    (∀ function cause, c.testMethod options = .error (.condition function cause) ↔
      function = c.name ∧ c.IsOneState ∧
        (cause = ⟨.call, .precondition⟩ ∧ c.ExposesBefore ∨
          cause = ⟨.call, .postcondition⟩ ∧ ¬c.ExposesBefore ∧ c.ExposesAfter)) ∧
    ((∃ m, c.testMethod options = .ok m) ↔
      c.IsOneState ∧ ¬c.ExposesBefore ∧ ¬c.ExposesAfter) := by
  have hpostState (function name : String) :
      c.testMethod options = .error (.postStateBefore function name) ↔
        function = c.name ∧ ∃ pre ∈ c.precondition, pre.FirstPostState name := by
    simp only [testMethod_eq_error_iff, assumption_eq_error_iff, assertion_eq_error_iff]
    constructor
    · rintro ((⟨pre, hpre, _, hname, heq⟩ | ⟨-, -, heq⟩) | ⟨-, -, heq⟩) <;> cases heq
      exact ⟨rfl, pre, hpre, hname⟩
    · rintro ⟨rfl, pre, hpre, hname⟩
      exact .inl (.inl ⟨pre, hpre, name, hname, rfl⟩)
  refine ⟨hpostState, ?named, fun function cause => ?condition, ?succeeds⟩
  case named =>
    simp only [hpostState, true_and, ← not_exists_firstPostState_iff, not_not]
    exact ⟨fun ⟨name, pre, hpre, hname⟩ => ⟨pre, hpre, name, hname⟩,
      fun ⟨pre, hpre, name, hname⟩ => ⟨name, pre, hpre, hname⟩⟩
  case condition =>
    simp only [testMethod_eq_error_iff, assumption_eq_error_iff, exists_assumption_iff,
      assertion_eq_error_iff]
    constructor
    · rintro ((⟨_, _, _, _, heq⟩ | ⟨hone, hbefore, heq⟩) | ⟨⟨hone, hbefore⟩, hafter, heq⟩) <;>
        cases heq
      · exact ⟨rfl, hone, .inl ⟨rfl, hbefore⟩⟩
      · exact ⟨rfl, hone, .inr ⟨rfl, hbefore, hafter⟩⟩
    · rintro ⟨rfl, hone, ⟨rfl, hbefore⟩ | ⟨rfl, hbefore, hafter⟩⟩
      · exact .inl (.inr ⟨hone, hbefore, rfl⟩)
      · exact .inr ⟨⟨hone, hbefore⟩, hafter, rfl⟩
  case succeeds =>
    rw [exists_testMethod_iff, exists_assumption_iff, exists_assertion_iff, and_assoc]

/-- The post-state in `x['(y)] > 0` is found, although the assumption would be `x > 0`. -/
example : testMethod {} ⟨"f", ⟨"f", [⟨"x", "int"⟩], "int"⟩,
    some (.binary .greater (.index (.var "x") (.postState "y")) (.int 0)), none⟩ =
      .error (.postStateBefore "f" "y") := rfl

end Contract

end ContractTests
