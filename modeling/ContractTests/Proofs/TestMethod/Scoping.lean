import ContractTests.Proofs.TestClass.Rendered
import ContractTests.Proofs.TestMethod.Hygiene

/-! # The scope of a test method

A block is well scoped when every variable that a statement reads, and every target of an assignment,
is declared before, in the same block or in one around it. Some names may be read without a
declaration: the class under test, `System`, and the variables of the conditions that are no
parameters (`Contract.freeNames`).

The inputs come first, and all that a test method reads is declared by then or right before it is
read. The result is declared outside of the guarded block that assigns it, so that the assertion
after the block finds it (`Contract.wellScoped_testMethod`). Sharing puts every declaration before
the assertion and before the later declarations that mention its variable
(`Stmt.Rewrites.wellScoped`).
-/

set_option autoImplicit false

namespace ContractTests

/-! ## Variables of expressions -/

namespace Expr

/-- The variables of the expression, plain or under post-state, are among the names. -/
def ReadsOnly (names : List String) (e : Expr) : Prop :=
  Everywhere (fun x => ∀ name ∈ x.mentioned?, name ∈ names) e

section

variable {names more : List String} {e left right : Expr} {es : List Expr}

theorem ignoresChildren_mentioned (names : List String) :
    IgnoresChildren fun x => ∀ name ∈ x.mentioned?, name ∈ names := by
  intro R e e' hp h
  have hmentioned : e'.mentioned? = e.mentioned? := by cases hp <;> rfl
  rwa [hmentioned]

theorem readsOnly_iff : e.ReadsOnly names ↔
    (∀ name ∈ e.mentioned?, name ∈ names) ∧ ∀ c ∈ e.children, c.ReadsOnly names :=
  everywhere_iff

theorem readsOnly_iff_mentioned : e.ReadsOnly names ↔ ∀ name ∈ e.mentioned, name ∈ names := by
  unfold ReadsOnly Everywhere mentioned
  simp only [List.mem_eraseDups, List.mem_filterMap, forall_exists_index, and_imp, Option.mem_def]
  exact ⟨fun h name x hx hname => h x hx name hname, fun h x hx name hname => h name x hx hname⟩

theorem ReadsOnly.mono (h : e.ReadsOnly names) (hmore : names ⊆ more) : e.ReadsOnly more :=
  fun x hx name hname => hmore (h x hx name hname)

@[simp] theorem readsOnly_var {name : String} : (var name).ReadsOnly names ↔ name ∈ names := by
  rw [readsOnly_iff]
  simp [mentioned?, children]

@[simp] theorem readsOnly_literal {value : Literal} : (literal value).ReadsOnly names := by
  rw [readsOnly_iff]
  simp [mentioned?, children]

@[simp] theorem readsOnly_binary {op : BinaryOp} :
    (binary op left right).ReadsOnly names ↔ left.ReadsOnly names ∧ right.ReadsOnly names := by
  rw [readsOnly_iff]
  simp [mentioned?, children]

@[simp] theorem readsOnly_field {name : String} :
    (field e name).ReadsOnly names ↔ e.ReadsOnly names := by
  rw [readsOnly_iff]
  simp [mentioned?, children]

@[simp] theorem readsOnly_index :
    (index left right).ReadsOnly names ↔ left.ReadsOnly names ∧ right.ReadsOnly names := by
  rw [readsOnly_iff]
  simp [mentioned?, children]

@[simp] theorem readsOnly_send {name : String} : (send e name es).ReadsOnly names ↔
    e.ReadsOnly names ∧ ∀ argument ∈ es, argument.ReadsOnly names := by
  rw [readsOnly_iff]
  simp [mentioned?, children]

@[simp] theorem readsOnly_create {type : String} :
    (create type es).ReadsOnly names ↔ ∀ argument ∈ es, argument.ReadsOnly names := by
  rw [readsOnly_iff]
  simp [mentioned?, children]

@[simp] theorem readsOnly_conditional : (conditional e left right).ReadsOnly names ↔
    e.ReadsOnly names ∧ left.ReadsOnly names ∧ right.ReadsOnly names := by
  rw [readsOnly_iff]
  simp [mentioned?, children]

@[simp] theorem readsOnly_cast {type : String} :
    (cast type e).ReadsOnly names ↔ e.ReadsOnly names := by
  rw [readsOnly_iff]
  simp [mentioned?, children]

theorem ReadsOnly.joined {op : BinaryOp} (h : joined? op es = some e)
    (hes : ∀ x ∈ es, x.ReadsOnly names) : e.ReadsOnly names := by
  cases es with
  | nil => cases h
  | cons first rest =>
    obtain ⟨hfirst, hrest⟩ := List.forall_mem_cons.1 hes
    cases h
    exact List.foldlRecOn rest (binary op) hfirst fun x hx y hy =>
      readsOnly_binary.2 ⟨hx, hrest y hy⟩

theorem ReadsOnly.nullSafe (h : e.ReadsOnly names) (isNullable : String → Bool) :
    (e.nullSafe isNullable).ReadsOnly names :=
  Everywhere.nullSafe (ignoresChildren_mentioned names) (fun _ _ _ => nofun) (fun _ => nofun) nofun
    (fun _ _ => nofun) h isNullable

end

end Expr

/-! ## Well-scoped blocks -/

namespace Stmt

mutual

/-- What the statement reads is free or in scope, and what it assigns to is in scope. -/
def WellScoped (free scope : List String) : Stmt → Prop
  | .input _ _ => True
  | .declare _ _ init => init.ReadsOnly (free ++ scope)
  | .assign target value => target ∈ scope ∧ value.ReadsOnly (free ++ scope)
  | .assume condition => condition.ReadsOnly (free ++ scope)
  | .assert condition => condition.ReadsOnly (free ++ scope)
  | .perform call => call.ReadsOnly (free ++ scope)
  | .whenever condition body _ =>
    condition.ReadsOnly (free ++ scope) ∧ AreWellScoped free scope body

/-- Every statement of the block is well scoped, with the names declared before it in scope. -/
def AreWellScoped (free scope : List String) : List Stmt → Prop
  | [] => True
  | s :: rest => WellScoped free scope s ∧ AreWellScoped free (scope ++ s.declared?.toList) rest

end

variable {free scope wider : List String} {body rest : List Stmt}

@[simp] theorem areWellScoped_nil : AreWellScoped free scope [] := by
  rw [AreWellScoped]
  trivial

@[simp] theorem areWellScoped_cons {s : Stmt} : AreWellScoped free scope (s :: rest) ↔
    s.WellScoped free scope ∧ AreWellScoped free (scope ++ s.declared?.toList) rest := by
  rw [AreWellScoped]

theorem append_subset_append (hwider : scope ⊆ wider) (names : List String) :
    scope ++ names ⊆ wider ++ names :=
  List.append_subset.2 ⟨List.Subset.trans hwider (List.subset_append_left _ _), List.subset_append_right _ _⟩

theorem subset_scope (hwider : scope ⊆ wider) : free ++ scope ⊆ free ++ wider :=
  List.append_subset.2 ⟨List.subset_append_left _ _, List.Subset.trans hwider (List.subset_append_right _ _)⟩

mutual

theorem WellScoped.mono : ∀ {s : Stmt} {scope wider : List String}, s.WellScoped free scope →
    scope ⊆ wider → s.WellScoped free wider
  | .input .., _, _, _, _ => by simp only [WellScoped]
  | .declare .., _, _, h, hwider => by
    simp only [WellScoped] at h ⊢
    exact h.mono (subset_scope hwider)
  | .assign .., _, _, h, hwider => by
    simp only [WellScoped] at h ⊢
    exact ⟨hwider h.1, h.2.mono (subset_scope hwider)⟩
  | .assume _, _, _, h, hwider => by
    simp only [WellScoped] at h ⊢
    exact h.mono (subset_scope hwider)
  | .assert _, _, _, h, hwider => by
    simp only [WellScoped] at h ⊢
    exact h.mono (subset_scope hwider)
  | .perform _, _, _, h, hwider => by
    simp only [WellScoped] at h ⊢
    exact h.mono (subset_scope hwider)
  | .whenever .., _, _, h, hwider => by
    simp only [WellScoped] at h ⊢
    exact ⟨h.1.mono (subset_scope hwider), AreWellScoped.mono h.2 hwider⟩

theorem AreWellScoped.mono : ∀ {body : List Stmt} {scope wider : List String},
    AreWellScoped free scope body → scope ⊆ wider → AreWellScoped free wider body
  | [], _, _, _, _ => areWellScoped_nil
  | _ :: _, _, _, h, hwider => by
    rw [areWellScoped_cons] at h ⊢
    exact ⟨h.1.mono hwider, h.2.mono (append_subset_append hwider _)⟩

end

theorem filterMap_declared?_cons (s : Stmt) (rest : List Stmt) :
    (s :: rest).filterMap declared? = s.declared?.toList ++ rest.filterMap declared? := by
  rw [List.filterMap_cons]
  cases s.declared? <;> rfl

/-- What a block declares itself is in scope after it. -/
@[simp] theorem areWellScoped_append : AreWellScoped free scope (body ++ rest) ↔
    AreWellScoped free scope body ∧ AreWellScoped free (scope ++ body.filterMap declared?) rest := by
  induction body generalizing scope with
  | nil => simp
  | cons s body ih =>
    rw [List.cons_append, areWellScoped_cons, areWellScoped_cons, ih, and_assoc, List.append_assoc,
      filterMap_declared?_cons]

/-- Statements that are well scoped each are so one after the other. -/
theorem areWellScoped_of_forall (h : ∀ s ∈ body, s.WellScoped free scope) :
    AreWellScoped free scope body := by
  induction body generalizing scope with
  | nil => exact areWellScoped_nil
  | cons s body ih =>
    obtain ⟨hs, hbody⟩ := List.forall_mem_cons.1 h
    refine areWellScoped_cons.2 ⟨hs, ih fun t ht => ?_⟩
    exact (hbody t ht).mono (List.subset_append_left _ _)

/-! ## Sharing -/

/-- Each round declares a call of what the condition has become, over the variables in scope, and
puts the variable that it declares in the call's place. -/
theorem areWellScoped_rounds {condition result : Expr} {taken : List String}
    {rounds : List Expr.Round} (h : Expr.Rounds condition taken rounds result)
    (hcondition : condition.ReadsOnly (free ++ scope)) :
    AreWellScoped free scope (rounds.map Expr.Round.declaration) ∧
      result.ReadsOnly
        (free ++ (scope ++ (rounds.map Expr.Round.declaration).filterMap declared?)) := by
  induction h generalizing scope with
  | done => simpa using hcondition
  | @round condition call result occurrence taken rounds found _ ih =>
    obtain ⟨hmem, -⟩ := Expr.mem_calls_iff.1 (Expr.mem_calls_of_repeatedCall found)
    set name := Expr.resultVariable taken call
    have hwider : scope ⊆ scope ++ [name] := List.subset_append_left _ _
    have hnamed : (occurrence.named name condition).ReadsOnly (free ++ (scope ++ [name])) := by
      refine (hcondition.mono (subset_scope hwider)).named (Expr.ignoresChildren_mentioned _) _ ?_
      simp [Expr.mentioned?]
    obtain ⟨hdeclarations, hresult⟩ := ih hnamed
    rw [List.map_cons, areWellScoped_cons, filterMap_declared?_cons, ← List.append_assoc scope]
    refine ⟨⟨?_, hdeclarations⟩, hresult⟩
    rw [Expr.Round.declaration, WellScoped]
    exact Expr.Everywhere.subterm hcondition hmem

/-- A well-scoped block stays well scoped when its assertions are shared. -/
theorem Rewrites.areWellScoped {shared : List Stmt} (h : Rewrites SharesAs body shared)
    (hbody : AreWellScoped free scope body) : AreWellScoped free scope shared := by
  induction h generalizing scope with
  | nil => exact hbody
  | kept _ _ ih =>
    rw [areWellScoped_cons] at hbody ⊢
    exact ⟨hbody.1, ih hbody.2⟩
  | @assert condition condition' declarations rest rest' h _ ih =>
    obtain ⟨hcondition, hrest⟩ := areWellScoped_cons.1 hbody
    obtain ⟨taken, taken', hshare⟩ := h
    obtain ⟨rounds, hrounds, rfl, -⟩ := Expr.rounds_of_share hshare
    rw [WellScoped] at hcondition
    obtain ⟨hdeclarations, hresult⟩ := areWellScoped_rounds hrounds hcondition
    rw [areWellScoped_append, areWellScoped_cons, WellScoped]
    refine ⟨hdeclarations, hresult, (ih hrest).mono ?_⟩
    exact append_subset_append (List.subset_append_left _ _) _
  | whenever _ _ ihbody ih =>
    simp only [areWellScoped_cons, WellScoped] at hbody ⊢
    exact ⟨⟨hbody.1.1, ihbody hbody.1.2⟩, ih hbody.2⟩

end Stmt

/-! ## The parts of a test method -/

namespace Contract

open Stmt (AreWellScoped areWellScoped_of_forall areWellScoped_cons areWellScoped_append)

variable {c : Contract} {options : ClassOptions} {test : TestMethod} {scope : List String}

/-- The names that a test method may read without a declaration. -/
def freeNames (c : Contract) (options : ClassOptions) : List String :=
  options.targetClass :: "System" ::
    c.conditionVariables.filter fun name => !c.signature.parameterNames.contains name

/-- Each variable of a condition is free or a parameter. -/
theorem readsOnly_condition {condition : Expr}
    (h : some condition ∈ [c.precondition, c.postcondition])
    (hscope : c.signature.parameterNames ⊆ scope) :
    condition.ReadsOnly (c.freeNames options ++ scope) := by
  rw [Expr.readsOnly_iff_mentioned]
  intro name hname
  have hvariable : name ∈ c.conditionVariables := List.mem_flatMap.2 ⟨some condition, h, hname⟩
  by_cases hparameter : name ∈ c.signature.parameterNames
  · exact List.mem_append_right _ (hscope hparameter)
  · exact List.mem_append_left _ (by simp [freeNames, hvariable, hparameter])

theorem readsOnly_parameter {p : Parameter} (hscope : c.signature.parameterNames ⊆ scope)
    (hp : p ∈ c.parameters) : (Expr.var p.name).ReadsOnly (c.freeNames options ++ scope) :=
  Expr.readsOnly_var.2 (List.mem_append_right _ (hscope (mem_parameterNames hp)))

theorem readsOnly_assumption {condition : Expr} (h : c.assumption = .ok condition)
    (hscope : c.signature.parameterNames ⊆ scope) :
    condition.ReadsOnly (c.freeNames options ++ scope) := by
  obtain ⟨-, rfl⟩ | ⟨pre, hpre, hout⟩ := assumption_eq_ok h
  · exact Expr.readsOnly_literal
  · refine Expr.Everywhere.asAssumption (Expr.ignoresChildren_mentioned _) hout ?_
    exact readsOnly_condition (by simp [hpre]) hscope

theorem readsOnly_nullTests (hscope : c.signature.parameterNames ⊆ scope) (op : BinaryOp) :
    ∀ e ∈ c.nullable.map (nullTest op), e.ReadsOnly (c.freeNames options ++ scope) := by
  refine List.forall_mem_map.2 fun p hp => Expr.readsOnly_binary.2 ⟨?_, Expr.readsOnly_literal⟩
  exact readsOnly_parameter hscope (List.mem_of_mem_filter hp)

/-! ### Before the call -/

theorem areWellScoped_inputs : AreWellScoped (c.freeNames options) [] c.inputs := by
  rw [inputs, areWellScoped_append]
  refine ⟨areWellScoped_of_forall (List.forall_mem_map.2 fun p _ => ?input),
    areWellScoped_of_forall (List.forall_mem_map.2 fun p hp => ?container)⟩
  case input => rw [Stmt.WellScoped]; trivial
  case container =>
    have hdeclared : (c.parameters.map fun p => Stmt.input p.type p.name).filterMap Stmt.declared? =
        c.signature.parameterNames := by
      rw [List.filterMap_map]
      exact congrFun List.filterMap_eq_map c.parameters
    have hvar : (Expr.var p.name).ReadsOnly
        (c.freeNames options ++ c.signature.parameterNames) :=
      readsOnly_parameter (List.Subset.refl _) (List.mem_of_mem_filter hp)
    rw [Stmt.WellScoped, hdeclared, List.nil_append]
    simpa using hvar

theorem areWellScoped_snapshotDeclarations (hscope : c.signature.parameterNames ⊆ scope) :
    AreWellScoped (c.freeNames options) scope c.snapshotDeclarations := by
  refine areWellScoped_of_forall (List.forall_mem_map.2 fun p hp => ?_)
  have hvar : (Expr.var p.name).ReadsOnly (c.freeNames options ++ scope) :=
    readsOnly_parameter hscope (mem_parameters_of_mem_snapshotted hp)
  rw [Stmt.WellScoped, snapshotValue]
  split
  · simp only [Expr.readsOnly_conditional, Expr.readsOnly_binary, Expr.readsOnly_create,
      List.forall_mem_singleton]
    exact ⟨⟨hvar, Expr.readsOnly_literal⟩, Expr.readsOnly_literal, hvar⟩
  · exact hvar
  · exact hvar

theorem areWellScoped_nullGuard (hscope : c.signature.parameterNames ⊆ scope) :
    AreWellScoped (c.freeNames options) scope c.nullGuard := by
  unfold nullGuard
  split
  · exact Stmt.areWellScoped_nil
  · rename_i anyNull hany
    refine areWellScoped_of_forall (List.forall_mem_cons.2 ⟨?_, List.forall_mem_map.2 fun p hp => ?_⟩)
    · rw [Stmt.WellScoped]
      exact ⟨.joined hany (readsOnly_nullTests hscope _), Stmt.areWellScoped_nil⟩
    · rw [Stmt.WellScoped]
      exact readsOnly_nullTests hscope .notEqual _ (List.mem_map_of_mem hp)

theorem areWellScoped_echoes (hscope : c.signature.parameterNames ⊆ scope) :
    AreWellScoped (c.freeNames options) scope (c.echoes options) := by
  unfold echoes
  split
  · refine areWellScoped_of_forall (List.forall_mem_map.2 fun p hp => ?_)
    have hvar : (Expr.var p.name).ReadsOnly (c.freeNames options ++ scope) :=
      readsOnly_parameter hscope ((echoed_sublist _ _).subset hp)
    have hsystem : "System" ∈ c.freeNames options := by simp [freeNames]
    rw [echo, Stmt.WellScoped]
    simp only [Expr.readsOnly_send, Expr.readsOnly_field, Expr.readsOnly_var,
      Expr.readsOnly_binary, List.forall_mem_singleton]
    exact ⟨List.mem_append_left _ hsystem, Expr.readsOnly_literal, by simpa using hvar⟩
  · exact Stmt.areWellScoped_nil

/-! ### The call -/

theorem containerName_mem {name : String} (h : name ∈ c.contained) :
    containerName name ∈ c.containerNames := by
  obtain ⟨p, hp, hcontained, rfl⟩ := mem_contained_iff_exists.1 h
  exact List.mem_map_of_mem (List.mem_filter.2 ⟨hp, hcontained⟩)

theorem readsOnly_defaultValue (names : List String) (type : String) :
    (defaultValue type).ReadsOnly names := by
  simp only [defaultValue]
  repeat' split
  all_goals simp [Expr.bool, Expr.int, Expr.null]

/-- There is a guard around the call when a parameter may be null. -/
theorem callStatements_eq (c : Contract) (options : ClassOptions) :
    (∃ allPresent, c.isGuarded = true ∧
        Expr.conjunction? (c.nullable.map (nullTest .notEqual)) = some allPresent ∧
        c.callStatements options = (c.invocation options).before ++
          [.whenever allPresent ((c.invocation options).block ++ c.writeBacks) false]) ∨
      c.isGuarded = false ∧ c.callStatements options =
        (c.invocation options).before ++ ((c.invocation options).block ++ c.writeBacks) := by
  simp only [callStatements, isGuarded]
  cases c.nullable with
  | nil => exact .inr ⟨rfl, rfl⟩
  | cons p rest => exact .inl ⟨_, rfl, rfl, rfl⟩

section

variable (hscope : c.signature.parameterNames ++ c.containerNames ⊆ scope)

include hscope

theorem readsOnly_testedCall :
    (c.testedCall options).ReadsOnly (c.freeNames options ++ scope) := by
  have htarget : options.targetClass ∈ c.freeNames options := by simp [freeNames]
  rw [testedCall, Expr.readsOnly_send, Expr.readsOnly_var, List.forall_mem_map]
  refine ⟨List.mem_append_left _ htarget, fun p hp => ?_⟩
  rw [Expr.readsOnly_var]
  refine List.mem_append_right _ (hscope ?_)
  split
  · rename_i hcontained
    exact List.mem_append_right _ (containerName_mem (List.contains_iff_mem.1 hcontained))
  · exact List.mem_append_left _ (mem_parameterNames hp)

theorem areWellScoped_writeBacks :
    AreWellScoped (c.freeNames options) scope c.writeBacks := by
  refine areWellScoped_of_forall (List.forall_mem_map.2 fun name hname => ?_)
  obtain ⟨p, hp, -, rfl⟩ := mem_contained_iff_exists.1 hname
  rw [Stmt.WellScoped, Expr.readsOnly_index, Expr.readsOnly_var]
  refine ⟨hscope (List.mem_append_left _ (mem_parameterNames hp)), ?_, Expr.readsOnly_literal⟩
  exact List.mem_append_right _ (hscope (List.mem_append_right _ (containerName_mem hname)))

/-- The statements of the call are well scoped, and the variable that post-state reads is declared
before the call, or by the call when there is no guard around it. -/
theorem areWellScoped_invocation (options : ClassOptions) :
    AreWellScoped (c.freeNames options) scope
        ((c.invocation options).before ++ (c.invocation options).block) ∧
      ∀ name ∈ (c.invocation options).binding,
        name ∈ scope ++ (c.invocation options).before.filterMap Stmt.declared? ∨
          c.isGuarded = false ∧ name ∈ (c.invocation options).block.filterMap Stmt.declared? := by
  have hcall : (c.testedCall options).ReadsOnly (c.freeNames options ++ scope) :=
    readsOnly_testedCall hscope
  have hparameter {name : String} (h : c.observed? = some name) : name ∈ scope := by
    obtain ⟨p, hp, rfl, -⟩ := observed?_eq_some h
    exact hscope (List.mem_append_left _ (mem_parameterNames hp))
  cases hobserved : c.observed? with
  | some observed =>
    have hmem := hparameter hobserved
    by_cases hcontained : observed ∈ c.contained
    · rw [invocation_of_contained options hobserved hcontained]
      simp [Stmt.WellScoped, hcall, hmem]
    · rw [invocation_of_rebound options hobserved hcontained]
      simp [Stmt.WellScoped, hcall, hmem]
  | none =>
    cases hvoid : c.signature.returnsVoid with
    | true =>
      rw [invocation_of_void options hobserved hvoid]
      simp [Stmt.WellScoped, hcall]
    | false =>
      rw [invocation_of_result options hobserved hvoid]
      cases hguarded : c.isGuarded with
      | true =>
        have hwider := hcall.mono (Stmt.subset_scope (List.subset_append_left scope [c.resultName]))
        simp [Stmt.WellScoped, Stmt.declared?, readsOnly_defaultValue, hwider]
      | false => simp [Stmt.WellScoped, Stmt.declared?, hcall]

/-- The variable that post-state reads is in scope after the call statements. -/
theorem areWellScoped_callStatements (options : ClassOptions) :
    AreWellScoped (c.freeNames options) scope (c.callStatements options) ∧
      ∀ name ∈ (c.invocation options).binding,
        name ∈ scope ++ (c.callStatements options).filterMap Stmt.declared? := by
  obtain ⟨hinvocation, hbinding⟩ := areWellScoped_invocation hscope options
  obtain ⟨hbefore, hblock⟩ := areWellScoped_append.1 hinvocation
  set before := (c.invocation options).before
  set block := (c.invocation options).block
  have hwider {wider : List String} (hmore : scope ⊆ wider) :
      c.signature.parameterNames ++ c.containerNames ⊆ wider := List.Subset.trans hscope hmore
  have houter : scope ⊆ scope ++ before.filterMap Stmt.declared? := List.subset_append_left _ _
  have hinner : AreWellScoped (c.freeNames options) (scope ++ before.filterMap Stmt.declared?)
      (block ++ c.writeBacks) := by
    refine areWellScoped_append.2 ⟨hblock, areWellScoped_writeBacks (hwider ?_)⟩
    exact List.Subset.trans houter (List.subset_append_left _ _)
  rcases callStatements_eq c options with ⟨allPresent, hguarded, hall, heq⟩ | ⟨-, heq⟩
  · rw [heq, areWellScoped_append, areWellScoped_cons, Stmt.WellScoped, List.filterMap_append]
    refine ⟨⟨hbefore, ⟨.joined hall ?_, hinner⟩, Stmt.areWellScoped_nil⟩, fun name hname => ?_⟩
    · exact readsOnly_nullTests (List.Subset.trans (List.subset_append_left _ _) (hwider houter)) _
    · rcases hbinding name hname with hdeclared | ⟨hnot, -⟩
      · rw [← List.append_assoc]
        exact List.mem_append_left _ hdeclared
      · rw [hguarded] at hnot
        cases hnot
  · rw [heq, areWellScoped_append, List.filterMap_append, List.filterMap_append]
    refine ⟨⟨hbefore, hinner⟩, fun name hname => ?_⟩
    rw [← List.append_assoc]
    rcases hbinding name hname with hdeclared | ⟨-, hdeclared⟩
    · exact List.mem_append_left _ hdeclared
    · exact List.mem_append_right _ (List.mem_append_left _ hdeclared)

end

/-! ### After the call -/

theorem areWellScoped_assertion {binding : Option String} {checks : List Stmt}
    (h : c.assertion binding = .ok checks)
    (hscope : c.signature.parameterNames ++ c.snapshotNames ⊆ scope)
    (hbinding : ∀ name ∈ binding, name ∈ scope) :
    AreWellScoped (c.freeNames options) scope checks := by
  obtain ⟨-, rfl⟩ | ⟨post, out, hpost, hout, rfl⟩ := assertion_eq_ok h
  · exact Stmt.areWellScoped_nil
  · have hcondition : post.ReadsOnly (c.freeNames options ++ scope) :=
      readsOnly_condition (by simp [hpost])
        (List.Subset.trans (List.subset_append_left _ _) hscope)
    have hassertion : out.ReadsOnly (c.freeNames options ++ scope) := by
      refine Expr.Everywhere.asAssertion (Expr.ignoresChildren_mentioned _) hout hcondition
        (fun name hname => ?plain) (fun name hname => ?live)
      case plain =>
        rintro _ ⟨⟩
        cases hlookup : c.snapshots.lookup name with
        | none => exact hname name rfl
        | some snapshot =>
          obtain ⟨p, hp, -, rfl⟩ := exists_of_lookup_snapshots hlookup
          exact List.mem_append_right _ (hscope (List.mem_append_right _ (List.mem_map_of_mem hp)))
      case live =>
        rintro _ ⟨⟩
        cases binding with
        | none => exact hname name rfl
        | some bound => exact List.mem_append_right _ (hbinding bound rfl)
    rw [areWellScoped_cons, Stmt.WellScoped]
    exact ⟨hassertion.nullSafe _, Stmt.areWellScoped_nil⟩

/-! ## The whole method -/

theorem areWellScoped_testMethod (h : c.testMethod options = .ok test) :
    AreWellScoped (c.freeNames options) [] test.body := by
  obtain ⟨assumption, checks, hassumption, hchecks, hbody⟩ := testMethod_eq_ok h
  have hdeclared {body : List Stmt} (hbody : body.filter Stmt.writes = []) :
      body.filterMap Stmt.declared? = [] := by
    rw [← Stmt.filterMap_filter_writes fun _ => declared?_of_not_writes, hbody, List.filterMap_nil]
  rw [hbody]
  simp only [areWellScoped_append, areWellScoped_cons, Stmt.WellScoped, Stmt.declared?,
    Option.toList_none, List.append_nil, List.nil_append, filterMap_declared_inputs,
    filterMap_declared_snapshotDeclarations, hdeclared (filter_writes_nullGuard c),
    hdeclared (filter_writes_echoes c options)]
  set entry := c.signature.parameterNames ++ c.containerNames
  have hparameters : c.signature.parameterNames ⊆ entry := List.subset_append_left _ _
  have hsnapshots : entry ⊆ entry ++ c.snapshotNames := List.subset_append_left _ _
  have hwider := List.Subset.trans hparameters hsnapshots
  obtain ⟨hcall, hbinding⟩ := areWellScoped_callStatements hsnapshots options
  refine ⟨areWellScoped_inputs, readsOnly_assumption hassumption hparameters,
    areWellScoped_snapshotDeclarations hparameters, areWellScoped_nullGuard hwider,
    areWellScoped_echoes hwider, hcall, areWellScoped_assertion hchecks ?_ hbinding⟩
  refine List.append_subset.2 ⟨List.Subset.trans hwider (List.subset_append_left _ _), ?_⟩
  exact List.Subset.trans (List.subset_append_right _ _) (List.subset_append_left _ _)

/-- The repeated calls of a test method can be shared, and then every variable that is read and every
target of an assignment is declared before, apart from the class under test, `System` and the
variables of the conditions that are no parameters. -/
theorem shareCalls_wellScoped (h : c.testMethod options = .ok test) :
    ∃ shared, Stmt.shareCalls test.body = .ok shared ∧
      AreWellScoped (c.freeNames options) [] shared := by
  have hplain : Stmt.ArePlain test.body := Vocabulary.ofBlock_plain_iff.1
    (c.ofVocabulary_plain.testMethod Vocabulary.lawful_plain trivial h)
  obtain ⟨shared, hshared, -⟩ := hplain.exists_shareCalls
  exact ⟨shared, hshared, (Stmt.rewrites_of_shareCalls hshared).areWellScoped
    (areWellScoped_testMethod h)⟩

/-- The contract of `List<Integer> pad(List<Integer> xs, int k)` with the precondition `k > 0` and
the postcondition
`'(xs).size() > xs.size() && '(xs).get('(xs).size()) == '(xs).get('(xs).size()) * STEP`. -/
def pad : Contract where
  name := "pad"
  signature := ⟨"pad", [⟨"xs", "List<Integer>"⟩, ⟨"k", "int"⟩], "List<Integer>"⟩
  precondition := some (.binary .greater (.var "k") (.int 0))
  postcondition :=
    let size : Expr := .send (.postState "xs") "size" []
    let last : Expr := .send (.postState "xs") "get" [size]
    some (.binary .and (.binary .greater size (.send (.var "xs") "size" []))
      (.binary .equal last (.binary .times last (.var "STEP"))))

theorem pad_shareCalls_wellScoped : ∃ test shared, pad.testMethod { echoInputs := true } = .ok test ∧
    Stmt.shareCalls test.body = .ok shared ∧
    Stmt.declared shared = ["xs", "k", "xs_old", "result", "size_result", "get_result"] ∧
    pad.freeNames { echoInputs := true } = ["Helper", "System", "STEP"] ∧
    AreWellScoped ["Helper", "System", "STEP"] [] shared := by
  obtain ⟨test, htest⟩ : ∃ test, pad.testMethod { echoInputs := true } = .ok test := ⟨_, rfl⟩
  obtain ⟨shared, hshared, hscoped⟩ := shareCalls_wellScoped htest
  have hdeclared : Stmt.declared shared =
      ["xs", "k", "xs_old", "result", "size_result", "get_result"] := by
    cases htest
    cases hshared
    rfl
  have hfree : pad.freeNames { echoInputs := true } = ["Helper", "System", "STEP"] := by decide
  exact ⟨test, shared, htest, hshared, hdeclared, hfree, hfree ▸ hscoped⟩

end Contract

end ContractTests
