import ContractTests.Proofs.Sharing.Fixpoint
import ContractTests.Proofs.TestMethod.Scoping

/-! # The variables of a shared block

A variable refers to the last declaration of its name in scope. Sharing puts declarations of new
names into the block, new meaning that the block does not declare them: a variable that the block
reads or assigns to without a declaration may have such a name, and is captured. `Stmt.KeepsMeaning`
says that all variables refer to what they referred to, and that each one that has come in refers to
a declaration that was put in. It holds when nothing is captured (`Stmt.Rewrites.keepsMeaning`).
-/

set_option autoImplicit false

namespace ContractTests.Stmt

variable {scope scope' before body shared : List Stmt} {names : List String} {name : String}

/-! ## Variables and what they refer to -/

/-- The variable that a statement assigns to. -/
def target? : Stmt → Option String
  | .assign target _ => some target
  | _ => none

/-- The variables that a statement itself reads or assigns to. -/
def ownVariables (s : Stmt) : List String :=
  s.target?.toList ++ s.expression?.toList.flatMap Expr.mentioned

/-- The variables that the statements of a block read or assign to, at any depth. -/
def allVariables (body : List Stmt) : List String := (nestedAll body).flatMap ownVariables

/-- The declaration in scope that a variable refers to: the last one of its name. -/
def declarationOf (scope : List Stmt) (name : String) : Option Stmt :=
  scope.reverse.find? fun s => s.declared? == some name

theorem declarationOf_append (scope before : List Stmt) (name : String) :
    declarationOf (scope ++ before) name =
      (declarationOf before name).or (declarationOf scope name) := by
  rw [declarationOf, List.reverse_append, List.find?_append, declarationOf, declarationOf]

theorem declarationOf_eq_none (h : name ∉ before.filterMap declared?) :
    declarationOf before name = none := by
  refine List.find?_eq_none.2 fun s hs hdeclares => h ?_
  exact List.mem_filterMap.2 ⟨s, List.mem_reverse.1 hs, beq_iff_eq.1 hdeclares⟩

theorem exists_declarationOf_eq (h : name ∈ before.filterMap declared?) :
    ∃ d ∈ before, declarationOf before name = some d := by
  obtain ⟨s, hs, hdeclares⟩ := List.mem_filterMap.1 h
  cases hfind : declarationOf before name with
  | none =>
    exact absurd (beq_iff_eq.2 hdeclares)
      (List.find?_eq_none.1 hfind s (List.mem_reverse.2 hs))
  | some d => exact ⟨d, List.mem_reverse.1 (List.mem_of_find?_eq_some hfind), rfl⟩

/-- The two scopes differ at most in declarations of the names. -/
def SameScope (names : List String) (scope scope' : List Stmt) : Prop :=
  ∀ name, name ∉ names → declarationOf scope' name = declarationOf scope name

theorem SameScope.append_both (h : SameScope names scope scope') (more : List Stmt) :
    SameScope names (scope ++ more) (scope' ++ more) := fun name hname => by
  rw [declarationOf_append, declarationOf_append, h name hname]

theorem SameScope.append (h : SameScope names scope scope')
    (hbefore : before.filterMap declared? ⊆ names) : SameScope names scope (scope' ++ before) :=
  fun name hname => by
    rw [declarationOf_append, declarationOf_eq_none fun hmem => hname (hbefore hmem),
      Option.none_or, h name hname]

/-! ## Meaning -/

/-- The expression stands after declarations that were put in. Each of its variables is one of the
condition and refers to what it referred to in the condition, or it refers to one of these
declarations. -/
def MeansIn (scope scope' : List Stmt) (condition : Expr) (before : List Stmt) (e : Expr) : Prop :=
  ∀ name ∈ e.mentioned,
    name ∈ condition.mentioned ∧
        declarationOf (scope' ++ before) name = declarationOf scope name ∨
      ∃ d ∈ before, declarationOf (scope' ++ before) name = some d

/-- In the second block and scope, the variables refer to what they refer to in the first ones,
apart from those that refer to a declaration put in. -/
inductive KeepsMeaning : List Stmt → List Stmt → List Stmt → List Stmt → Prop
  | nil {scope scope' : List Stmt} : KeepsMeaning scope scope' [] []
  | kept {s : Stmt} {scope scope' rest rest' : List Stmt} (hs : s.isKept = true)
      (h : ∀ name ∈ s.ownVariables, declarationOf scope' name = declarationOf scope name)
      (hrest : KeepsMeaning (scope ++ [s]) (scope' ++ [s]) rest rest') :
      KeepsMeaning scope scope' (s :: rest) (s :: rest')
  | assert {condition condition' : Expr} {declarations scope scope' rest rest' : List Stmt}
      (hinits : ∀ before d after init, declarations = before ++ d :: after →
        d.expression? = some init → MeansIn scope scope' condition before init)
      (h : MeansIn scope scope' condition declarations condition')
      (hrest : KeepsMeaning scope (scope' ++ declarations) rest rest') :
      KeepsMeaning scope scope' (.assert condition :: rest)
        (declarations ++ .assert condition' :: rest')
  | whenever {condition : Expr} {scope scope' body body' rest rest' : List Stmt} {returns : Bool}
      (h : ∀ name ∈ condition.mentioned, declarationOf scope' name = declarationOf scope name)
      (hbody : KeepsMeaning scope scope' body body')
      (hrest : KeepsMeaning scope scope' rest rest') :
      KeepsMeaning scope scope' (.whenever condition body returns :: rest)
        (.whenever condition body' returns :: rest')

theorem SameScope.meansIn {condition e : Expr} (h : SameScope names scope scope')
    (hcondition : ∀ name ∈ condition.mentioned, name ∉ names)
    (hbefore : before.filterMap declared? ⊆ names)
    (he : e.ReadsOnly (condition.mentioned ++ before.filterMap declared?)) :
    MeansIn scope scope' condition before e := by
  intro name hname
  rcases List.mem_append.1 (Expr.readsOnly_iff_mentioned.1 he name hname) with hold | hnew
  · exact .inl ⟨hold, h.append hbefore name (hcondition name hold)⟩
  · obtain ⟨d, hd, hdeclares⟩ := exists_declarationOf_eq hnew
    exact .inr ⟨d, hd, by rw [declarationOf_append, hdeclares, Option.some_or]⟩

theorem allVariables_cons (s : Stmt) (rest : List Stmt) :
    allVariables (s :: rest) = (nested s).flatMap ownVariables ++ allVariables rest := by
  rw [allVariables, nestedAll, List.flatMap_append, allVariables]

theorem ownVariables_of_isKept {s : Stmt} (hs : s.isKept = true) :
    (nested s).flatMap ownVariables = s.ownVariables := by
  cases s with
  | assert => cases hs
  | whenever => cases hs
  | _ => simp [nested]

/-- Where no variable has one of the names, sharing keeps the meaning of all variables. -/
theorem Rewrites.keepsMeaning (h : Rewrites (SharesWith names) body shared)
    (hfree : ∀ name ∈ allVariables body, name ∉ names) (hscope : SameScope names scope scope') :
    KeepsMeaning scope scope' body shared := by
  induction h generalizing scope scope' with
  | nil => exact .nil
  | kept hs _ ih =>
    rw [allVariables_cons, ownVariables_of_isKept hs, List.forall_mem_append] at hfree
    exact .kept hs (fun name hname => hscope name (hfree.1 name hname))
      (ih hfree.2 (hscope.append_both _))
  | @assert condition condition' declarations rest rest' h _ ih =>
    obtain ⟨hshares, hnames⟩ := h
    obtain ⟨taken, rounds, hrounds, rfl, -⟩ := hshares.exists_rounds
    rw [allVariables_cons, List.forall_mem_append] at hfree
    have hcondition : ∀ name ∈ condition.mentioned, name ∉ names := fun name hname =>
      hfree.1 name (by simpa [nested, ownVariables, target?, expression?] using hname)
    -- what a declaration and the new condition read is of the condition or declared before
    have hreads : condition.ReadsOnly ([] ++ condition.mentioned) :=
      Expr.readsOnly_iff_mentioned.2 fun name hname => hname
    obtain ⟨hdeclarations, hresult⟩ := areWellScoped_rounds hrounds hreads
    refine .assert (fun before d after init heq hinit => ?_) ?_ (ih hfree.2 (hscope.append hnames))
    · rw [heq, areWellScoped_append, areWellScoped_cons] at hdeclarations
      have hbefore : before.filterMap declared? ⊆ names := by
        refine List.Subset.trans ?_ hnames
        rw [heq, List.filterMap_append]
        exact List.subset_append_left _ _
      have hmem : d ∈ rounds.map Expr.Round.declaration := by simp [heq]
      obtain ⟨r, -, rfl⟩ := List.mem_map.1 hmem
      cases hinit
      have hread := hdeclarations.2.1
      rw [Expr.Round.declaration, WellScoped] at hread
      exact hscope.meansIn hcondition hbefore hread
    · exact hscope.meansIn hcondition hnames hresult
  | @whenever condition _ _ _ _ _ _ _ ihbody ih =>
    rw [allVariables_cons, nested, List.flatMap_cons, List.forall_mem_append,
      List.forall_mem_append] at hfree
    obtain ⟨⟨hcondition, hbody⟩, hrest⟩ := hfree
    have hown : ∀ name ∈ condition.mentioned, name ∉ names := fun name hname =>
      hcondition name (by simpa [ownVariables, target?, expression?] using hname)
    exact .whenever (fun name hname => hscope name (hown name hname)) (ihbody hbody hscope)
      (ih hrest hscope)

/-! ## Captured variables -/

/-- Sharing captures no variable exactly when no variable without a declaration in the block has a
name that is put in, for example when none is named after the result of a method that an assertion
calls. Then all variables keep their meaning. -/
theorem shareCalls_captures_iff (h : shareCalls body = .ok shared) :
    ∃ names, Adds body names shared ∧
      ((∀ name ∈ names, name ∉ allVariables body) ↔
        ∀ name ∈ allVariables body, name ∉ declared body → name ∉ names) ∧
      ((∀ name ∈ allVariables body, name ∉ declared body →
          ∀ method ∈ assertedMethods body, ∀ n, name ≠ Expr.resultName method n) →
        ∀ name ∈ names, name ∉ allVariables body) ∧
      ((∀ name ∈ names, name ∉ allVariables body) → KeepsMeaning [] [] body shared) := by
  obtain ⟨names, hadds⟩ := exists_adds h
  have huncaptured : (∀ name ∈ allVariables body, name ∉ declared body → name ∉ names) →
      ∀ name ∈ names, name ∉ allVariables body := fun hfree name hname hvariable =>
    hfree name hvariable (hadds.fresh name hname) hname
  refine ⟨names, hadds, ⟨fun hfree name hvariable _ hname => hfree name hname hvariable,
    huncaptured⟩, fun hresults => huncaptured fun name hvariable hundeclared hname => ?_,
    fun hfree => ?_⟩
  · obtain ⟨method, hmethod, n, hn⟩ := hadds.ofResults name hname
    exact hresults name hvariable hundeclared method hmethod n hn
  · refine hadds.shares.keepsMeaning ?_ fun _ _ => rfl
    exact fun name hvariable hname => hfree name hname hvariable

/-- The assertion `(f() == f()) == f_result`. -/
def undeclaredResult : List Stmt :=
  [.assert (.binary .equal (.binary .equal (.call "f" []) (.call "f" [])) (.var "f_result"))]

/-- The same assertion after a declaration of `f_result`. -/
def declaredResult : List Stmt := .input "boolean" "f_result" :: undeclaredResult

theorem declaredResult_keepsMeaning_undeclaredResult_captured :
    (∃ shared, shareCalls declaredResult = .ok shared ∧ Adds declaredResult ["f_result_2"] shared ∧
      KeepsMeaning [] [] declaredResult shared) ∧
    ∃ shared, shareCalls undeclaredResult = .ok shared ∧ Adds undeclaredResult ["f_result"] shared ∧
      "f_result" ∈ allVariables undeclaredResult := by
  obtain ⟨shared, hshared⟩ : ∃ shared, shareCalls declaredResult = .ok shared := ⟨_, rfl⟩
  obtain ⟨captured, hcaptured⟩ : ∃ shared, shareCalls undeclaredResult = .ok shared := ⟨_, rfl⟩
  obtain ⟨names, hadds, -, -, hkeeps⟩ := shareCalls_captures_iff hshared
  obtain ⟨names', hadds', -⟩ := shareCalls_captures_iff hcaptured
  have hnames : names = ["f_result_2"] := by
    have hperm := hadds.declared
    cases hshared
    exact (List.singleton_perm.1 ((List.perm_cons _).1 hperm)).symm
  have hnames' : names' = ["f_result"] := by
    have hperm := hadds'.declared
    cases hcaptured
    exact (List.singleton_perm.1 hperm).symm
  subst hnames hnames'
  exact ⟨⟨shared, hshared, hadds, hkeeps (by decide)⟩, captured, hcaptured, hadds', by decide⟩

end ContractTests.Stmt
