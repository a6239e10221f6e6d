import ContractTests.Proofs.Java.Plain
import ContractTests.Proofs.TestMethod.Writes

/-! # Accesses behind the guard against null

`Scenario.evaluationsAll` lists the expressions that a run evaluates, each with the memory that it is
evaluated in, and `Scenario.Accesses` says which receivers are accessed in an evaluation, with `&&`,
`||` and the conditional evaluated lazily. Evaluation writes no variable, so that all of an
expression finds the variables as they are in that memory; and a run here does not stop at an access
to null, so that it has the evaluations of a run that does.

A test method assumes its precondition before the guard, so that the assumption may access a null
(`Contract.smallest_pick_dereferenceNull`). No other statement up to the guard accesses anything, and
what comes after it finds no null in a nullable parameter, as nothing is written there but the result
and primitive parameters (`Contract.accesses_behindGuard`).
-/

set_option autoImplicit false

universe u

namespace ContractTests

/-! ## Evaluated parts -/

namespace Expr

/-- The receiver of a field access, an index access or a call. -/
def receiver? : Expr → Option Expr
  | .field scope _ => some scope
  | .index base _ => some base
  | .send receiver _ _ => some receiver
  | _ => none

/-- There is no field access, index access or call with a receiver. -/
def IsAccessFree (e : Expr) : Prop := Everywhere (fun x => x.receiver? = none) e

theorem isAccessFree_iff {e : Expr} :
    e.IsAccessFree ↔ e.receiver? = none ∧ ∀ c ∈ e.children, c.IsAccessFree :=
  everywhere_iff

theorem IsAccessFree.joined {op : BinaryOp} {es : List Expr} {e : Expr} (h : joined? op es = some e)
    (hes : ∀ x ∈ es, x.IsAccessFree) : e.IsAccessFree := by
  cases es with
  | nil => cases h
  | cons first rest =>
    obtain ⟨hfirst, hrest⟩ := List.forall_mem_cons.1 hes
    cases h
    refine List.foldlRecOn rest (binary op) hfirst fun x hx y hy => isAccessFree_iff.2 ⟨rfl, ?_⟩
    simpa [children] using ⟨hx, hrest y hy⟩

end Expr

/-- The variable that a statement writes. -/
def Stmt.written? : Stmt → Option String
  | .input _ name => some name
  | .declare _ name _ => some name
  | .assign target _ => some target
  | _ => none

namespace Scenario

variable {D : Type u} (s : Scenario D) (m : Memory D)

/-- The children of a node that are evaluated with it. -/
def entered : Expr → List Expr
  | .binary .and left right => if s.truth m left then [left, right] else [left]
  | .binary .or left right => if s.truth m left then [left] else [left, right]
  | .conditional condition yes no => [condition, if s.truth m condition then yes else no]
  | e => e.children

/-- To evaluate the first expression, the second one is evaluated. -/
inductive Evaluates : Expr → Expr → Prop
  | self (e : Expr) : Evaluates e e
  | child {e c x : Expr} (hc : c ∈ s.entered m e) (hx : Evaluates c x) : Evaluates e x

/-- The evaluation of the expression accesses a field, an element or a method of the receiver. -/
def Accesses (e receiver : Expr) : Prop := ∃ x, s.Evaluates m e x ∧ x.receiver? = some receiver

/-- The variable that has the value of an expression, casts and conditionals apart. -/
def denoted? : Expr → Option String
  | .var name => some name
  | .cast _ operand => denoted? operand
  | .conditional condition yes no =>
    if s.truth m condition then denoted? yes else denoted? no
  | _ => none

/-- The evaluation of the expression accesses the variable. -/
def Dereferences (e : Expr) (name : String) : Prop :=
  ∃ receiver, s.Accesses m e receiver ∧ s.denoted? m receiver = some name

variable {s m} {e : Expr}

theorem mem_children_of_mem_entered {c : Expr} (h : c ∈ s.entered m e) : c ∈ e.children := by
  unfold entered at h
  split at h
  · split at h <;> simp_all [Expr.children]
  · split at h <;> simp_all [Expr.children]
  · split at h <;> simp_all [Expr.children] <;> tauto
  · exact h

theorem Evaluates.mem_subterms {x : Expr} (h : s.Evaluates m e x) : x ∈ e.subterms := by
  induction h with
  | self e => exact Expr.self_mem_subterms e
  | child hc _ ih => exact Expr.mem_subterms_of_mem_children (mem_children_of_mem_entered hc) ih

theorem not_accesses_of_isAccessFree (h : e.IsAccessFree) (receiver : Expr) :
    ¬ s.Accesses m e receiver := by
  rintro ⟨x, hx, hreceiver⟩
  rw [h x hx.mem_subterms] at hreceiver
  cases hreceiver

/-! ## Evaluations of a run -/

variable (s)

mutual

/-- The expressions that a statement evaluates, each with the memory that it is evaluated in. -/
def evaluations (m : Memory D) : Stmt → List (Expr × Memory D)
  | .input _ _ => []
  | .declare _ _ init => [(init, m)]
  | .assign _ value => [(value, m)]
  | .assume condition => [(condition, m)]
  | .assert condition => [(condition, m)]
  | .perform call => [(call, m)]
  | .whenever condition body _ =>
    (condition, m) :: if s.truth m condition then evaluationsAll m body else []

/-- The expressions that the statements of a block evaluate, up to the one that ends the method. -/
def evaluationsAll (m : Memory D) : List Stmt → List (Expr × Memory D)
  | [] => []
  | statement :: rest =>
    let r := s.run m statement
    evaluations m statement ++ if r.ending = .finished then evaluationsAll r.memory rest else []

end

variable {s}

theorem mem_evaluationsAll_append {first second : List Stmt} {m : Memory D}
    {x : Expr × Memory D} :
    x ∈ s.evaluationsAll m (first ++ second) ↔ x ∈ s.evaluationsAll m first ∨
      (s.runAll m first).ending = .finished ∧
        x ∈ s.evaluationsAll (s.runAll m first).memory second := by
  induction first generalizing m with
  | nil => simp [evaluationsAll, runAll_nil]
  | cons statement rest ih =>
    rw [List.cons_append, evaluationsAll, evaluationsAll, runAll_cons, List.mem_append,
      List.mem_append]
    obtain ⟨ending, m', events⟩ := s.run m statement
    cases ending with
    | finished => simp only [if_true, ih, Run.andThen, or_assoc]
    | _ => simp [Run.andThen]

mutual

theorem exists_of_mem_evaluations : ∀ {t : Stmt} {m : Memory D} {x : Expr × Memory D},
    x ∈ s.evaluations m t → ∃ t' ∈ t.nested, t'.expression? = some x.1
  | .input .., _, _, h => by simp [evaluations] at h
  | .declare .., _, _, h => by simp_all [evaluations, Stmt.nested, Stmt.expression?]
  | .assign .., _, _, h => by simp_all [evaluations, Stmt.nested, Stmt.expression?]
  | .assume _, _, _, h => by simp_all [evaluations, Stmt.nested, Stmt.expression?]
  | .assert _, _, _, h => by simp_all [evaluations, Stmt.nested, Stmt.expression?]
  | .perform _, _, _, h => by simp_all [evaluations, Stmt.nested, Stmt.expression?]
  | .whenever condition body returns, m, x, h => by
    rw [evaluations, List.mem_cons] at h
    rw [Stmt.nested]
    rcases h with rfl | h
    · exact ⟨_, List.mem_cons_self, rfl⟩
    · split at h
      · obtain ⟨t', ht', hx⟩ := exists_of_mem_evaluationsAll h
        exact ⟨t', List.mem_cons_of_mem _ ht', hx⟩
      · cases h

/-- What is evaluated is the expression of a statement, at some depth. -/
theorem exists_of_mem_evaluationsAll : ∀ {body : List Stmt} {m : Memory D} {x : Expr × Memory D},
    x ∈ s.evaluationsAll m body → ∃ t ∈ Stmt.nestedAll body, t.expression? = some x.1
  | [], _, _, h => by simp [evaluationsAll] at h
  | t :: rest, m, x, h => by
    rw [evaluationsAll, List.mem_append] at h
    rw [Stmt.nestedAll]
    rcases h with h | h
    · obtain ⟨t', ht', hx⟩ := exists_of_mem_evaluations h
      exact ⟨t', List.mem_append_left _ ht', hx⟩
    · split at h
      · obtain ⟨t', ht', hx⟩ := exists_of_mem_evaluationsAll h
        exact ⟨t', List.mem_append_right _ ht', hx⟩
      · cases h

end

/-! ## Variables that are not written -/

theorem evaluate_store (e : Expr) : (s.evaluate m e).memory.store = m.store := by
  fun_induction Scenario.evaluate s m e <;> simp_all

theorem andThen_of_finished {r : Run D} {next : Memory D → Run D}
    (h : (r.andThen next).ending = .finished) :
    r.ending = .finished ∧ (next r.memory).ending = .finished ∧
      (r.andThen next).memory = (next r.memory).memory := by
  unfold Run.andThen at h ⊢
  split
  · rename_i hr
    simp only [hr] at h
    exact ⟨hr, h, rfl⟩
  · rename_i hr
    split at h
    · contradiction
    · exact absurd h hr

theorem andThen_store {r : Run D} {next : Memory D → Run D} {name : String}
    (hr : r.memory.store name = m.store name)
    (hnext : ∀ m', m'.store name = m.store name → (next m').memory.store name = m.store name) :
    (r.andThen next).memory.store name = m.store name := by
  unfold Run.andThen
  split
  · exact hnext _ hr
  · exact hr

mutual

theorem run_store {name : String} : ∀ {t : Stmt} {m : Memory D},
    (∀ t' ∈ t.nested, t'.written? ≠ some name) → (s.run m t).memory.store name = m.store name
  | .input _ other, m, h => by
    have hne : other ≠ name := by simpa [Stmt.nested, Stmt.written?] using h
    rw [run, m.set_store_of_ne _ hne.symm]
  | .declare _ other init, m, h => by
    have hne : other ≠ name := by simpa [Stmt.nested, Stmt.written?] using h
    rw [run, Memory.set_store_of_ne _ _ hne.symm, evaluate_store]
  | .assign other value, m, h => by
    have hne : other ≠ name := by simpa [Stmt.nested, Stmt.written?] using h
    rw [run, Memory.set_store_of_ne _ _ hne.symm, evaluate_store]
  | .assume _, m, _ => by rw [run]
  | .assert _, m, _ => by rw [run]
  | .perform call, m, _ => by rw [run, evaluate_store]
  | .whenever condition body returns, m, h => by
    rw [run]
    split
    · refine andThen_store (runAll_store fun t' ht' => h t' ?_) fun m' hm' => hm'
      rw [Stmt.nested]
      exact List.mem_cons_of_mem _ ht'
    · rfl

/-- A block keeps the value of a variable that none of its statements writes. -/
theorem runAll_store {name : String} : ∀ {body : List Stmt} {m : Memory D},
    (∀ t ∈ Stmt.nestedAll body, t.written? ≠ some name) →
      (s.runAll m body).memory.store name = m.store name
  | [], m, _ => by rw [runAll]
  | t :: rest, m, h => by
    simp only [Stmt.nestedAll, List.forall_mem_append] at h
    rw [runAll]
    exact andThen_store (run_store h.1) fun m' hm' => (runAll_store h.2).trans hm'

end

mutual

theorem store_of_mem_evaluations {name : String} : ∀ {t : Stmt} {m : Memory D}
    {x : Expr × Memory D}, (∀ t' ∈ t.nested, t'.written? ≠ some name) → x ∈ s.evaluations m t →
      x.2.store name = m.store name
  | .input .., _, _, _, hx => by simp [evaluations] at hx
  | .declare .., _, _, _, hx => by simp_all [evaluations]
  | .assign .., _, _, _, hx => by simp_all [evaluations]
  | .assume _, _, _, _, hx => by simp_all [evaluations]
  | .assert _, _, _, _, hx => by simp_all [evaluations]
  | .perform _, _, _, _, hx => by simp_all [evaluations]
  | .whenever condition body returns, m, x, h, hx => by
    rw [evaluations, List.mem_cons] at hx
    rcases hx with rfl | hx
    · rfl
    · split at hx
      · refine store_of_mem_evaluationsAll (fun t' ht' => h t' ?_) hx
        rw [Stmt.nested]
        exact List.mem_cons_of_mem _ ht'
      · cases hx

/-- All that a block evaluates finds the value of a variable that none of its statements writes. -/
theorem store_of_mem_evaluationsAll {name : String} : ∀ {body : List Stmt} {m : Memory D}
    {x : Expr × Memory D}, (∀ t ∈ Stmt.nestedAll body, t.written? ≠ some name) →
      x ∈ s.evaluationsAll m body → x.2.store name = m.store name
  | [], _, _, _, hx => by simp [evaluationsAll] at hx
  | t :: rest, m, x, h, hx => by
    simp only [Stmt.nestedAll, List.forall_mem_append] at h
    rw [evaluationsAll, List.mem_append] at hx
    rcases hx with hx | hx
    · exact store_of_mem_evaluations h.1 hx
    · split at hx
      · exact (store_of_mem_evaluationsAll h.2 hx).trans (run_store h.1)
      · cases hx

end

end Scenario

/-! ## The parts of a test method -/

namespace Contract

open Stmt (nestedAll nested)

variable {D : Type u} {s : Scenario D} {c : Contract} {options : ClassOptions} {m : Memory D}
  {test : TestMethod}

/-- The names of the primitive parameters. -/
def primitiveNames (c : Contract) : List String :=
  (c.parameters.filter (·.category == .primitive)).map (·.name)

/-- The statements from the assumption to the guard. -/
def untilGuard (c : Contract) (assumption : Expr) : List Stmt :=
  c.inputs ++ (.assume assumption :: (c.snapshotDeclarations ++ c.nullGuard))

/-! ### Statements without accesses -/

theorem isAccessFree_nullTest (op : BinaryOp) (p : Parameter) :
    (nullTest op p).IsAccessFree := by
  simp [nullTest, Expr.null, Expr.IsAccessFree, Expr.Everywhere, Expr.subterms, Expr.receiver?]

theorem isAccessFree_inputs :
    ∀ t ∈ nestedAll c.inputs, ∀ e ∈ t.expression?, e.IsAccessFree := by
  rw [nestedAll_inputs, inputs, List.forall_mem_append, List.forall_mem_map, List.forall_mem_map]
  constructor
  · rintro p - _ ⟨⟩
  · rintro p - _ ⟨⟩
    simp [Expr.IsAccessFree, Expr.Everywhere, Expr.subterms, Expr.subtermsAll, Expr.receiver?]

theorem isAccessFree_snapshotDeclarations :
    ∀ t ∈ nestedAll c.snapshotDeclarations, ∀ e ∈ t.expression?, e.IsAccessFree := by
  rw [nestedAll_snapshotDeclarations, snapshotDeclarations, List.forall_mem_map]
  rintro p - _ ⟨⟩
  rw [snapshotValue]
  split <;> simp [Expr.IsAccessFree, Expr.Everywhere, Expr.subterms, Expr.subtermsAll,
    Expr.receiver?, Expr.null]

theorem isAccessFree_nullGuard :
    ∀ t ∈ nestedAll c.nullGuard, ∀ e ∈ t.expression?, e.IsAccessFree := by
  rw [nestedAll_nullGuard, nullGuard]
  split
  · exact List.forall_mem_nil _
  · rename_i anyNull hany
    rw [List.forall_mem_cons, List.forall_mem_map]
    constructor
    · rintro _ ⟨⟩
      exact .joined hany (List.forall_mem_map.2 fun p _ => isAccessFree_nullTest _ p)
    · rintro p - _ ⟨⟩
      exact isAccessFree_nullTest _ p

/-- Where no statement accesses anything, no evaluation does. -/
theorem isAccessFree_of_mem {body : List Stmt} {x : Expr × Memory D}
    (hbody : ∀ t ∈ nestedAll body, ∀ e ∈ t.expression?, e.IsAccessFree)
    (hx : x ∈ s.evaluationsAll m body) : x.1.IsAccessFree := by
  obtain ⟨t, ht, he⟩ := Scenario.exists_of_mem_evaluationsAll hx
  exact hbody t ht x.1 he

/-! ### The guard -/

/-- When the guard lets the method go on, no variable of a nullable parameter is null. -/
theorem present_of_nullGuard (h : (s.runAll m c.nullGuard).ending = .finished) :
    (s.runAll m c.nullGuard).memory = m ∧ ∀ p ∈ c.nullable, m.store p.name ≠ .null := by
  by_cases hnull : ∃ p ∈ c.nullable, m.store p.name = .null
  · rw [runAll_nullGuard_of_null hnull] at h
    cases h
  · have hpresent : ∀ p ∈ c.nullable, m.store p.name ≠ .null :=
      fun p hp hstore => hnull ⟨p, hp, hstore⟩
    rw [runAll_nullGuard hpresent]
    exact ⟨rfl, hpresent⟩

/-! ### After the guard -/

theorem mem_primitiveNames {name : String} :
    name ∈ c.primitiveNames ↔ ∃ p ∈ c.parameters, p.name = name ∧ p.category = .primitive := by
  simp only [primitiveNames, List.mem_map, List.mem_filter, beq_iff_eq]
  exact exists_congr fun p => by tauto

theorem written_call {call : Stmt} (h : IsCallStatement c options call) {name : String}
    (hname : call.written? = some name) : name = c.resultName ∨ name ∈ c.primitiveNames := by
  have hblock := h.block
  cases hobserved : c.observed? with
  | some observed =>
    by_cases hcontained : observed ∈ c.contained
    · rw [invocation_of_contained options hobserved hcontained] at hblock
      cases hblock
      cases hname
    · rw [invocation_of_rebound options hobserved hcontained] at hblock
      cases hblock
      cases hname
      exact .inr (mem_primitiveNames.2 (observed?_eq_some hobserved))
  | none =>
    cases hvoid : c.signature.returnsVoid with
    | true =>
      rw [invocation_of_void options hobserved hvoid] at hblock
      cases hblock
      cases hname
    | false =>
      rw [invocation_of_result options hobserved hvoid] at hblock
      split at hblock <;> (cases hblock; cases hname; exact .inl rfl)

theorem written_contained {name : String} (h : name ∈ c.contained) : name ∈ c.primitiveNames := by
  obtain ⟨p, hp, hcontained, rfl⟩ := mem_contained_iff_exists.1 h
  rw [isContained, Bool.and_eq_true] at hcontained
  exact mem_primitiveNames.2 ⟨p, hp, rfl, beq_iff_eq.1 hcontained.1⟩

/-- From the echoes on, nothing is written but the result and primitive parameters. -/
theorem written_afterGuard {checks : List Stmt}
    (hchecks : c.assertion (c.invocation options).binding = .ok checks) {t : Stmt}
    (ht : t ∈ nestedAll (c.echoes options ++ (c.callStatements options ++ checks))) {name : String}
    (hname : t.written? = some name) : name = c.resultName ∨ name ∈ c.primitiveNames := by
  obtain ⟨call, hcall⟩ := exists_isCallStatement c options
  have hwrites : t.writes = true := by cases t <;> first | rfl | cases hname
  have hmem := List.mem_filter.2 ⟨ht, hwrites⟩
  rw [Stmt.nestedAll_append, Stmt.nestedAll_append, List.filter_append, List.filter_append,
    nestedAll_echoes, filter_writes_echoes, hcall.filter_writes_callStatements,
    filter_writes_assertion hchecks, List.nil_append, List.append_nil] at hmem
  rcases List.mem_append.1 (List.mem_filter.1 hmem).1 with hbefore | hblock
  · obtain ⟨type, init, rfl⟩ := hcall.before t hbefore
    cases hname
    exact .inl rfl
  · rcases List.mem_cons.1 hblock with rfl | hback
    · exact written_call hcall hname
    · obtain ⟨written, hwritten, rfl⟩ := List.mem_map.1 hback
      cases hname
      exact .inr (written_contained hwritten)

/-- A nullable parameter that shares its name with no primitive one keeps its value. -/
theorem store_afterGuard {checks : List Stmt} {x : Expr × Memory D}
    (hchecks : c.assertion (c.invocation options).binding = .ok checks)
    (hx : x ∈ s.evaluationsAll m (c.echoes options ++ (c.callStatements options ++ checks)))
    {p : Parameter} (hp : p ∈ c.parameters) (hprimitive : p.name ∉ c.primitiveNames) :
    x.2.store p.name = m.store p.name := by
  refine Scenario.store_of_mem_evaluationsAll (fun t ht hname => ?_) hx
  rcases written_afterGuard hchecks ht hname with heq | hmem
  · exact c.resultName_not_mem (heq ▸ mem_parameterNames hp)
  · exact hprimitive hmem

/-! ### The whole method -/

/-- A run that passes the guard has found no null in a nullable parameter. -/
theorem present_of_passed {start : Memory D} {assumption : Expr}
    (h : (s.runAll start (c.untilGuard assumption)).ending = .finished) :
    ∀ p ∈ c.nullable, (s.runAll start (c.untilGuard assumption)).memory.store p.name ≠ .null := by
  have hsplit : c.untilGuard assumption =
      (c.inputs ++ .assume assumption :: c.snapshotDeclarations) ++ c.nullGuard := by
    rw [untilGuard, List.append_assoc, List.cons_append]
  rw [hsplit, Scenario.runAll_append] at h ⊢
  obtain ⟨-, hguard, hmemory⟩ := Scenario.andThen_of_finished h
  obtain ⟨hkept, hpresent⟩ := present_of_nullGuard hguard
  rwa [hmemory, hkept]

/-- Up to the guard, only the assumption accesses anything. -/
theorem eq_assumption_of_accesses {start : Memory D} {assumption receiver : Expr}
    {x : Expr × Memory D} (hx : x ∈ s.evaluationsAll start (c.untilGuard assumption))
    (haccess : s.Accesses x.2 x.1 receiver) :
    x = (assumption, (s.runAll start c.inputs).memory) := by
  have hfree {body : List Stmt} {m : Memory D}
      (hbody : ∀ t ∈ nestedAll body, ∀ e ∈ t.expression?, e.IsAccessFree)
      (hx : x ∈ s.evaluationsAll m body) : False :=
    Scenario.not_accesses_of_isAccessFree (isAccessFree_of_mem hbody hx) receiver haccess
  rw [untilGuard, Scenario.mem_evaluationsAll_append, Scenario.evaluationsAll, List.mem_append,
    Scenario.evaluations, List.mem_singleton] at hx
  rcases hx with hinputs | ⟨-, hassumption | hrest⟩
  · exact (hfree isAccessFree_inputs hinputs).elim
  · exact hassumption
  · split at hrest
    · rw [Scenario.mem_evaluationsAll_append] at hrest
      rcases hrest with hsnapshots | ⟨-, hguard⟩
      · exact (hfree isAccessFree_snapshotDeclarations hsnapshots).elim
      · exact (hfree isAccessFree_nullGuard hguard).elim
    · cases hrest

/-- The guard has let the run go on, without a null in a nullable parameter, and the expression is
evaluated after it. There, too, no nullable parameter is null, unless it shares its name with a
primitive one. -/
structure BehindGuard (c : Contract) (s : Scenario D) (start : Memory D) (assumption : Expr)
    (rest : List Stmt) (e : Expr) (m : Memory D) : Prop where
  passed : (s.runAll start (c.untilGuard assumption)).ending = .finished
  established : ∀ p ∈ c.nullable,
    (s.runAll start (c.untilGuard assumption)).memory.store p.name ≠ .null
  evaluated : (e, m) ∈ s.evaluationsAll (s.runAll start (c.untilGuard assumption)).memory rest
  present : ∀ p ∈ c.nullable, p.name ∉ c.primitiveNames → m.store p.name ≠ .null

/-- In every run of a test method, fields, elements and methods are accessed in the assumption, and
else only behind the guard against null. -/
theorem accesses_behindGuard (h : c.testMethod options = .ok test) :
    ∃ assumption rest, c.assumption = .ok assumption ∧
      test.body = c.untilGuard assumption ++ rest ∧
      ∀ {D : Type u} (s : Scenario D) (start : Memory D) (e : Expr) (m : Memory D),
        (e, m) ∈ s.evaluationsAll start test.body → ∀ receiver, s.Accesses m e receiver →
          (e = assumption ∧ m = (s.runAll start c.inputs).memory) ∨
            c.BehindGuard s start assumption rest e m := by
  obtain ⟨assumption, checks, hassumption, hchecks, hbody⟩ := testMethod_eq_ok h
  have hsplit : test.body = c.untilGuard assumption ++
      (c.echoes options ++ (c.callStatements options ++ checks)) := by
    rw [hbody, untilGuard]
    simp only [List.append_assoc, List.cons_append]
  refine ⟨assumption, _, hassumption, hsplit, fun s start e m hx receiver haccess => ?_⟩
  rw [hsplit, Scenario.mem_evaluationsAll_append] at hx
  rcases hx with hbefore | ⟨hpassed, hafter⟩
  · exact .inl (Prod.mk.inj (eq_assumption_of_accesses hbefore haccess))
  · have hestablished := present_of_passed hpassed
    refine .inr ⟨hpassed, hestablished, hafter, fun p hp hprimitive => ?_⟩
    rw [store_afterGuard hchecks hafter (mem_parameters_of_mem_nullable hp) hprimitive]
    exact hestablished p hp

/-- The contract of `void fill(Set<Integer> xs)` with the postcondition `'(xs).size() > 0`. -/
def fill : Contract where
  name := "fill"
  signature := ⟨"fill", [⟨"xs", "Set<Integer>"⟩], "void"⟩
  precondition := none
  postcondition := some (.binary .greater (.send (.postState "xs") "size" []) (.int 0))

theorem dereferences_size {s : Scenario D} {name : String} :
    s.Dereferences m (.binary .greater (.send (.var name) "size" []) (.int 0)) name :=
  ⟨.var name, ⟨_, .child List.mem_cons_self (.self _), rfl⟩, rfl⟩

theorem fill_behindGuard : ∃ test rest m, fill.testMethod {} = .ok test ∧
    (leavesThree ["xs"]).Dereferences m
      (.binary .greater (.send (.var "xs") "size" []) (.int 0)) "xs" ∧
    fill.BehindGuard (leavesThree ["xs"]) emptyMemory (.bool true) rest
      (.binary .greater (.send (.var "xs") "size" []) (.int 0)) m := by
  obtain ⟨test, htest⟩ : ∃ test, fill.testMethod {} = .ok test := ⟨_, rfl⟩
  obtain ⟨assumption, rest, hassumption, -, hbehind⟩ := accesses_behindGuard htest
  cases (rfl : fill.assumption = .ok (.bool true)).symm.trans hassumption
  obtain ⟨m, hm⟩ : ∃ m, (.binary .greater (.send (.var "xs") "size" []) (.int 0), m) ∈
      (leavesThree ["xs"]).evaluationsAll emptyMemory test.body := by
    cases htest
    exact ⟨_, List.mem_of_getElem? (i := 6) rfl⟩
  obtain ⟨receiver, haccess, hname⟩ := dereferences_size (s := leavesThree ["xs"]) (m := m)
  rcases hbehind _ _ _ _ hm receiver haccess with ⟨heq, -⟩ | hguarded
  · cases heq
  · exact ⟨test, rest, m, htest, ⟨receiver, haccess, hname⟩, hguarded⟩

/-! ### Accesses to null -/

/-- A run evaluates an access to a nullable parameter that is null. -/
def DereferencesNull (c : Contract) (s : Scenario D) (start : Memory D) (body : List Stmt) : Prop :=
  ∃ e m, (e, m) ∈ s.evaluationsAll start body ∧
    ∃ p ∈ c.nullable, s.Dereferences m e p.name ∧ m.store p.name = .null

/-- The contract of `int smallest(Set<Integer> xs)` with the precondition `xs.size() > 0`. -/
def smallest : Contract where
  name := "smallest"
  signature := ⟨"smallest", [⟨"xs", "Set<Integer>"⟩], "int"⟩
  precondition := some (.binary .greater (.send (.var "xs") "size" []) (.int 0))
  postcondition := none

/-- The contract of `Integer pick(Integer x, Set<Integer> x)` with the postcondition
`'(x).size() > 0`. -/
def pick : Contract where
  name := "pick"
  signature := ⟨"pick", [⟨"x", "Integer"⟩, ⟨"x", "Set<Integer>"⟩], "Integer"⟩
  precondition := none
  postcondition := some (.binary .greater (.send (.postState "x") "size" []) (.int 0))

/-- The inputs of these names are an object, the others are null. Conditions hold, and a call
returns null. -/
def returnsNull (objects : List String) : Scenario Nat where
  input name := if name ∈ objects then .object (.given 0) else .null
  input_given name l h := by
    split at h
    · cases h; exact ⟨0, rfl⟩
    · cases h
  holds _ _ := true
  value _ _ := .null
  effect _ _ _ _ := ⟨.null, fun _ => []⟩

/-- The assumption comes before the guard and accesses a null input; and a parameter that shares its
name with a primitive one is assigned the null that the call returns. -/
theorem smallest_pick_dereferenceNull :
    (∃ test, smallest.testMethod {} = .ok test ∧
      smallest.DereferencesNull (returnsNull []) emptyMemory test.body) ∧
    ∃ test, pick.testMethod {} = .ok test ∧
      pick.DereferencesNull (returnsNull ["x"]) emptyMemory test.body := by
  constructor
  · refine ⟨_, rfl, _, _, List.mem_of_getElem? (i := 0) rfl, ⟨"xs", "Set<Integer>"⟩, ?_⟩
    exact ⟨by decide, dereferences_size, rfl⟩
  · -- the assertion comes after the guard's return and assumption and the call
    refine ⟨_, rfl, _, _, List.mem_of_getElem? (i := 6) rfl, ⟨"x", "Set<Integer>"⟩, ?_⟩
    exact ⟨by decide, dereferences_size, rfl⟩

end Contract

end ContractTests
