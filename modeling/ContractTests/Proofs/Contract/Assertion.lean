import ContractTests.Contract.Assertion
import ContractTests.Proofs.Expr.Value

/-! # The meaning of an assertion

A postcondition speaks of two stores, the assertion made of it of one. `value_of_asAssertion` says
that the assertion has the value of the postcondition in every store that holds, under the names the
assertion reads, what the postcondition means by its variables; an index access on a scalar
parameter means the parameter itself. `isPlainNode_of_asAssertion` says that nothing without a form
in Java is left.
-/

set_option autoImplicit false

universe u

namespace ContractTests.Expr

/-- Whether a variable is a primitive parameter, which may be accessed as if it were an array. -/
def isScalarParameter (params : List Parameter) (name : String) : Bool :=
  params.any fun p => p.name == name && p.category == .primitive

/-- A node that has a form in Java: neither a variable under post-state nor a post-state wrapper. -/
def IsPlainNode (e : Expr) : Prop := e.postState? = none ∧ e.isWrapper = false

theorem Parallel.isWrapper_eq {R : Expr → Expr → Prop} {e e' : Expr} (h : Parallel R e e') :
    e'.isWrapper = e.isWrapper := by
  cases h with
  | call name hes => simp only [isWrapper, hes.length_eq]
  | _ => rfl

/-! ## The steps -/

theorem scalarBase?_index (params : List Parameter) (base position : Expr) :
    (Expr.index base position).scalarBase? params =
      if base.isScalarBase (isScalarParameter params) then some base else none := by
  cases base <;> simp [scalarBase?, isScalarBase, mentioned?, isScalarParameter]

section

variable {binding : Option String} {snapshots : Snapshots} {params : List Parameter}

/-- The base of a scalar access is a variable, plain or under post-state. -/
theorem eq_of_isScalarBase {isScalar : String → Bool} {base : Expr}
    (h : base.isScalarBase isScalar = true) :
    ∃ name, base = .var name ∨ base = .postState name := by
  cases base <;> simp_all [isScalarBase, mentioned?]

/-- The node that a step looks at: the base of a scalar access, and else the node itself. -/
theorem scalarBase?_getD (params : List Parameter) (e : Expr) :
    (∃ base position, e = .index base position ∧
        base.isScalarBase (isScalarParameter params) = true ∧
        (e.scalarBase? params).getD e = base) ∨
      (e.scalarBase? params).getD e = e ∧
        ∀ base position, e = .index base position →
          base.isScalarBase (isScalarParameter params) = false := by
  cases e with
  | index base position =>
    rw [scalarBase?_index]
    cases hb : base.isScalarBase (isScalarParameter params) with
    | true => exact .inl ⟨base, position, rfl, hb, rfl⟩
    | false =>
      refine .inr ⟨rfl, fun b p h => ?_⟩
      cases h
      exact hb
  | _ => exact .inr ⟨rfl, nofun⟩

/-- The node that a step looks at is in the expression. -/
theorem scalarBase?_getD_mem (params : List Parameter) (e : Expr) :
    (e.scalarBase? params).getD e ∈ e.subterms := by
  rcases scalarBase?_getD params e with ⟨base, position, rfl, -, hlooked⟩ | ⟨hlooked, -⟩
  · rw [hlooked]
    exact mem_subterms_of_mem_children (by simp [children]) (self_mem_subterms base)
  · rw [hlooked]
    exact self_mem_subterms e

/-- An answer is the variable that a mentioned one is read from. -/
theorem assertionStep_eq_ok {e e' : Expr}
    (h : assertionStep binding snapshots params e = some (.ok e')) :
    ∃ looked, (looked = e ∨ ∃ position, e = .index looked position ∧
        looked.isScalarBase (isScalarParameter params) = true) ∧
      ((∃ name, looked = .var name ∧ e' = .var ((snapshots.lookup name).getD name)) ∨
        ∃ name, looked = .postState name ∧ e' = .var (binding.getD name)) := by
  refine ⟨(e.scalarBase? params).getD e, ?_, ?_⟩
  · rcases scalarBase?_getD params e with ⟨base, position, rfl, hb, hd⟩ | ⟨hd, -⟩
    · exact .inr ⟨position, by rw [hd], by rw [hd]; exact hb⟩
    · exact .inl hd
  · unfold assertionStep at h
    split at h
    · rename_i name hname
      exact .inl ⟨name, hname, by cases h; rfl⟩
    · rename_i name hname
      exact .inr ⟨name, hname, by cases h; rfl⟩
    · split at h <;> cases h

/-- An unanswered node is no variable, no wrapper and no scalar access. -/
theorem assertionStep_eq_none {e : Expr} (h : assertionStep binding snapshots params e = none) :
    e.mentioned? = none ∧ e.isWrapper = false ∧
      ∀ base position, e = .index base position →
        base.isScalarBase (isScalarParameter params) = false := by
  rcases scalarBase?_getD params e with ⟨base, position, rfl, hb, hd⟩ | ⟨hd, hindex⟩
  · obtain ⟨name, rfl | rfl⟩ := eq_of_isScalarBase hb <;> simp [assertionStep, hd] at h
  · unfold assertionStep at h
    rw [hd] at h
    cases hw : e.isWrapper with
    | true => split at h <;> simp_all
    | false => exact ⟨by cases e <;> simp_all [mentioned?], rfl, hindex⟩

/-- Assumptions and assertions answer for the same nodes. -/
theorem assumptionStep_eq_none_iff {e : Expr} (binding : Option String) (snapshots : Snapshots) :
    assumptionStep params e = none ↔ assertionStep binding snapshots params e = none := by
  unfold assumptionStep assertionStep
  cases (e.scalarBase? params).getD e <;> simp

/-- An assumption reads every variable from itself, as an assertion without snapshots does. -/
theorem assertionStep_of_assumptionStep {e e' : Expr}
    (h : assumptionStep params e = some (.ok e')) :
    assertionStep none [] params e = some (.ok e') := by
  unfold assumptionStep at h
  unfold assertionStep
  split at h
  · exact h
  · cases h
  · split at h <;> cases h

/-! ## What holds of every node -/

section

variable {Q : Expr → Prop}

/-- An assumption is made of nodes of the precondition. -/
theorem Everywhere.asAssumption (hQ : IgnoresChildren Q) {pre out : Expr}
    (h : pre.asAssumption params = .ok out) (hpre : Everywhere Q pre) : Everywhere Q out := by
  refine replaceM_spec (P := fun e e' => Everywhere Q e → Everywhere Q e')
    (fun e e' hstep he => ?_) (fun e e' _ hp he => hp.everywhere_of_imp hQ he) h hpre
  have hmem := scalarBase?_getD_mem params e
  unfold assumptionStep at hstep
  split at hstep
  · rename_i name hlooked
    cases hstep
    rw [hlooked] at hmem
    exact Everywhere.subterm he hmem
  · cases hstep
  · split at hstep <;> cases hstep

/-- An assertion is made of nodes of the postcondition and of the variables that its variables are
read from. -/
theorem Everywhere.asAssertion (hQ : IgnoresChildren Q) {post out : Expr}
    (h : post.asAssertion binding snapshots params = .ok out) (hpost : Everywhere Q post)
    (hplain : ∀ name, Q (.var name) → Q (.var ((snapshots.lookup name).getD name)))
    (hlive : ∀ name, Q (.postState name) → Q (.var (binding.getD name))) : Everywhere Q out := by
  refine replaceM_spec (P := fun e e' => Everywhere Q e → Everywhere Q e')
    (fun e e' hstep he => ?_) (fun e e' _ hp he => hp.everywhere_of_imp hQ he) h hpost
  have hmem := scalarBase?_getD_mem params e
  unfold assertionStep at hstep
  split at hstep
  · rename_i name hlooked
    cases hstep
    rw [hlooked] at hmem
    exact everywhere_iff.2 ⟨hplain name (he _ hmem), List.forall_mem_nil _⟩
  · rename_i name hlooked
    cases hstep
    rw [hlooked] at hmem
    exact everywhere_iff.2 ⟨hlive name (he _ hmem), List.forall_mem_nil _⟩
  · split at hstep <;> cases hstep

end

/-! ## The value of an assertion -/

variable {α : Type u} {I : Interpretation α} {pre live store : String → α}

/-- What a store must hold to give the assertion for `post` the value of `post`. -/
structure Agrees (binding : Option String) (snapshots : Snapshots) (pre live store : String → α)
    (post : Expr) : Prop where
  snapshot : ∀ name snapshot, snapshots.lookup name = some snapshot → store snapshot = pre name
  plain : ∀ name, .var name ∈ post.subterms → snapshots.lookup name = none → store name = pre name
  live : ∀ name, .postState name ∈ post.subterms → store (binding.getD name) = live name

theorem Agrees.subterm {post e : Expr} (h : Agrees binding snapshots pre live store post)
    (he : e ∈ post.subterms) : Agrees binding snapshots pre live store e where
  snapshot := h.snapshot
  plain name hn := h.plain name (subterms_trans hn he)
  live name hn := h.live name (subterms_trans hn he)

/-- The assertion has in one store the value of the postcondition in two. -/
theorem value_of_asAssertion {post out : Expr}
    (h : post.asAssertion binding snapshots params = .ok out)
    (hs : Agrees binding snapshots pre live store post) :
    out.value I (.ofStore store) = post.value I ⟨pre, live, isScalarParameter params⟩ := by
  refine replaceM_spec (P := fun e e' => Agrees binding snapshots pre live store e →
    e'.value I (.ofStore store) = e.value I ⟨pre, live, isScalarParameter params⟩)
    (fun e e' hstep he => ?_) (fun e e' hstep hp he => ?_) h hs
  · obtain ⟨looked, hlooked, hread⟩ := assertionStep_eq_ok hstep
    -- a dropped index leaves the value of its base, so that it is enough to look at the base
    have hvalue : e.value I ⟨pre, live, isScalarParameter params⟩ =
        looked.value I ⟨pre, live, isScalarParameter params⟩ := by
      rcases hlooked with rfl | ⟨position, rfl, hb⟩
      · rfl
      · simp only [value, hb, if_true]
    have hmem : looked ∈ e.subterms := by
      rcases hlooked with rfl | ⟨position, rfl, -⟩
      · exact self_mem_subterms _
      · exact mem_subterms_of_mem_children (by simp [children]) (self_mem_subterms _)
    rw [hvalue]
    rcases hread with ⟨name, rfl, rfl⟩ | ⟨name, rfl, rfl⟩
    · cases hl : snapshots.lookup name with
      | none => exact he.plain name hmem hl
      | some snapshot => exact he.snapshot name snapshot hl
    · exact he.live name hmem
  · obtain ⟨hmentioned, -, hindex⟩ := assertionStep_eq_none hstep
    refine value_eq_of_parallel (hp.imp fun c hc c' _ hcc' => hcc' (he.subterm ?_)) ?_ ?_ hindex
      fun _ => rfl
    · exact mem_subterms_of_mem_children hc (self_mem_subterms c)
    · rintro name rfl; cases hmentioned
    · rintro name rfl; cases hmentioned

/-- Every node of an assertion has a form in Java. -/
theorem isPlainNode_of_asAssertion {post out : Expr}
    (h : post.asAssertion binding snapshots params = .ok out) :
    ∀ e ∈ out.subterms, e.IsPlainNode := by
  refine replaceM_spec (P := fun _ e' => ∀ x ∈ e'.subterms, x.IsPlainNode)
    (fun e e' hstep => ?_) (fun e e' hstep hp x hx => ?_) h
  · obtain ⟨looked, -, ⟨name, -, rfl⟩ | ⟨name, -, rfl⟩⟩ := assertionStep_eq_ok hstep <;>
      simp [subterms, IsPlainNode, postState?, isWrapper]
  · obtain ⟨hmentioned, hwrapper, -⟩ := assertionStep_eq_none hstep
    rcases mem_subterms_iff.1 hx with rfl | ⟨c', hc', hx⟩
    · refine ⟨?_, hp.isWrapper_eq.trans hwrapper⟩
      rw [hp.postState?_eq]
      cases e <;> simp_all [mentioned?, postState?]
    · obtain ⟨c, -, hc⟩ := exists_of_mem_right hp.children hc'
      exact hc x hx

/-- An assertion says in one store what the postcondition says in two, whatever the nodes mean, and
has a form in Java throughout. -/
theorem asAssertion_translates {post out : Expr}
    (h : post.asAssertion binding snapshots params = .ok out) :
    (∀ (α : Type u) (I : Interpretation α) (pre live store : String → α),
      Agrees binding snapshots pre live store post →
      out.value I (.ofStore store) = post.value I ⟨pre, live, isScalarParameter params⟩) ∧
    ∀ e ∈ out.subterms, e.IsPlainNode :=
  ⟨fun _ _ _ _ _ hs => value_of_asAssertion h hs, isPlainNode_of_asAssertion h⟩

end

/-- The postcondition `'(x)[0] > x + LIMIT`. -/
def grownBeyondLimit : Expr :=
  .binary .greater (.index (.postState "x") (.int 0)) (.binary .plus (.var "x") (.var "LIMIT"))

/-- The assertion `x > x_old + LIMIT`. -/
def grownBeyondLimitAssertion : Expr :=
  .binary .greater (.var "x") (.binary .plus (.var "x_old") (.var "LIMIT"))

theorem grownBeyondLimit_translates :
    grownBeyondLimit.asAssertion (some "x") [("x", "x_old")] [⟨"x", "int"⟩] =
      .ok grownBeyondLimitAssertion ∧
    grownBeyondLimitAssertion.value (.reads Nat)
        (.ofStore fun name => if name = "x" then [7] else if name = "x_old" then [3] else [1]) =
      grownBeyondLimit.value (.reads Nat)
        ⟨fun name => if name = "x" then [3] else [1], fun _ => [7],
          isScalarParameter [⟨"x", "int"⟩]⟩ := by
  have h : grownBeyondLimit.asAssertion (some "x") [("x", "x_old")] [⟨"x", "int"⟩] =
      .ok grownBeyondLimitAssertion := rfl
  refine ⟨h, (asAssertion_translates h).1 _ _ _ _ _ ⟨?_, ?_, ?_⟩⟩
  · intro name snapshot hs
    obtain ⟨rfl, rfl⟩ : name = "x" ∧ snapshot = "x_old" := by
      by_cases hx : name = "x"
      · subst hx; exact ⟨rfl, (Option.some.inj hs).symm⟩
      · rw [List.lookup_cons, beq_eq_false_iff_ne.2 hx] at hs
        cases hs
    rfl
  · intro name hn hs
    obtain rfl | rfl : name = "x" ∨ name = "LIMIT" := by
      simpa [grownBeyondLimit, subterms, int] using hn
    · cases hs
    · rfl
  · intro name _
    rfl

end ContractTests.Expr
