import ContractTests.Proofs.Expr.Same
import ContractTests.Proofs.TestClass.Rendered
import ContractTests.Proofs.TestClass.SymbolicForm

/-! # When a test class has a text

Post-state has no form in Java. A class has a text exactly when no expression in it has a node
without a form, whether repeated calls are shared or not, and whether the class is written as it is
or in its symbolic form (`TestClass.render_succeeds_iff`). Sharing takes calls out of conditions and
puts them into declarations; the rounds keep, in both directions, that all is plain
(`Expr.Rounds.isPlain_iff`). When there is no text, the error names the kind of a node in the class
that has no form (`TestClass.LackOnly.failsOnly_render`).
-/

set_option autoImplicit false

namespace ContractTests

namespace Expr

/-! ## Nodes without a form -/

/-- A variable under post-state, or a call that is to put what it is given under post-state. -/
inductive LacksForm : Expr → Prop
  | postState (name : String) : LacksForm (.postState name)
  | quote (args : List Expr) : LacksForm (.call "'" args)
  | post (arg : Expr) : LacksForm (.call "post" [arg])

theorem not_lacksForm_var (name : String) : ¬ (var name).LacksForm := nofun

theorem isWrapperName_iff {name : String} {arity : Nat} :
    isWrapperName name arity = true ↔ name = "'" ∨ (name = "post" ∧ arity = 1) := by
  simp [isWrapperName]

theorem lacksForm_iff {e : Expr} : e.LacksForm ↔ ¬ e.IsPlainNode := by
  constructor
  · rintro (name | args | arg) ⟨hpost, hwrapper⟩
    · cases hpost
    · simp [isWrapper, isWrapperName] at hwrapper
    · simp [isWrapper, isWrapperName] at hwrapper
  · intro h
    cases e with
    | postState name => exact .postState name
    | call name args =>
      have hwrapper : isWrapperName name args.length = true := by
        simpa [IsPlainNode, postState?, isWrapper] using h
      obtain rfl | ⟨rfl, harity⟩ := isWrapperName_iff.1 hwrapper
      · exact .quote args
      · obtain ⟨arg, rfl⟩ := List.length_eq_one_iff.1 harity
        exact .post arg
    | _ => exact absurd ⟨rfl, rfl⟩ h

theorem isPlain_iff_not_lacksForm {e : Expr} : e.IsPlain ↔ ∀ x ∈ e.subterms, ¬ x.LacksForm :=
  forall₂_congr fun _ _ => by rw [lacksForm_iff, not_not]

/-! ## Rounds that lead to what is plain -/

/-- Expressions that are the same are plain together. -/
theorem isPlain_of_same {e e' : Expr} (h : e.same e' = true) (hplain : e'.IsPlain) : e.IsPlain := by
  induction e using children_induction generalizing e' with
  | node e ih =>
    rcases parallel_of_same h with ⟨x, y, rfl, rfl, -⟩ | hp
    · exact isPlain_iff.2 ⟨⟨rfl, rfl⟩, nofun⟩
    · obtain ⟨hnode, hchildren⟩ := isPlain_iff.1 hplain
      refine isPlain_iff.2 ⟨hp.isPlainNode_iff.1 hnode, fun c hc => ?_⟩
      obtain ⟨c', hc', hcc'⟩ := exists_of_mem_right hp.children.flip hc
      exact ih c hc hcc' (hchildren c' hc')

/-- What is taken for an occurrence of a plain call is plain. -/
theorem Occurrence.IsOf.isPlain {o : Occurrence} {call e : Expr} (h : o.IsOf call)
    (hcall : call.IsPlain) (hat : o.isAt e = true) : e.IsPlain := by
  cases h with
  | structural => exact isPlain_of_same hat hcall
  | textual => exact (exists_render_iff e).1 ⟨_, (Occurrence.isAt_textual_iff.1 hat).2⟩

/-- A variable hides nothing when it stands in the place of a plain call. -/
theorem IsPlain.of_named {o : Occurrence} {call e : Expr} {name : String} (ho : o.IsOf call)
    (hcall : call.IsPlain) (h : (o.named name e).IsPlain) : e.IsPlain := by
  refine Occurrence.named_spec (P := fun e e' => e'.IsPlain → e.IsPlain) (fun e hat _ => ?_)
    (fun e e' _ hp h => ?_) e h
  · exact ho.isPlain hcall hat
  · obtain ⟨hnode, hchildren⟩ := isPlain_iff.1 h
    refine isPlain_iff.2 ⟨hp.isPlainNode_iff.1 hnode, fun c hc => ?_⟩
    obtain ⟨c', hc', hcc'⟩ := exists_of_mem_right hp.children.flip hc
    exact hcc' (hchildren c' hc')

/-- A condition is plain exactly when all that the rounds make of it is. -/
theorem Rounds.isPlain_iff {condition result : Expr} {taken : List String} {rounds : List Round}
    (h : Rounds condition taken rounds result) :
    condition.IsPlain ↔ result.IsPlain ∧ ∀ r ∈ rounds, r.call.IsPlain := by
  refine ⟨h.isPlain, ?_⟩
  -- From the last round back: a variable may hide only a copy of the call, and the call is plain.
  induction h with
  | done => exact And.left
  | round found _ ih =>
    rintro ⟨hresult, hrounds⟩
    obtain ⟨hcall, hlater⟩ := List.forall_mem_cons.1 hrounds
    exact .of_named (isOf_of_repeatedCall found) hcall (ih ⟨hresult, hlater⟩)

end Expr

namespace Stmt

/-! ## Blocks -/

theorem arePlain_append {body rest : List Stmt} :
    ArePlain (body ++ rest) ↔ ArePlain body ∧ ArePlain rest := everywhere_append

theorem SharesAs.arePlain_iff {condition condition' : Expr} {declarations : List Stmt}
    (h : SharesAs condition declarations condition') :
    ArePlain declarations ∧ condition'.IsPlain ↔ condition.IsPlain := by
  obtain ⟨taken, taken', hshared⟩ := h
  obtain ⟨rounds, hrounds, hdeclarations, -⟩ := Expr.rounds_of_share hshared
  rw [hrounds.isPlain_iff, show declarations = _ from hdeclarations, arePlain_map, and_comm]
  simp only [Expr.Round.declaration, isPlain_declare]

theorem Rewrites.arePlain_iff {body shared : List Stmt} (h : Rewrites SharesAs body shared) :
    ArePlain shared ↔ ArePlain body := by
  induction h with
  | nil => rfl
  | kept _ _ ih => rw [arePlain_cons, arePlain_cons, ih]
  | assert h _ ih =>
    rw [arePlain_append, arePlain_cons, arePlain_cons, isPlain_assert, isPlain_assert, ih,
      ← h.arePlain_iff, and_assoc]
  | whenever _ _ ihbody ih =>
    rw [arePlain_cons, arePlain_cons, isPlain_whenever, isPlain_whenever, ihbody, ih]

/-- A block has lines after sharing exactly when it has lines without it. -/
theorem exists_renderAll_shareCalls_iff (body : List Stmt) (out : SourceText) :
    (∃ shared out', shareCalls body = .ok shared ∧ renderAll out shared = .ok out') ↔
      ∃ out', renderAll out body = .ok out' := by
  rw [exists_renderAll_iff]
  constructor
  · rintro ⟨shared, out', hshared, hout⟩
    have hplain : ArePlain shared := (exists_renderAll_iff out shared).1 ⟨out', hout⟩
    exact (rewrites_of_shareCalls hshared).arePlain_iff.1 hplain
  · intro h
    obtain ⟨shared, hshared, hplain⟩ := h.exists_shareCalls
    obtain ⟨out', hout⟩ := (exists_renderAll_iff out shared).2 hplain
    exact ⟨shared, out', hshared, hout⟩

theorem isPlain_debugCall {name : String} {args : List Expr} :
    (debugCall name args).IsPlain ↔ ∀ a ∈ args, a.IsPlain := by
  rw [debugCall, Expr.isPlain_iff]
  simp [Expr.IsPlainNode, Expr.postState?, Expr.isWrapper, Expr.children]

/-- The symbolic form of a block is as plain as the block. -/
theorem arePlain_symbolicAll_iff (body : List Stmt) :
    ArePlain (symbolicAll body) ↔ ArePlain body := by
  rw [ArePlain, nestedAll_symbolicAll, List.forall_mem_map]
  refine forall₂_congr fun s _ => ?_
  cases s with
  | input type name =>
    have hvalue : (symbolicValue type name).IsPlain :=
      Vocabulary.lawful_plain.symbolicValue trivial trivial
    simp [symbolic, expression?, hvalue]
  | assume condition => simp [symbolic, expression?, isPlain_debugCall]
  | _ => simp [symbolic, expression?]

end Stmt

/-! ## What an error names -/

/-- When the computation fails, it does so in rendering, on a kind of node that satisfies `K`. -/
def FailsOnly {α : Type} (K : Expr.Kind → Prop) (x : Except Unsupported α) : Prop :=
  ∀ cause, x = .error cause → K cause.kind ∧ cause.activity = .rendering

section

variable {α β : Type} {K : Expr.Kind → Prop}

theorem failsOnly_ok (a : α) : FailsOnly K (.ok a : Except Unsupported α) := nofun

theorem FailsOnly.bind {x : Except Unsupported α} {f : α → Except Unsupported β}
    (hx : FailsOnly K x) (hf : ∀ a, x = .ok a → FailsOnly K (f a)) : FailsOnly K (x >>= f) := by
  cases x with
  | error cause =>
    rintro _ ⟨⟩
    exact hx cause rfl
  | ok a => exact hf a rfl

/-- A computation that goes on without failing. -/
theorem FailsOnly.map {x : Except Unsupported α} (hx : FailsOnly K x) (f : α → β) :
    FailsOnly K (do return f (← x)) :=
  hx.bind fun a _ => failsOnly_ok (f a)

theorem failsOnly_mapM {f : α → Except Unsupported β} {xs : List α}
    (h : ∀ x ∈ xs, FailsOnly K (f x)) : FailsOnly K (xs.mapM f) := by
  intro cause hcause
  obtain ⟨before, x, after, rfl, -, hx⟩ := mapM_eq_error_iff.1 hcause
  exact h x (List.mem_append_right _ List.mem_cons_self) cause hx

end

namespace Expr

variable {K : Kind → Prop} {e : Expr}

/-- The nodes without a form are of kinds that satisfy `K`. -/
def LacksOnly (K : Kind → Prop) (e : Expr) : Prop := Everywhere (fun x => x.LacksForm → K x.kind) e

theorem Parallel.kind_eq {R : Expr → Expr → Prop} {e' : Expr} (h : Parallel R e e') :
    e'.kind = e.kind := by cases h <;> rfl

theorem ignoresChildren_lacksForm (K : Kind → Prop) :
    IgnoresChildren fun x => x.LacksForm → K x.kind := by
  intro R e e' hp h hform
  rw [hp.kind_eq]
  exact h (lacksForm_iff.2 fun hplain => lacksForm_iff.1 hform (hp.isPlainNode_iff.2 hplain))

/-- Rendering fails on a node without a form. -/
theorem LacksOnly.failsOnly_render (h : e.LacksOnly K) : FailsOnly K e.render := by
  induction e using children_induction with
  | node e ih =>
    obtain ⟨hnode, hchildren⟩ := everywhere_iff.1 h
    have hc : ∀ c ∈ e.children, FailsOnly K c.render := fun c hc => ih c hc (hchildren c hc)
    have hnodeError : e.LacksForm →
        FailsOnly K (.error ⟨e.kind, .rendering⟩ : Except Unsupported String) := by
      rintro hform _ ⟨⟩
      exact ⟨hnode hform, rfl⟩
    cases e with
    | literal | var | self => exact failsOnly_ok _
    | postState name => exact hnodeError (.postState name)
    | binary | index =>
      exact (hc _ (by simp [children])).bind fun _ _ => (hc _ (by simp [children])).map _
    | unary | field | cast => exact (hc _ (by simp [children])).map _
    | call name args =>
      rw [render]
      split
      · rename_i hwrapper
        refine hnodeError (lacksForm_iff.2 fun hplain => ?_)
        have hnot : isWrapperName name args.length = false := hplain.2
        rw [hwrapper] at hnot
        cases hnot
      · rw [renderAll_eq]
        exact (failsOnly_mapM hc).map _
    | send receiver name args =>
      rw [render, renderAll_eq]
      exact (failsOnly_mapM fun x hx => hc x (List.mem_cons_of_mem _ hx)).bind fun _ _ =>
        (hc _ List.mem_cons_self).map _
    | create | set | tuple =>
      rw [render, renderAll_eq]
      exact (failsOnly_mapM hc).map _
    | map entries =>
      rw [render, renderEntries_eq]
      refine (failsOnly_mapM fun p hp => ?_).map _
      have hmem : p.1 ∈ children (.map entries) ∧ p.2 ∈ children (.map entries) := by
        simp only [children, List.mem_flatMap]
        exact ⟨⟨p, hp, by simp⟩, ⟨p, hp, by simp⟩⟩
      exact (hc _ hmem.1).bind fun _ _ => (hc _ hmem.2).map _
    | conditional =>
      exact (hc _ (by simp [children])).bind fun _ _ =>
        (hc _ (by simp [children])).bind fun _ _ => (hc _ (by simp [children])).map _

theorem LacksOnly.failsOnly_renderBare (h : e.LacksOnly K) : FailsOnly K e.renderBare := by
  cases e with
  | binary op left right =>
    have hc : ∀ c ∈ [left, right], c.LacksOnly K := (everywhere_iff.1 h).2
    exact (hc left (by simp)).failsOnly_render.bind fun _ _ =>
      (hc right (by simp)).failsOnly_render.map _
  | _ => exact h.failsOnly_render

theorem failsOnly_repeatedAmong (condition : Expr) {es : List Expr} (h : ∀ e ∈ es, e.LacksOnly K) :
    FailsOnly K (condition.repeatedAmong es) := by
  induction es with
  | nil => exact failsOnly_ok _
  | cons e es ih =>
    obtain ⟨he, hes⟩ := List.forall_mem_cons.1 h
    rw [repeatedAmong]
    split
    · exact failsOnly_ok _
    · split
      · refine he.failsOnly_render.bind fun text _ => ?_
        split
        · exact failsOnly_ok _
        · exact ih hes
      · exact ih hes

theorem LacksOnly.failsOnly_shareWithin (fuel : Nat) (h : e.LacksOnly K) (taken : List String) :
    FailsOnly K (shareWithin fuel e taken) := by
  induction fuel generalizing e taken with
  | zero => exact failsOnly_ok _
  | succ fuel ih =>
    rw [shareWithin]
    refine (failsOnly_repeatedAmong e fun call hcall =>
      Everywhere.subterm h (mem_calls_iff.1 hcall).1).bind fun found _ => ?_
    cases found with
    | none => exact failsOnly_ok _
    | some found =>
      exact (ih (h.named (ignoresChildren_lacksForm K) found.2
        fun hform => absurd hform (not_lacksForm_var _)) _).map _

/-- What the rounds declare and lead to lacks no more than the condition. -/
theorem Rounds.lacksOnly {condition result : Expr} {taken : List String} {rounds : List Round}
    (h : Rounds condition taken rounds result) (hcondition : condition.LacksOnly K) :
    result.LacksOnly K ∧ ∀ r ∈ rounds, r.call.LacksOnly K := by
  obtain ⟨hresult, hrounds⟩ :=
    h.everywhere (ignoresChildren_lacksForm K)
      (fun _ _ _ _ hform => absurd hform (not_lacksForm_var _)) hcondition
  exact ⟨hresult, fun r hr => (hrounds r hr).1⟩

end Expr

namespace Stmt

variable {K : Expr.Kind → Prop}

/-- The nodes without a form in the statement itself are of kinds that satisfy `K`. -/
def LacksOnly (K : Expr.Kind → Prop) (s : Stmt) : Prop := ∀ e ∈ s.expression?, e.LacksOnly K

mutual

theorem Throughout.failsOnly_render : ∀ {s : Stmt}, s.Throughout (LacksOnly K) →
    ∀ out : SourceText, FailsOnly K (s.render out)
  | .input .., _, _ => failsOnly_ok _
  | .declare _ _ init, h, _ => (h _ List.mem_cons_self init rfl).failsOnly_render.map _
  | .assign _ value, h, _ => (h _ List.mem_cons_self value rfl).failsOnly_render.map _
  | .assume condition, h, _ => (h _ List.mem_cons_self condition rfl).failsOnly_render.map _
  | .assert condition, h, _ => (h _ List.mem_cons_self condition rfl).failsOnly_render.map _
  | .perform call, h, _ => (h _ List.mem_cons_self call rfl).failsOnly_render.map _
  | .whenever condition body returns, h, out => by
    obtain ⟨hcondition, hbody⟩ := throughout_whenever.1 h
    exact (hcondition condition rfl).failsOnly_renderBare.bind fun _ _ =>
      (Everywhere.failsOnly_renderAll hbody _).map _

theorem Everywhere.failsOnly_renderAll : ∀ {body : List Stmt}, Everywhere (LacksOnly K) body →
    ∀ out : SourceText, FailsOnly K (renderAll out body)
  | [], _, _ => failsOnly_ok _
  | _ :: _, h, out => by
    obtain ⟨hs, hrest⟩ := everywhere_cons.1 h
    exact (Throughout.failsOnly_render hs out).bind fun out' _ =>
      Everywhere.failsOnly_renderAll hrest out'

end

mutual

theorem Throughout.failsOnly_share : ∀ {s : Stmt}, s.Throughout (LacksOnly K) →
    ∀ taken : List String, FailsOnly K (share taken s)
  | .assert condition, h, taken =>
    ((h _ List.mem_cons_self condition rfl).failsOnly_shareWithin _ taken).map _
  | .whenever _ _ _, h, taken =>
    (Everywhere.failsOnly_shareAll (throughout_whenever.1 h).2 taken).map _
  | .input .., _, _ => failsOnly_ok _
  | .declare .., _, _ => failsOnly_ok _
  | .assign .., _, _ => failsOnly_ok _
  | .assume _, _, _ => failsOnly_ok _
  | .perform _, _, _ => failsOnly_ok _

theorem Everywhere.failsOnly_shareAll : ∀ {body : List Stmt}, Everywhere (LacksOnly K) body →
    ∀ taken : List String, FailsOnly K (shareAll taken body)
  | [], _, _ => failsOnly_ok _
  | _ :: _, h, taken => by
    obtain ⟨hs, hrest⟩ := everywhere_cons.1 h
    exact (Throughout.failsOnly_share hs taken).bind fun first _ =>
      (Everywhere.failsOnly_shareAll hrest first.2).map _

end

/-- A shared block lacks no more than the block. -/
theorem Rewrites.lacksOnly {body shared : List Stmt} (h : Rewrites SharesAs body shared)
    (hbody : Everywhere (LacksOnly K) body) : Everywhere (LacksOnly K) shared := by
  refine h.everywhere (fun condition declarations condition' hshares hcondition => ?_)
    (fun _ _ _ _ => id) hbody
  obtain ⟨taken, taken', hshared⟩ := hshares
  obtain ⟨rounds, hrounds, rfl, -⟩ := Expr.rounds_of_share hshared
  obtain ⟨hresult, hcalls⟩ := hrounds.lacksOnly (hcondition condition rfl)
  refine ⟨(everywhere_eq _).2 (List.forall_mem_map.2 fun r hr => ?_), ?_⟩
  · refine (throughout_iff _).2 ⟨?_, everywhere_nil⟩
    rintro _ ⟨⟩
    exact hcalls r hr
  · rintro _ ⟨⟩
    exact hresult

end Stmt

/-! ## Classes -/

namespace TestClass

variable {K : Expr.Kind → Prop} {c : TestClass}

/-- The nodes of all expressions in the class. -/
def nodes (c : TestClass) : List Expr :=
  (c.statements.filterMap Stmt.expression?).flatMap Expr.subterms

theorem forall_mem_nodes_iff {P : Expr → Prop} : (∀ x ∈ c.nodes, P x) ↔
    (∀ m ∈ c.methods, Stmt.Everywhere (fun s => ∀ e ∈ s.expression?, Expr.Everywhere P e) m.body) ∧
      Stmt.Everywhere (fun s => ∀ e ∈ s.expression?, Expr.Everywhere P e) c.main := by
  rw [← forall_mem_statements_iff]
  simp only [nodes, List.forall_mem_flatMap, List.forall_mem_filterMap]
  rfl

theorem isPlain_iff : c.IsPlain ↔ ∀ x ∈ c.nodes, ¬ x.LacksForm := by
  have hbody (body : List Stmt) : Stmt.ArePlain body ↔
      Stmt.Everywhere (fun s => ∀ e ∈ s.expression?, Expr.Everywhere (¬ ·.LacksForm) e) body :=
    forall₂_congr fun _ _ => forall₂_congr fun _ _ => Expr.isPlain_iff_not_lacksForm
  rw [forall_mem_nodes_iff, ← hbody]
  simp only [← hbody]
  exact ⟨fun h => ⟨h.methods, h.main⟩, fun h => ⟨h.1, h.2⟩⟩

theorem isPlain_symbolic_iff : c.symbolic.IsPlain ↔ c.IsPlain := by
  refine ⟨fun h => ⟨fun m hm => ?_, ?_⟩, IsPlain.symbolic⟩
  · exact (Stmt.arePlain_symbolicAll_iff m.body).1 (h.methods _ (List.mem_map_of_mem hm))
  · exact (Stmt.arePlain_symbolicAll_iff c.main).1 h.main

theorem exists_renderMethod_iff (m : TestMethod) (out : SourceText) :
    (∃ out', renderMethod out m = .ok out') ↔ Stmt.ArePlain m.body := by
  refine ⟨?_, fun h => exists_renderMethod h out⟩
  rintro ⟨out', h⟩
  obtain ⟨body, hshared, h⟩ := bind_eq_ok_iff.1 h
  obtain ⟨lines, hlines, -⟩ := bind_eq_ok_iff.1 h
  exact (Stmt.rewrites_of_shareCalls hshared).arePlain_iff.1
    ((Stmt.exists_renderAll_iff _ body).1 ⟨lines, hlines⟩)

theorem exists_renderMethods_iff (methods : List TestMethod) (out : SourceText) :
    (∃ out', renderMethods out methods = .ok out') ↔ ∀ m ∈ methods, Stmt.ArePlain m.body := by
  refine ⟨?_, fun h => exists_renderMethods h out⟩
  induction methods generalizing out with
  | nil => exact fun _ => List.forall_mem_nil _
  | cons m rest ih =>
    rintro ⟨out', h⟩
    obtain ⟨first, hfirst, h⟩ := bind_eq_ok_iff.1 h
    exact List.forall_mem_cons.2
      ⟨(exists_renderMethod_iff m out.blank).1 ⟨first, hfirst⟩, ih first ⟨out', h⟩⟩

/-- The plain classes are those that have a text. -/
theorem exists_render_iff : (∃ text, c.render = .ok text) ↔ c.IsPlain := by
  refine ⟨?_, IsPlain.exists_render⟩
  rintro ⟨text, h⟩
  obtain ⟨methods, hmethods, h⟩ := bind_eq_ok_iff.1 h
  obtain ⟨main, hmain, -⟩ := bind_eq_ok_iff.1 h
  exact ⟨(exists_renderMethods_iff c.methods _).1 ⟨methods, hmethods⟩,
    (Stmt.exists_renderAll_iff _ c.main).1 ⟨main, hmain⟩⟩

/-- The nodes without a form in the class are of kinds that satisfy `K`. -/
structure LacksOnly (K : Expr.Kind → Prop) (c : TestClass) : Prop where
  methods : ∀ m ∈ c.methods, Stmt.Everywhere (Stmt.LacksOnly K) m.body
  main : Stmt.Everywhere (Stmt.LacksOnly K) c.main

theorem lacksOnly_nodes (c : TestClass) :
    c.LacksOnly fun kind => ∃ x ∈ c.nodes, x.LacksForm ∧ x.kind = kind := by
  obtain ⟨hmethods, hmain⟩ := forall_mem_nodes_iff.1
    fun x (hx : x ∈ c.nodes) (hform : x.LacksForm) => (⟨x, hx, hform, rfl⟩ :
      ∃ y ∈ c.nodes, y.LacksForm ∧ y.kind = x.kind)
  exact ⟨hmethods, hmain⟩

theorem failsOnly_renderMethods {methods : List TestMethod}
    (h : ∀ m ∈ methods, Stmt.Everywhere (Stmt.LacksOnly K) m.body) (out : SourceText) :
    FailsOnly K (renderMethods out methods) := by
  induction methods generalizing out with
  | nil => exact failsOnly_ok _
  | cons m rest ih =>
    obtain ⟨hm, hrest⟩ := List.forall_mem_cons.1 h
    refine FailsOnly.bind ?_ fun first _ => ih hrest first
    refine ((hm.failsOnly_shareAll _).map Prod.fst).bind fun body hshared => ?_
    exact ((Stmt.rewrites_of_shareCalls hshared).lacksOnly hm).failsOnly_renderAll _ |>.map _

/-- A class without a text fails on a node without a form. -/
theorem LacksOnly.failsOnly_render (h : c.LacksOnly K) : FailsOnly K c.render :=
  (failsOnly_renderMethods h.methods _).bind fun _ _ => (h.main.failsOnly_renderAll _).map _

/-- A class has a text exactly when none of its nodes lacks a form in Java, and else the error names
the kind of one that does. That repeated calls are shared makes no difference to whether a block has
lines, and the class has a text exactly when its symbolic form has one. -/
theorem render_succeeds_iff (c : TestClass) :
    ((∃ text, c.render = .ok text) ↔ ∀ x ∈ c.nodes, ¬ x.LacksForm) ∧
      (∀ cause, c.render = .error cause →
        ∃ x ∈ c.nodes, x.LacksForm ∧ cause = ⟨x.kind, .rendering⟩) ∧
      (∀ m ∈ c.methods, ∀ out : SourceText,
        (∃ shared out', Stmt.shareCalls m.body = .ok shared ∧
          Stmt.renderAll out shared = .ok out') ↔ ∃ out', Stmt.renderAll out m.body = .ok out') ∧
      ((∃ text, c.render = .ok text) ↔ ∃ text, c.symbolic.render = .ok text) := by
  refine ⟨exists_render_iff.trans isPlain_iff, fun cause hcause => ?_,
    fun m _ out => Stmt.exists_renderAll_shareCalls_iff m.body out, ?_⟩
  · obtain ⟨⟨x, hx, hform, hkind⟩, hactivity⟩ := c.lacksOnly_nodes.failsOnly_render cause hcause
    refine ⟨x, hx, hform, ?_⟩
    rw [hkind, ← hactivity]
  · rw [exists_render_iff, exists_render_iff, isPlain_symbolic_iff]

end TestClass

end ContractTests
