import ContractTests.Java.Class
import ContractTests.Proofs.Contract.Assertion
import ContractTests.Proofs.Sharing.Rounds

/-! # What has a form in Java

An expression has a Java text exactly when it is plain, that is when no node of it is a variable
under post-state or a post-state wrapper (`Expr.exists_render_iff`), and a block has one when the
expressions of its statements are plain at every depth (`Stmt.exists_renderAll_iff`). Sharing cannot
fail on a plain block and leaves it plain (`Stmt.ArePlain.exists_shareCalls`), so that a plain class
is rendered (`TestClass.IsPlain.exists_render`).
-/

set_option autoImplicit false

namespace ContractTests

theorem exists_bind_eq_ok_iff {ε α β : Type} {x : Except ε α} {f : α → Except ε β} :
    (∃ b, (x >>= f) = .ok b) ↔ ∃ a, x = .ok a ∧ ∃ b, f a = .ok b := by
  simp only [bind_eq_ok_iff]
  exact ⟨fun ⟨b, a, hx, hf⟩ => ⟨a, hx, b, hf⟩, fun ⟨a, hx, b, hf⟩ => ⟨b, a, hx, hf⟩⟩

theorem exists_mapM_eq_ok_iff {ε α β : Type} {f : α → Except ε β} {xs : List α} :
    (∃ ys, xs.mapM f = .ok ys) ↔ ∀ x ∈ xs, ∃ y, f x = .ok y := by
  induction xs with
  | nil => simp [pure, Except.pure]
  | cons x xs ih =>
    rw [List.mapM_cons, exists_bind_eq_ok_iff, List.forall_mem_cons, ← ih]
    simp only [exists_bind_eq_ok_iff, pure, Except.pure, Except.ok.injEq, exists_eq', and_true]
    exact ⟨fun ⟨y, hy, hys⟩ => ⟨⟨y, hy⟩, hys⟩, fun ⟨⟨y, hy⟩, hys⟩ => ⟨y, hy, hys⟩⟩

/-! ## Plain expressions -/

namespace Expr

variable {e : Expr}

instance : DecidablePred IsPlainNode := fun e =>
  inferInstanceAs (Decidable (e.postState? = none ∧ e.isWrapper = false))

/-- Every node has a form in Java. -/
def IsPlain (e : Expr) : Prop := ∀ x ∈ e.subterms, x.IsPlainNode

instance : DecidablePred IsPlain := fun e =>
  inferInstanceAs (Decidable (∀ x ∈ e.subterms, x.IsPlainNode))

theorem isPlain_iff : e.IsPlain ↔ e.IsPlainNode ∧ ∀ c ∈ e.children, c.IsPlain := everywhere_iff

/-- A node is as plain as any node of its kind with as many children. -/
theorem Parallel.isPlainNode_iff {R : Expr → Expr → Prop} {e' : Expr} (h : Parallel R e e') :
    e'.IsPlainNode ↔ e.IsPlainNode := by
  unfold IsPlainNode
  rw [h.postState?_eq, h.isWrapper_eq]

theorem ignoresChildren_isPlainNode : IgnoresChildren IsPlainNode :=
  fun _ _ _ hp => hp.isPlainNode_iff.2

/-- A pass keeps an expression plain if it does so at every node of which it keeps the children
plain. -/
theorem Parallel.isPlain {e' : Expr} (hp : Parallel (fun _ c' => c'.IsPlain) e e')
    (h : e.IsPlainNode) : e'.IsPlain :=
  hp.everywhere ignoresChildren_isPlainNode h

@[simp] theorem isPlain_var (name : String) : (var name).IsPlain := by
  rw [isPlain_iff]
  simp [IsPlainNode, postState?, isWrapper, children]

@[simp] theorem isPlain_binary {op : BinaryOp} {left right : Expr} :
    (binary op left right).IsPlain ↔ left.IsPlain ∧ right.IsPlain := by
  rw [isPlain_iff]
  simp [IsPlainNode, postState?, isWrapper, children]

/-! ## Texts -/

theorem renderAll_eq (es : List Expr) : renderAll es = es.mapM render := by
  induction es with
  | nil => rw [renderAll, List.mapM_nil]; rfl
  | cons e es ih => rw [renderAll, List.mapM_cons, ih]

theorem renderEntries_eq (es : List (Expr × Expr)) :
    renderEntries es = es.mapM fun p => do
      let key ← render p.1
      let value ← render p.2
      return (key, value) := by
  induction es with
  | nil => rw [renderEntries, List.mapM_nil]; rfl
  | cons p es ih => simp [renderEntries, ih]

/-- A node has a text when it has a form in Java and its children have texts. -/
theorem exists_render_node_iff (e : Expr) :
    (∃ text, e.render = .ok text) ↔
      e.IsPlainNode ∧ ∀ c ∈ e.children, ∃ text, c.render = .ok text := by
  cases e with
  | call name args =>
    cases hw : isWrapperName name args.length <;>
      simp [render, IsPlainNode, postState?, isWrapper, hw, exists_bind_eq_ok_iff, renderAll_eq,
        ← exists_mapM_eq_ok_iff, children, pure, Except.pure]
  | send receiver name args =>
    simp only [render, exists_bind_eq_ok_iff, renderAll_eq, pure, Except.pure]
    simp [IsPlainNode, postState?, isWrapper, children, ← exists_mapM_eq_ok_iff, and_comm]
  | map entries =>
    simp only [render, exists_bind_eq_ok_iff, renderEntries_eq, pure, Except.pure, Except.ok.injEq,
      exists_eq', and_true, exists_mapM_eq_ok_iff, children, List.forall_mem_flatMap,
      List.forall_mem_cons, List.not_mem_nil, false_imp_iff, implies_true, exists_and_right]
    exact ⟨fun h => ⟨⟨rfl, rfl⟩, h⟩, fun h => h.2⟩
  | _ =>
    simp [render, IsPlainNode, postState?, isWrapper, exists_bind_eq_ok_iff, renderAll_eq,
        ← exists_mapM_eq_ok_iff, children, pure, Except.pure]

/-- The plain expressions are those that have a text. -/
theorem exists_render_iff (e : Expr) : (∃ text, e.render = .ok text) ↔ e.IsPlain := by
  induction e using children_induction with
  | node e ih =>
    rw [exists_render_node_iff, isPlain_iff]
    exact and_congr_right fun _ => forall₂_congr ih

theorem exists_renderBare_iff (e : Expr) : (∃ text, e.renderBare = .ok text) ↔ e.IsPlain := by
  cases e with
  | binary op left right =>
    rw [isPlain_binary, ← exists_render_iff, ← exists_render_iff]
    simp [renderBare, exists_bind_eq_ok_iff, pure, Except.pure]
  | _ => exact exists_render_iff _

/-! ## Sharing in a plain condition -/

theorem exists_repeatedAmong (condition : Expr) {es : List Expr} (h : ∀ e ∈ es, e.IsPlain) :
    ∃ found, condition.repeatedAmong es = .ok found := by
  induction es with
  | nil => exact ⟨none, rfl⟩
  | cons e es ih =>
    obtain ⟨he, hes⟩ := List.forall_mem_cons.1 h
    obtain ⟨text, htext⟩ := (exists_render_iff e).2 he
    rw [repeatedAmong, htext]
    split
    · exact ⟨_, rfl⟩
    · split
      · simp only [bind, Except.bind]
        split
        · exact ⟨_, rfl⟩
        · exact ih hes
      · exact ih hes

theorem IsPlain.of_mem_calls {call : Expr} (h : e.IsPlain) (hcall : call ∈ e.calls) :
    call.IsPlain :=
  Everywhere.subterm h (mem_calls_iff.1 hcall).1

theorem IsPlain.exists_repeatedCall (h : e.IsPlain) : ∃ found, e.repeatedCall = .ok found :=
  exists_repeatedAmong e fun _ => h.of_mem_calls

theorem IsPlain.named (h : e.IsPlain) (o : Occurrence) (name : String) :
    (o.named name e).IsPlain :=
  Everywhere.named ignoresChildren_isPlainNode h o ⟨rfl, rfl⟩

/-- Sharing cannot fail on a plain condition. -/
theorem IsPlain.exists_shareWithin (fuel : Nat) (h : e.IsPlain) (taken : List String) :
    ∃ shared, shareWithin fuel e taken = .ok shared := by
  induction fuel generalizing e taken with
  | zero => exact ⟨_, rfl⟩
  | succ fuel ih =>
    obtain ⟨found, hfound⟩ := h.exists_repeatedCall
    rw [shareWithin, hfound]
    cases found with
    | none => exact ⟨_, rfl⟩
    | some found =>
      obtain ⟨later, hlater⟩ := ih (h.named found.2 (resultVariable taken found.1))
        (taken ++ [resultVariable taken found.1])
      simp only [bind, Except.bind, hlater]
      exact ⟨_, rfl⟩

/-- The rounds declare plain calls and lead to a plain condition. -/
theorem Rounds.isPlain {condition result : Expr} {taken : List String} {rounds : List Round}
    (h : Rounds condition taken rounds result) (hplain : condition.IsPlain) :
    result.IsPlain ∧ ∀ r ∈ rounds, r.call.IsPlain := by
  obtain ⟨hresult, hrounds⟩ :=
    h.everywhere ignoresChildren_isPlainNode (fun _ _ _ _ => ⟨rfl, rfl⟩) hplain
  exact ⟨hresult, fun r hr => (hrounds r hr).1⟩

end Expr

/-! ## Plain blocks -/

namespace Stmt

/-- The expressions of the statement and of all statements in it are plain. -/
def IsPlain (s : Stmt) : Prop := ∀ t ∈ nested s, ∀ e ∈ t.expression?, e.IsPlain

/-- The expressions of the statements are plain, at every depth. -/
def ArePlain (body : List Stmt) : Prop :=
  ∀ s ∈ nestedAll body, ∀ e ∈ s.expression?, e.IsPlain

instance : DecidablePred ArePlain := fun body =>
  inferInstanceAs (Decidable (∀ s ∈ nestedAll body, ∀ e ∈ s.expression?, e.IsPlain))

@[simp] theorem arePlain_nil : ArePlain [] := everywhere_nil

@[simp] theorem arePlain_cons {s : Stmt} {rest : List Stmt} :
    ArePlain (s :: rest) ↔ s.IsPlain ∧ ArePlain rest := everywhere_cons

theorem arePlain_iff {body : List Stmt} : ArePlain body ↔ ∀ s ∈ body, s.IsPlain :=
  everywhere_eq body

@[simp] theorem arePlain_map {α : Type} {f : α → Stmt} {xs : List α} :
    ArePlain (xs.map f) ↔ ∀ x ∈ xs, (f x).IsPlain := by
  rw [arePlain_iff, List.forall_mem_map]

/-- The statement's own expression, and then those of its block. -/
theorem isPlain_iff (s : Stmt) :
    s.IsPlain ↔ (∀ e ∈ s.expression?, e.IsPlain) ∧ ArePlain s.block :=
  throughout_iff s

@[simp] theorem isPlain_input (type name : String) : (input type name).IsPlain := by
  simp [isPlain_iff, expression?, block]

@[simp] theorem isPlain_declare {type name : String} {init : Expr} :
    (declare type name init).IsPlain ↔ init.IsPlain := by
  simp [isPlain_iff, expression?, block]

@[simp] theorem isPlain_assign {target : String} {value : Expr} :
    (assign target value).IsPlain ↔ value.IsPlain := by
  simp [isPlain_iff, expression?, block]

@[simp] theorem isPlain_assume {condition : Expr} :
    (assume condition).IsPlain ↔ condition.IsPlain := by
  simp [isPlain_iff, expression?, block]

@[simp] theorem isPlain_assert {condition : Expr} :
    (assert condition).IsPlain ↔ condition.IsPlain := by
  simp [isPlain_iff, expression?, block]

@[simp] theorem isPlain_perform {call : Expr} : (perform call).IsPlain ↔ call.IsPlain := by
  simp [isPlain_iff, expression?, block]

@[simp] theorem isPlain_whenever {condition : Expr} {body : List Stmt} {returns : Bool} :
    (whenever condition body returns).IsPlain ↔ condition.IsPlain ∧ ArePlain body := by
  simp [isPlain_iff, expression?, block]

/-! ## Lines -/

theorem exists_line_iff {e : Expr} (line : String → SourceText) :
    (∃ out, (do return line (← e.render)) = .ok out) ↔ e.IsPlain := by
  simp [exists_bind_eq_ok_iff, pure, Except.pure, e.exists_render_iff]

mutual

theorem exists_render_iff : ∀ (out : SourceText) (s : Stmt),
    (∃ out', s.render out = .ok out') ↔ s.IsPlain
  | _, .input .. => by simp [render]
  | _, .declare _ _ _ => by rw [isPlain_declare]; exact exists_line_iff _
  | _, .assign _ _ => by rw [isPlain_assign]; exact exists_line_iff _
  | _, .assume _ => by rw [isPlain_assume]; exact exists_line_iff _
  | _, .assert _ => by rw [isPlain_assert]; exact exists_line_iff _
  | _, .perform _ => by rw [isPlain_perform]; exact exists_line_iff _
  | out, .whenever condition body returns => by
    rw [isPlain_whenever, ← condition.exists_renderBare_iff, render, exists_bind_eq_ok_iff]
    simp [exists_bind_eq_ok_iff, exists_renderAll_iff _ body, pure, Except.pure]

/-- The plain blocks are those that have lines. -/
theorem exists_renderAll_iff : ∀ (out : SourceText) (body : List Stmt),
    (∃ out', renderAll out body = .ok out') ↔ ArePlain body
  | _, [] => by simp [renderAll]
  | out, s :: rest => by
    rw [renderAll, exists_bind_eq_ok_iff, arePlain_cons, ← exists_render_iff out s]
    simp [exists_renderAll_iff _ rest]

end

/-! ## Sharing in a plain block -/

mutual

theorem IsPlain.exists_share : ∀ {s : Stmt}, s.IsPlain → ∀ taken : List String,
    ∃ shared taken', share taken s = .ok (shared, taken')
  | .assert condition, h, taken => by
    obtain ⟨shared, hshared⟩ := (isPlain_assert.1 h).exists_shareWithin condition.calls.length taken
    simp only [share, Expr.share, hshared, bind, Except.bind, pure, Except.pure]
    exact ⟨_, _, rfl⟩
  | .whenever condition body returns, h, taken => by
    obtain ⟨shared, taken', hshared⟩ := (isPlain_whenever.1 h).2.exists_shareAll taken
    simp only [share, hshared, bind, Except.bind, pure, Except.pure]
    exact ⟨_, _, rfl⟩
  | .input .., _, _ => ⟨_, _, rfl⟩
  | .declare .., _, _ => ⟨_, _, rfl⟩
  | .assign .., _, _ => ⟨_, _, rfl⟩
  | .assume _, _, _ => ⟨_, _, rfl⟩
  | .perform _, _, _ => ⟨_, _, rfl⟩

theorem ArePlain.exists_shareAll : ∀ {body : List Stmt}, ArePlain body → ∀ taken : List String,
    ∃ shared taken', shareAll taken body = .ok (shared, taken')
  | [], _, _ => ⟨_, _, rfl⟩
  | s :: rest, h, taken => by
    obtain ⟨hs, hrest⟩ := arePlain_cons.1 h
    obtain ⟨first, taken', hfirst⟩ := hs.exists_share taken
    obtain ⟨others, taken'', hothers⟩ := hrest.exists_shareAll taken'
    simp only [shareAll, hfirst, hothers, bind, Except.bind, pure, Except.pure]
    exact ⟨_, _, rfl⟩

end

/-- A shared assertion is as plain as it was, and so are the declarations before it. -/
theorem SharesAs.arePlain {condition condition' : Expr} {declarations : List Stmt}
    (h : SharesAs condition declarations condition') (hplain : condition.IsPlain) :
    ArePlain declarations ∧ condition'.IsPlain := by
  obtain ⟨taken, taken', hshared⟩ := h
  obtain ⟨rounds, hrounds, hdeclarations, -⟩ := Expr.rounds_of_share hshared
  obtain ⟨hresult, hcalls⟩ := hrounds.isPlain hplain
  refine ⟨?_, hresult⟩
  rw [show declarations = _ from hdeclarations, arePlain_map]
  exact fun r hr => isPlain_declare.2 (hcalls r hr)

theorem Rewrites.arePlain {body shared : List Stmt} (h : Rewrites SharesAs body shared)
    (hbody : ArePlain body) : ArePlain shared := by
  refine h.everywhere (fun condition declarations condition' hshares hcondition => ?_)
    (fun _ _ _ _ => id) hbody
  have hcondition : condition.IsPlain := hcondition _ rfl
  obtain ⟨hdeclarations, hresult⟩ := hshares.arePlain hcondition
  exact ⟨hdeclarations, fun _ he => Option.some.inj he ▸ hresult⟩

/-- Sharing cannot fail on a plain block, and leaves it plain. -/
theorem ArePlain.exists_shareCalls {body : List Stmt} (h : ArePlain body) :
    ∃ shared, shareCalls body = .ok shared ∧ ArePlain shared := by
  obtain ⟨shared, taken, hshared⟩ := h.exists_shareAll (declared body)
  exact ⟨shared, by rw [shareCalls, hshared]; rfl, (rewrites_of_shareAll hshared).arePlain h⟩

end Stmt

/-! ## Plain classes -/

namespace TestClass

/-- The statements of the methods and of the main method are plain. -/
structure IsPlain (c : TestClass) : Prop where
  methods : ∀ m ∈ c.methods, Stmt.ArePlain m.body
  main : Stmt.ArePlain c.main

theorem exists_renderMethod {m : TestMethod} (h : Stmt.ArePlain m.body) (out : SourceText) :
    ∃ out', renderMethod out m = .ok out' := by
  obtain ⟨body, hshared, hbody⟩ := h.exists_shareCalls
  obtain ⟨out', hout⟩ := (Stmt.exists_renderAll_iff _ body).2 hbody
  exact ⟨_, bind_eq_ok_iff.2 ⟨body, hshared, bind_eq_ok_iff.2 ⟨out', hout, rfl⟩⟩⟩

theorem exists_renderMethods {methods : List TestMethod}
    (h : ∀ m ∈ methods, Stmt.ArePlain m.body) (out : SourceText) :
    ∃ out', renderMethods out methods = .ok out' := by
  induction methods generalizing out with
  | nil => exact ⟨out, rfl⟩
  | cons m rest ih =>
    obtain ⟨hm, hrest⟩ := List.forall_mem_cons.1 h
    obtain ⟨first, hfirst⟩ := exists_renderMethod hm out.blank
    rw [renderMethods, hfirst]
    exact ih hrest first

theorem IsPlain.exists_render {c : TestClass} (h : c.IsPlain) : ∃ text, c.render = .ok text := by
  obtain ⟨methods, hmethods⟩ := exists_renderMethods h.methods
    ((renderHead c).line ("public class " ++ c.name ++ " \x7b")).indent
  obtain ⟨main, hmain⟩ := (Stmt.exists_renderAll_iff
    (methods.blank.line "public static void main(String[] args) \x7b").indent c.main).2 h.main
  exact ⟨_, bind_eq_ok_iff.2 ⟨methods, hmethods, bind_eq_ok_iff.2 ⟨main, hmain, rfl⟩⟩⟩

end TestClass

end ContractTests
