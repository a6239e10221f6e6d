import ContractTests.Proofs.Expr.Copies
import ContractTests.Proofs.Sharing.Fixpoint

/-! # How often a call is evaluated

After sharing, a call stands once at most among the calls that are declared and the nodes of the new
condition (`Expr.Rounds.timesIn_le_one`). What stands inside a declared call is not looked at again:
a call that is repeated in there stays repeated. So the count of a call in all that is written is at
most one more than its count inside the declared calls (`Stmt.shareCalls_evaluatesOnce`).
-/

set_option autoImplicit false

namespace ContractTests

namespace Expr

variable {condition call result a c : Expr} {o : Occurrence} {taken : List String}
  {rounds : List Round} {name : String}

open Classical in
/-- How many of the nodes are the call. -/
noncomputable def timesIn (call : Expr) (nodes : List Expr) : Nat :=
  nodes.countP fun x => decide (x.IsCopyOf call)

theorem timesIn_append (call : Expr) (nodes more : List Expr) :
    timesIn call (nodes ++ more) = timesIn call nodes + timesIn call more :=
  List.countP_append

theorem timesIn_eq_zero {nodes : List Expr} (h : ∀ x ∈ nodes, ¬x.IsCopyOf call) :
    timesIn call nodes = 0 := by
  refine List.countP_eq_zero.2 fun x hx => ?_
  simpa using h x hx

theorem not_isCopyOf_of_timesIn_eq_zero {nodes : List Expr} (h : timesIn call nodes = 0) :
    ∀ x ∈ nodes, ¬x.IsCopyOf call := fun x hx => by
  simpa using List.countP_eq_zero.1 h x hx

theorem timesIn_cons_of_isCopyOf {nodes : List Expr} (h : a.IsCopyOf call) :
    timesIn call (a :: nodes) = timesIn call nodes + 1 :=
  List.countP_cons_of_pos (by simpa using h)

theorem timesIn_cons_of_not_isCopyOf {nodes : List Expr} (h : ¬a.IsCopyOf call) :
    timesIn call (a :: nodes) = timesIn call nodes :=
  List.countP_cons_of_neg (by simpa using h)

/-! ## Copies and occurrences -/

/-- The copies of a repeated call are among its occurrences. -/
theorem isAt_of_isCopyOf (h : condition.repeatedCall = .ok (some (call, o)))
    (hcopy : a.IsCopyOf call) : o.isAt a = true := by
  have hisCall := (mem_calls_iff.1 (mem_calls_of_repeatedCall h)).2
  have hrepeated := isRepeated_of_repeatedAmong h
  cases isOf_of_repeatedCall h with
  | structural =>
    -- a call that something is the same as is the same as itself
    obtain ⟨x, -, hx⟩ := exists_isAt_of_isRepeated hrepeated
    have hself : call.same call = true := same_self_iff.2 (isNaN_eq_false_of_same hx)
    rw [hcopy.eq_of_same hself]
    exact hself
  | textual _ htext =>
    exact Occurrence.isAt_textual_iff.2 ⟨hcopy.isCall_eq.trans hisCall, hcopy.render_eq.trans htext⟩

/-- Where no call is repeated, every call stands once at most. -/
theorem timesIn_subterms_le_one (h : condition.repeatedCall = .ok none)
    (hcall : call.isCall = true) : timesIn call condition.subterms ≤ 1 := by
  by_contra hmore
  have hpos : 0 < timesIn call condition.subterms := by omega
  obtain ⟨x, hx, hcopy⟩ := List.countP_pos_iff.1 hpos
  have hcopy : x.IsCopyOf call := by simpa using hcopy
  -- the recogniser that counts the copies of `x`
  obtain ⟨o, hrare, hfinds⟩ : ∃ o : Occurrence, o.isRepeated condition = false ∧
      ∀ y : Expr, y.IsCopyOf x → o.isAt y = true := by
    have hxcall : x.isCall = true := hcopy.isCall_eq.trans hcall
    obtain ⟨hstructural, htextual⟩ := repeatedAmong_eq_none h x (mem_calls_iff.2 ⟨hx, hxcall⟩)
    by_cases hself : x.same x = true
    · exact ⟨_, hstructural, fun y hy => by rw [hy.eq_of_same hself]; exact hself⟩
    · obtain ⟨f, hf, -⟩ : ∃ f, .literal (.float f) ∈ x.subterms ∧ ¬f.isNaN = false := by
        simpa [same_self_iff] using hself
      obtain ⟨text, htext, hrare⟩ := htextual (List.any_eq_true.2 ⟨_, hf, rfl⟩)
      exact ⟨_, hrare, fun y hy => Occurrence.isAt_textual_iff.2
        ⟨hy.isCall_eq.trans hxcall, hy.render_eq.trans htext⟩⟩
  have hle : timesIn call condition.subterms ≤ condition.subterms.countP o.isAt := by
    refine List.countP_mono_left fun y _ hy => hfinds y ?_
    exact IsCopyOf.trans (by simpa using hy) hcopy.symm
  have hrare : ¬2 ≤ condition.subterms.countP o.isAt := of_decide_eq_false hrare
  omega

/-! ## Nodes without the variable -/

/-- What becomes of a node is the node itself if the variable does not come in. -/
theorem Occurrence.named_eq_self (h : .var name ∉ (o.named name a).subterms) :
    o.named name a = a := by
  induction a using children_induction with
  | node a ih =>
    cases hat : o.isAt a with
    | true =>
      rw [named_of_isAt hat] at h
      exact absurd (self_mem_subterms _) h
    | false =>
      rw [named_of_not_isAt hat]
      refine mapChildren_eq_self fun c hc => ih c hc fun hmem => h ?_
      refine mem_subterms_of_mem_children ?_ hmem
      rw [children_named hat]
      exact List.mem_map_of_mem hc

/-- A node of the result that does not mention the variable was there before, and it is no
occurrence. -/
theorem Occurrence.mem_subterms_of_free {x : Expr} (h : x ∈ (o.named name a).subterms)
    (hfree : .var name ∉ x.subterms) : x ∈ a.subterms ∧ o.isAt x = false := by
  rcases mem_subterms_named h with rfl | ⟨y, hy, hnot, rfl⟩
  · exact absurd (self_mem_subterms _) hfree
  · rw [named_eq_self hfree]
    exact ⟨hy, hnot⟩

/-- After its round, a call is nowhere in the condition. -/
theorem not_isCopyOf_of_mem_named (h : condition.repeatedCall = .ok (some (call, o)))
    (hcopy : call.IsCopyOf c) (hfree : .var name ∉ c.subterms) :
    ∀ x ∈ (o.named name condition).subterms, ¬x.IsCopyOf c := by
  intro x hx hxc
  have hnot := (Occurrence.mem_subterms_of_free hx (mt hxc.var_mem_iff.1 hfree)).2
  rw [isAt_of_isCopyOf h (hxc.trans hcopy.symm)] at hnot
  cases hnot

/-- A call without the variables does not come in. -/
theorem Rounds.not_isCopyOf (h : Rounds condition taken rounds result)
    (hfree : ∀ r ∈ rounds, .var r.name ∉ c.subterms)
    (hnone : ∀ x ∈ condition.subterms, ¬x.IsCopyOf c) :
    ∀ x ∈ rounds.map Round.call ++ result.subterms, ¬x.IsCopyOf c := by
  induction h with
  | done => exact hnone
  | round found _ ih =>
    obtain ⟨hname, hfree⟩ := List.forall_mem_cons.1 hfree
    refine List.forall_mem_cons.2
      ⟨hnone _ (mem_calls_iff.1 (mem_calls_of_repeatedCall found)).1, ih hfree fun x hx hxc => ?_⟩
    exact hnone x (Occurrence.mem_subterms_of_free hx (mt hxc.var_mem_iff.1 hname)).1 hxc

/-- Among the declared calls and the nodes of the new condition, a call stands once at most. -/
theorem Rounds.timesIn_le_one (h : Rounds condition taken rounds result)
    (hend : result.repeatedCall = .ok none) (hcall : c.isCall = true)
    (hfree : ∀ r ∈ rounds, .var r.name ∉ c.subterms) :
    timesIn c (rounds.map Round.call ++ result.subterms) ≤ 1 := by
  induction h with
  | done => exact timesIn_subterms_le_one hend hcall
  | @round _ call _ _ _ rounds found rest ih =>
    obtain ⟨hname, hfree⟩ := List.forall_mem_cons.1 hfree
    rw [List.map_cons, List.cons_append]
    by_cases hcopy : call.IsCopyOf c
    · have hnone := not_isCopyOf_of_mem_named found hcopy hname
      rw [timesIn_cons_of_isCopyOf hcopy, timesIn_eq_zero (rest.not_isCopyOf hfree hnone)]
    · rw [timesIn_cons_of_not_isCopyOf hcopy]
      exact ih hend hfree

/-! ## Inside the declared calls -/

/-- The nodes of the expressions. -/
def nodes (es : List Expr) : List Expr := es.flatMap subterms

/-- The nodes inside the expressions: below the topmost ones. -/
def nodesInside (es : List Expr) : List Expr := es.flatMap fun e => nodes e.children

theorem timesIn_nodes (call : Expr) (es : List Expr) :
    timesIn call (nodes es) = timesIn call es + timesIn call (nodesInside es) := by
  induction es with
  | nil => rfl
  | cons e es ih =>
    have hinside : nodesInside (e :: es) = nodes e.children ++ nodesInside es := rfl
    have hnodes : nodes (e :: es) = [e] ++ nodes e.children ++ nodes es := by
      rw [nodes, List.flatMap_cons, subterms_eq]
      rfl
    have hes : timesIn call (e :: es) = timesIn call [e] + timesIn call es :=
      timesIn_append call [e] es
    rw [hinside, hnodes, hes]
    simp only [timesIn_append, ih]
    omega

/-- A call that stands inside no call does not come to stand inside one. -/
theorem Rounds.not_isCopyOf_inside (h : Rounds condition taken rounds result)
    (hfree : ∀ r ∈ rounds, .var r.name ∉ c.subterms)
    (houter : ∀ x ∈ nodesInside condition.calls, ¬x.IsCopyOf c) :
    ∀ x ∈ nodesInside (rounds.map Round.call), ¬x.IsCopyOf c := by
  induction h with
  | done => exact List.forall_mem_nil _
  | @round condition call _ o _ rounds found _ ih =>
    obtain ⟨hname, hfree⟩ := List.forall_mem_cons.1 hfree
    refine List.forall_mem_append.2 ⟨fun x hx => houter x ?_, ih hfree fun x hx hxc => ?_⟩
    · exact List.mem_flatMap.2 ⟨call, mem_calls_of_repeatedCall found, hx⟩
    · obtain ⟨e', he', hx⟩ := List.mem_flatMap.1 hx
      obtain ⟨c', hc', hx⟩ := List.mem_flatMap.1 hx
      obtain ⟨he', hcall⟩ := mem_calls_iff.1 he'
      -- a call of the condition around the node, as the variable is not in the node
      rcases Occurrence.mem_subterms_named he' with rfl | ⟨e, he, hnot, rfl⟩
      · cases hcall
      · rw [Occurrence.isCall_named hnot] at hcall
        rw [Occurrence.children_named hnot] at hc'
        obtain ⟨below, hbelow, rfl⟩ := List.mem_map.1 hc'
        have hmem := (Occurrence.mem_subterms_of_free hx (mt hxc.var_mem_iff.1 hname)).1
        refine houter x (List.mem_flatMap.2 ⟨e, mem_calls_iff.2 ⟨he, hcall⟩, ?_⟩) hxc
        exact List.mem_flatMap.2 ⟨below, hbelow, hmem⟩

/-! ## Assertions -/

/-- The calls that are declared. -/
def declaredCalls (declarations : List Stmt) : List Expr :=
  declarations.filterMap Stmt.expression?

/-- In the declarations and the new condition, a call of the condition stands at most once more than
inside the declared calls, and it stands inside none if it stands inside no call of the condition.
The call must not mention a variable that is declared. -/
def EvaluatesOnce (condition : Expr) (declarations : List Stmt) (condition' : Expr) : Prop :=
  ∀ call ∈ condition.calls,
    (∀ name ∈ declarations.filterMap Stmt.declared?, .var name ∉ call.subterms) →
      timesIn call (nodes (declaredCalls declarations) ++ condition'.subterms) ≤
          timesIn call (nodesInside (declaredCalls declarations)) + 1 ∧
        (timesIn call (nodesInside condition.calls) = 0 →
          timesIn call (nodesInside (declaredCalls declarations)) = 0)

theorem evaluatesOnce_of_sharesAs {condition' : Expr} {declarations : List Stmt}
    (h : Stmt.SharesAs condition declarations condition') :
    EvaluatesOnce condition declarations condition' := by
  obtain ⟨taken, rounds, hrounds, rfl, hend⟩ := h.exists_rounds
  intro call hcall hfree
  have hdeclared : declaredCalls (rounds.map Round.declaration) = rounds.map Round.call := by
    rw [declaredCalls, List.filterMap_map]
    exact congrFun List.filterMap_eq_map rounds
  rw [Stmt.filterMap_declared_declarations, List.forall_mem_map] at hfree
  rw [hdeclared]
  refine ⟨?_, fun houter => timesIn_eq_zero <|
    hrounds.not_isCopyOf_inside hfree (not_isCopyOf_of_timesIn_eq_zero houter)⟩
  have hle := hrounds.timesIn_le_one hend (mem_calls_iff.1 hcall).2 hfree
  rw [timesIn_append] at hle
  rw [timesIn_append, timesIn_nodes]
  omega

end Expr

/-- After sharing, every call of an assertion that stands inside no declared call is evaluated once
at most. -/
theorem Stmt.shareCalls_evaluatesOnce {body shared : List Stmt}
    (h : Stmt.shareCalls body = .ok shared) : Stmt.Rewrites Expr.EvaluatesOnce body shared :=
  (Stmt.rewrites_of_shareCalls h).imp fun _ _ _ => Expr.evaluatesOnce_of_sharesAs

/-- The call `g(x)`. -/
def innerCall : Expr := .call "g" [.var "x"]

/-- The call `f(g(x), g(x))`. -/
def outerCall : Expr := .call "f" [innerCall, innerCall]

/-- Of `f(g(x), g(x)) == f(g(x), g(x))`, the call of `f` is evaluated once and that of `g` twice. -/
theorem outerCall_once_innerCall_twice :
    let declarations : List Stmt := [.declare "var" "f_result" outerCall]
    let condition : Expr := .binary .equal (.var "f_result") (.var "f_result")
    let written := Expr.nodes (Expr.declaredCalls declarations) ++ condition.subterms
    Stmt.shareCalls [.assert (.binary .equal outerCall outerCall)] =
        .ok (declarations ++ [.assert condition]) ∧
      outerCall.timesIn written ≤ 1 ∧ 2 ≤ innerCall.timesIn written := by
  intro declarations condition written
  have h : Stmt.shareCalls [.assert (.binary .equal outerCall outerCall)] =
      .ok (declarations ++ [.assert condition]) := rfl
  refine ⟨h, ?outer, ?inner⟩
  case outer =>
    have honce := (Stmt.shareCalls_evaluatesOnce h).of_declaration
    have hcall : outerCall ∈ Expr.calls (.binary .equal outerCall outerCall) :=
      Expr.mem_calls_iff.2 ⟨.tail _ (.head _), rfl⟩
    have hfree : ∀ name ∈ declarations.filterMap Stmt.declared?,
        .var name ∉ outerCall.subterms := by
      simp [declarations, Stmt.declared?, outerCall, innerCall, Expr.subterms,
        Expr.subtermsAll]
    have hinside : outerCall.timesIn (Expr.nodesInside (Expr.declaredCalls declarations)) = 0 := by
      have hinner : ¬innerCall.IsCopyOf outerCall := fun hcopy =>
        absurd (hcopy.render_eq : Except.ok "g(x)" = Except.ok "f(g(x), g(x))") (by decide)
      have hvar : ¬(Expr.var "x").IsCopyOf outerCall := fun hcopy =>
        absurd (hcopy.render_eq : Except.ok "x" = Except.ok "f(g(x), g(x))") (by decide)
      refine Expr.timesIn_eq_zero (List.forall_mem_cons.2 ⟨hinner, List.forall_mem_cons.2 ⟨hvar,
        List.forall_mem_cons.2 ⟨hinner, List.forall_mem_singleton.2 hvar⟩⟩⟩)
    have hle := (honce outerCall hcall hfree).1
    rwa [hinside] at hle
  case inner =>
    have htwice : innerCall.timesIn [innerCall, innerCall] = 2 := by
      rw [Expr.timesIn_cons_of_isCopyOf (.refl _), Expr.timesIn_cons_of_isCopyOf (.refl _)]
      rfl
    have hsublist : [innerCall, innerCall].Sublist written :=
      .cons _ (.cons_cons _ (.cons _ (.cons_cons _ (List.nil_sublist _))))
    rw [← htwice]
    exact hsublist.countP_le

end ContractTests
