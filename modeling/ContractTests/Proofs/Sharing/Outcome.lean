import ContractTests.Proofs.Expr.Copies
import ContractTests.Proofs.Sharing.Rounds
import Mathlib.Logic.Function.Basic

/-! # The outcome of a shared assertion

An assertion is true, false or fails. `Operations V` are the partial operations on the values of a
program; `Operations.evaluate` reads an expression with them as Java does: `&&`, `||` and `?:` look
only at the operands that they need, and every other node looks at all of its children.

The declarations that sharing puts before an assertion evaluate the repeated calls, guarded or not.
When none of them fails, the new condition has the outcome of the old one
(`Rounds.evaluate_result`); when one fails, a call of the condition does. That takes variables that
the condition does not have, operations that find no difference between floats that are equal as
numbers (`FloatsAgree`), and calls that are one tree where they are recognised by one text
(`Round.OneTree`). None of the three can be left out (`outcome_not_preserved`).
-/

set_option autoImplicit false

universe u

namespace ContractTests

/-! ## Evaluation -/

/-- The operations on values. An operation without a result fails. -/
structure Operations (V : Type u) where
  /-- The truth value that a condition's value stands for. -/
  truth : V → Option Bool
  literal : Literal → Option V
  /-- NaN is one value, whatever its datum. -/
  literal_of_isNaN : ∀ x : Double, x.isNaN = true → literal (.float x) = literal (.float .nan)
  binary : BinaryOp → V → V → Option V
  unary : UnaryOp → V → Option V
  field : V → String → Option V
  index : V → V → Option V
  call : String → List V → Option V
  send : V → String → List V → Option V
  create : String → List V → Option V
  set : List V → Option V
  map : List (V × V) → Option V
  tuple : List V → Option V
  cast : String → V → Option V
  self : Option V

namespace Operations

variable {V : Type u} (ops : Operations V)

/-- One of two values, as the first one decides; the other is not looked at. -/
def choose (test yes no : Option V) : Option V :=
  match test.bind ops.truth with
  | some true => yes
  | some false => no
  | none => none

/-- The value of a binary node. The left operand of `&&` and `||` is the value when it decides. -/
def binaryValue (op : BinaryOp) (left right : Option V) : Option V :=
  match op with
  | .and => ops.choose left right left
  | .or => ops.choose left left right
  | op => left.bind fun left => right.bind (ops.binary op left)

/-- What the nodes of an expression mean in Java. -/
def interpretation : Interpretation (Option V) where
  literal := ops.literal
  binary := ops.binaryValue
  unary op operand := operand.bind (ops.unary op)
  field scope name := do ops.field (← scope) name
  index base position := do ops.index (← base) (← position)
  call name args := do ops.call name (← args.mapM id)
  send receiver name args := do ops.send (← receiver) name (← args.mapM id)
  create type args := do ops.create type (← args.mapM id)
  set elements := do ops.set (← elements.mapM id)
  map entries := do ops.map (← entries.mapM fun p => do return (← p.1, ← p.2))
  tuple elements := do ops.tuple (← elements.mapM id)
  conditional := ops.choose
  cast type operand := operand.bind (ops.cast type)
  self := ops.self

/-- The value of an expression in a store, when there is one. What variables under post-state mean
does not depend on the store. -/
def evaluate (live store : String → Option V) (e : Expr) : Option V :=
  e.value ops.interpretation ⟨store, live, fun _ => false⟩

/-- The store after the declarations, unless one of them fails. -/
def declareAll (live : String → Option V) :
    List Stmt → (String → Option V) → Option (String → Option V)
  | [], store => some store
  | .declare _ name init :: rest, store =>
    match ops.evaluate live store init with
    | some value => declareAll live rest (Function.update store name (some value))
    | none => none
  | _ :: rest, store => declareAll live rest store

/-- The outcome of an assertion that follows declarations: true, false or failure. -/
def outcome (live : String → Option V) (declarations : List Stmt) (condition : Expr)
    (store : String → Option V) : Option Bool :=
  (ops.declareAll live declarations store).bind fun store =>
    (ops.evaluate live store condition).bind ops.truth

end Operations

/-! ## One round -/

namespace Expr

/-- A variable in the place of the occurrences, holding the value that they have, leaves the value
of an expression that does not mention it. -/
theorem Occurrence.value_named {α : Type u} {I : Interpretation α} {live store : String → α}
    {o : Occurrence} {name : String} {v : α} {e : Expr}
    (hsame : ∀ a ∈ e.subterms, o.isAt a = true → a.value I ⟨store, live, fun _ => false⟩ = v)
    (hfree : .var name ∉ e.subterms) :
    (o.named name e).value I ⟨Function.update store name v, live, fun _ => false⟩ =
      e.value I ⟨store, live, fun _ => false⟩ := by
  refine @Occurrence.named_spec o name
    (fun e e' => (∀ a ∈ e.subterms, o.isAt a = true →
        a.value I ⟨store, live, fun _ => false⟩ = v) → .var name ∉ e.subterms →
      e'.value I ⟨Function.update store name v, live, fun _ => false⟩ =
        e.value I ⟨store, live, fun _ => false⟩)
    (fun e hat hsame _ => ?_) (fun e e' _ hp hsame hfree => ?_) e hsame hfree
  · exact (Function.update_self name v store).trans (hsame e (self_mem_subterms e) hat).symm
  · refine value_eq_of_parallel (hp.imp fun c hc c' _ hcc' => hcc' ?_ ?_) ?_ ?_ ?_ fun _ => rfl
    · exact fun a ha => hsame a (mem_subterms_of_mem_children hc ha)
    · exact fun hmem => hfree (mem_subterms_of_mem_children hc hmem)
    · rintro n rfl
      refine Function.update_of_ne ?_ _ _
      rintro rfl
      exact hfree (self_mem_subterms _)
    · exact fun _ _ => rfl
    · exact fun base _ _ => isScalarBase_eq_false (fun _ => rfl) base

/-! ## All rounds -/

variable {V : Type u} {ops : Operations V} {live : String → Option V}

/-- The floats of a condition that are equal as numbers, such as zeros of different signs, are one
value. -/
def FloatsAgree (condition : Expr) (ops : Operations V) : Prop :=
  ∀ x y, .literal (.float x) ∈ condition.subterms → .literal (.float y) ∈ condition.subterms →
    x.same y = true → ops.literal (.float x) = ops.literal (.float y)

/-- The calls that a round recognises by their text are the call that is declared, up to which NaN
stands for a NaN. -/
def Round.OneTree (r : Round) : Prop :=
  ∀ text, r.occurrence = .textual text →
    ∀ a ∈ r.condition.calls, a.render = .ok text → a.IsCopyOf r.call

theorem FloatsAgree.named {condition : Expr} (h : condition.FloatsAgree ops) (o : Occurrence)
    (name : String) : (o.named name condition).FloatsAgree ops := by
  have hfloat {x : Double} (hx : .literal (.float x) ∈ (o.named name condition).subterms) :
      .literal (.float x) ∈ condition.subterms :=
    (Occurrence.mem_subterms_of_named hx rfl).resolve_left nofun
  exact fun x y hx hy => h x y (hfloat hx) (hfloat hy)

/-- An occurrence has the value of the call. -/
theorem evaluate_eq_of_isAt {condition call a : Expr} {o : Occurrence} {name : String}
    (hof : o.IsOf call) (hcall : call ∈ condition.subterms) (hfloats : condition.FloatsAgree ops)
    (htree : Round.OneTree ⟨condition, call, o, name⟩) (ha : a ∈ condition.subterms)
    (hat : o.isAt a = true) (store : String → Option V) :
    ops.evaluate live store a = ops.evaluate live store call := by
  cases hof with
  | structural =>
    refine value_eq_of_same (fun _ => rfl) hat fun x y hx hy => ?_
    exact hfloats x y (subterms_trans hx ha) (subterms_trans hy hcall)
  | textual _ _ =>
    obtain ⟨hisCall, htext⟩ := Occurrence.isAt_textual_iff.1 hat
    have hcopy : a.IsCopyOf call := htree _ rfl a (mem_calls_iff.2 ⟨ha, hisCall⟩) htext
    exact hcopy.value_eq (fun _ => rfl) ops.literal_of_isNaN

/-- The result of the rounds has, after their declarations, the value of the condition; and if a
declaration fails, a call of the condition does. -/
theorem Rounds.evaluate_result {condition result : Expr} {taken : List String}
    {rounds : List Round} (h : Rounds condition taken rounds result)
    (hfree : ∀ r ∈ rounds, .var r.name ∉ condition.subterms)
    (hfloats : condition.FloatsAgree ops) (htrees : ∀ r ∈ rounds, r.OneTree)
    (store : String → Option V) :
    (∀ store', ops.declareAll live (rounds.map Round.declaration) store = some store' →
      ops.evaluate live store' result = ops.evaluate live store condition) ∧
    (ops.declareAll live (rounds.map Round.declaration) store = none →
      ∃ call ∈ condition.calls, ops.evaluate live store call = none) := by
  induction h generalizing store with
  | done =>
    refine ⟨fun store' h => ?_, fun h => ?_⟩
    · cases h; rfl
    · cases h
  | @round condition call result occurrence taken rounds found rest ih =>
    set name := resultVariable taken call
    obtain ⟨hname, hfree⟩ := List.forall_mem_cons.1 hfree
    obtain ⟨htree, htrees⟩ := List.forall_mem_cons.1 htrees
    have hcallMem := mem_calls_of_repeatedCall found
    simp only [List.map_cons, Round.declaration, Operations.declareAll]
    cases hcall : ops.evaluate live store call with
    | none =>
      refine ⟨fun store' h => ?_, fun _ => ⟨call, hcallMem, hcall⟩⟩
      cases h
    | some v =>
      -- the names of later rounds are neither this one nor variables of the condition
      have hlater : ∀ r ∈ rounds, .var r.name ∉ (occurrence.named name condition).subterms := by
        intro r hr hmem
        rcases Occurrence.mem_subterms_of_named hmem rfl with heq | hmem
        · exact rest.not_mem_taken r hr (by simp [Expr.var.inj heq, name])
        · exact hfree r hr hmem
      have hsame : ∀ a ∈ condition.subterms, occurrence.isAt a = true →
          ops.evaluate live store a = some v := fun a ha hat =>
        (evaluate_eq_of_isAt (isOf_of_repeatedCall found) (mem_calls_iff.1 hcallMem).1 hfloats
          htree ha hat store).trans hcall
      have hnamed : ∀ x ∈ condition.subterms,
          ops.evaluate live (Function.update store name (some v)) (occurrence.named name x) =
            ops.evaluate live store x := fun x hx =>
        Occurrence.value_named (fun a ha => hsame a (subterms_trans ha hx))
          fun hmem => hname (subterms_trans hmem hx)
      obtain ⟨hsome, hnone⟩ :=
        ih hlater (hfloats.named occurrence name) htrees (Function.update store name (some v))
      refine ⟨fun store' h => (hsome store' h).trans (hnamed condition (self_mem_subterms _)),
        fun h => ?_⟩
      obtain ⟨call', hmem, hfails⟩ := hnone h
      obtain ⟨hmem, hisCall⟩ := mem_calls_iff.1 hmem
      rcases Occurrence.mem_subterms_named hmem with rfl | ⟨x, hx, hnot, rfl⟩
      · cases hisCall
      · rw [Occurrence.isCall_named hnot] at hisCall
        exact ⟨x, mem_calls_iff.2 ⟨hx, hisCall⟩, by rw [← hnamed x hx, hfails]⟩

/-! ## Assertions -/

/-- The declarations followed by the new condition have the outcome of the old condition, unless a
call of the condition fails in a declaration. The variables declared must not be variables of the
condition already, floats that are taken to be the same must have one value, and calls that are
recognised by one text must be one tree. -/
def PreservesOutcome (condition : Expr) (declarations : List Stmt) (condition' : Expr) : Prop :=
  ∃ taken rounds, Rounds condition taken rounds condition' ∧
    declarations = rounds.map Round.declaration ∧
    ∀ (V : Type u) (ops : Operations V) (live store : String → Option V),
      (∀ r ∈ rounds, .var r.name ∉ condition.subterms) → condition.FloatsAgree ops →
      (∀ r ∈ rounds, r.OneTree) →
      (ops.declareAll live declarations store ≠ none →
        ops.outcome live declarations condition' store = ops.outcome live [] condition store) ∧
      (ops.declareAll live declarations store = none →
        ∃ call ∈ condition.calls, ops.evaluate live store call = none)

theorem preservesOutcome_of_sharesAs {condition condition' : Expr} {declarations : List Stmt}
    (h : Stmt.SharesAs condition declarations condition') :
    PreservesOutcome.{u} condition declarations condition' := by
  obtain ⟨taken, taken', h⟩ := h
  obtain ⟨rounds, hrounds, rfl, -⟩ := rounds_of_share h
  refine ⟨taken, rounds, hrounds, rfl, fun V ops live store hfree hfloats htrees => ?_⟩
  obtain ⟨hsome, hnone⟩ := hrounds.evaluate_result hfree hfloats htrees store
  refine ⟨fun hne => ?_, hnone⟩
  obtain ⟨store', hstore'⟩ := Option.ne_none_iff_exists'.1 hne
  simp only [Operations.outcome, hstore', Operations.declareAll,
    Option.bind_some, hsome store' hstore']

end Expr

/-- In a block without repeated calls every assertion has the outcome that it had, unless a call of
its condition fails before it. -/
theorem Stmt.shareCalls_preservesOutcome {body shared : List Stmt}
    (h : Stmt.shareCalls body = .ok shared) :
    Stmt.Rewrites Expr.PreservesOutcome.{u} body shared :=
  (Stmt.rewrites_of_shareCalls h).imp fun _ _ _ => Expr.preservesOutcome_of_sharesAs

/-! ## Truth values and null -/

/-- The operations on truth values and null. A float stands for its sign, and NaN has none. A unary
operator negates. A call without arguments is true, one with an argument is the argument, and a call
on a truth value is true. -/
def flags : Operations (Option Bool) where
  truth := id
  literal
    | .boolean b => some (some b)
    | .null => some none
    | .float x => some (some (x.isNegative && !x.isNaN))
    | _ => none
  literal_of_isNaN x hx := by
    have hnan : (x.isNegative && !x.isNaN) = false := by rw [hx, Bool.not_true, Bool.and_false]
    simp only [hnan]
    rfl
  binary
    | .equal, a, b => some (some (a == b))
    | .notEqual, a, b => some (some (a != b))
    | _, _, _ => none
  unary _ operand := operand.map fun b => some !b
  field _ _ := none
  index _ _ := none
  call
    | _, [] => some (some true)
    | _, [a] => some a
    | _, _ => none
  send receiver _ _ := receiver.map fun _ => some true
  create _ _ := none
  set _ := none
  map _ := none
  tuple _ := none
  cast _ _ := none
  self := none

/-- The call `f(x)` of a float. -/
def callOf (x : Double) : Expr := .call "f" [.literal (.float x)]

/-- The condition `f(NaN) == f(NaN) && x.g() == x.g()`, with different data for NaN. -/
def repeatedCalls : Expr :=
  .binary .and (.binary .equal (callOf .nan) (callOf ⟨0x7ff8000000000001⟩))
    (.binary .equal (.send (.var "x") "g" []) (.send (.var "x") "g" []))

/-- The declarations of the calls in `repeatedCalls`, the first recognised by its text. -/
def repeatedDeclarations : List Stmt :=
  [.declare "var" "f_result" (callOf .nan), .declare "var" "g_result" (.send (.var "x") "g" [])]

/-- The condition that follows them. -/
def repeatedResults : Expr :=
  .binary .and (.binary .equal (.var "f_result") (.var "f_result"))
    (.binary .equal (.var "g_result") (.var "g_result"))

theorem repeatedCalls_keepsOutcome :
    Stmt.shareCalls [.assert repeatedCalls] =
      .ok (repeatedDeclarations ++ [.assert repeatedResults]) ∧
    flags.outcome (fun _ => none) repeatedDeclarations repeatedResults
        (fun _ => some (some false)) =
      flags.outcome (fun _ => none) [] repeatedCalls (fun _ => some (some false)) ∧
    flags.outcome (fun _ => none) [] repeatedCalls (fun _ => some (some false)) = some true := by
  have h : Stmt.shareCalls [.assert repeatedCalls] =
      .ok (repeatedDeclarations ++ [.assert repeatedResults]) := rfl
  refine ⟨h, ?_, rfl⟩
  obtain ⟨declarations, condition', rest', heq, hkeeps, -⟩ :=
    (Stmt.shareCalls_preservesOutcome h).of_assert
  obtain ⟨rfl, rfl⟩ : declarations = repeatedDeclarations ∧ condition' = repeatedResults := by
    rcases declarations with _ | ⟨d, _ | ⟨d', _ | ⟨d'', ds⟩⟩⟩
    · cases heq
    · cases heq
    · cases heq; exact ⟨rfl, rfl⟩
    · simp [repeatedDeclarations] at heq
  obtain ⟨taken, rounds, hrounds, hdecl, hkeeps⟩ := hkeeps
  have hfirst : repeatedCalls.repeatedCall =
      .ok (some (callOf .nan, .textual "f(Double.NaN)")) := rfl
  obtain ⟨rounds, rfl, hdecl, hrounds⟩ := hrounds.of_repeatedCall hfirst hdecl
  have hsecond : ((Expr.Occurrence.textual "f(Double.NaN)").named "f_result"
      repeatedCalls).repeatedCall =
        .ok (some (.send (.var "x") "g" [], .structural (.send (.var "x") "g" []))) := rfl
  obtain ⟨rounds, rfl, hdecl, -⟩ := hrounds.of_repeatedCall hsecond hdecl
  obtain rfl := List.map_eq_nil_iff.1 hdecl.symm
  refine (hkeeps _ flags (fun _ => none) (fun _ => some (some false)) ?free ?floats
    (List.forall_mem_cons.2 ⟨?textual, List.forall_mem_singleton.2 ?structural⟩)).1
    (Option.some_ne_none _)
  case free => simp [repeatedCalls, callOf, Expr.subterms, Expr.subtermsAll]
  case floats =>
    intro x y hx _ hxy
    have hnan : x = .nan ∨ x = ⟨0x7ff8000000000001⟩ := by
      simpa [repeatedCalls, callOf, Expr.subterms, Expr.subtermsAll] using hx
    -- NaN is equal to no number
    rcases hnan with rfl | rfl <;> cases hxy
  case structural =>
    intro text heq
    cases heq
  case textual =>
    intro text heq a ha htext
    obtain rfl : text = "f(Double.NaN)" := (Expr.Occurrence.textual.inj heq).symm
    have hcalls : repeatedCalls.calls = [callOf .nan, callOf ⟨0x7ff8000000000001⟩,
      .send (.var "x") "g" [], .send (.var "x") "g" []] := rfl
    rw [hcalls] at ha
    simp only [List.mem_cons, List.not_mem_nil, or_false, or_self] at ha
    have hcall : (callOf .nan).render = .ok "f(Double.NaN)" := rfl
    rcases ha with rfl | rfl | rfl
    · exact .refl _
    · exact ⟨rfl, htext.trans hcall.symm⟩
    · have hother : (Except.ok "x.g()" : Except Unsupported String) = .ok "f(Double.NaN)" := htext
      exact absurd (Except.ok.inj hother) (by decide)

/-- The condition `x != null && x.g() == x.g()`. -/
def guardedCalls : Expr :=
  let call := .send (.var "x") "g" []
  .binary .and (.binary .notEqual (.var "x") .null) (.binary .equal call call)

/-- The condition `(f() == f()) == f_result`. -/
def namedLikeResult : Expr :=
  .binary .equal (.binary .equal (.call "f" []) (.call "f" [])) (.var "f_result")

/-- The condition `f(0.0) == f(-0.0)`. -/
def callsOfZeros : Expr := .binary .equal (callOf .zero) (callOf Double.zero.negated)

/-- The condition `f(-1.5.g()) == f(-1.5.g())`. On the left the receiver of the inner call is the
literal `-1.5`; on the right it is `1.5`, and the call is negated. -/
def callsOfOneText : Expr :=
  .binary .equal (.call "f" [.send (.literal (.float ⟨0xbff8000000000000⟩)) "g" []])
    (.call "f" [.unary .negate (.send (.literal (.float ⟨0x3ff8000000000000⟩)) "g" [])])

/-- A call that the guard keeps from failing fails before the assertion; a variable of the condition
with the name of a hoisted one is captured; calls that differ in the sign of a zero are merged; and
so are different calls that have one text. -/
theorem outcome_not_preserved :
    (∃ declarations condition,
      Stmt.shareCalls [.assert guardedCalls] = .ok (declarations ++ [.assert condition]) ∧
      flags.outcome (fun _ => none) [] guardedCalls (fun _ => some none) = some false ∧
      flags.outcome (fun _ => none) declarations condition (fun _ => some none) = none) ∧
    (∃ declarations condition,
      Stmt.shareCalls [.assert namedLikeResult] = .ok (declarations ++ [.assert condition]) ∧
      flags.outcome (fun _ => none) [] namedLikeResult (fun _ => some (some false)) = some false ∧
      flags.outcome (fun _ => none) declarations condition (fun _ => some (some false)) =
        some true) ∧
    (∃ declarations condition,
      Stmt.shareCalls [.assert callsOfZeros] = .ok (declarations ++ [.assert condition]) ∧
      flags.outcome (fun _ => none) [] callsOfZeros (fun _ => none) = some false ∧
      flags.outcome (fun _ => none) declarations condition (fun _ => none) = some true) ∧
    ∃ declarations condition,
      Stmt.shareCalls [.assert callsOfOneText] = .ok (declarations ++ [.assert condition]) ∧
      flags.outcome (fun _ => none) [] callsOfOneText (fun _ => none) = some false ∧
      flags.outcome (fun _ => none) declarations condition (fun _ => none) = some true := by
  refine ⟨⟨[.declare "var" "g_result" (.send (.var "x") "g" [])], _, rfl, rfl, rfl⟩,
    ⟨[.declare "var" "f_result" (.call "f" [])], _, rfl, rfl, rfl⟩,
    ⟨[.declare "var" "f_result" (callOf .zero)], _, rfl, rfl, rfl⟩,
    ⟨[.declare "var" "f_result"
      (.call "f" [.send (.literal (.float ⟨0xbff8000000000000⟩)) "g" []])],
      _, rfl, rfl, rfl⟩⟩

end ContractTests
