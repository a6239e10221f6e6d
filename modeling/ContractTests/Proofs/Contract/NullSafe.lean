import ContractTests.Contract.Assertion
import ContractTests.Proofs.Expr.Value
import Mathlib.Logic.Relation

/-! # Comparison by value

An assertion compares a variable that may be null by value. `Expr.valueBy I compare` is the value of
an expression in which `compare` reads every equality that has such a variable as an operand, and
the interpretation `I` all other nodes; `Comparison.sameValue` is the comparison by value, in which
null is equal to null alone.

`nullSafe_comparesByValue`: with `==` as identity and lazy `&&` and `||`, the expression made by
`Expr.nullSafe` has that value, or fails as it does; and where `equals` runs on null there, the call
is one of the expression itself (`Comparison.Runs`).
-/

set_option autoImplicit false

universe u

namespace ContractTests

/-! ## Equalities of their own kind -/

/-- A value, with whether it was read from a variable that may be null. -/
structure Marked (α : Type u) where
  value : α
  isNullable : Bool

/-- The interpretation in which `compare` reads the equalities that have a marked operand. -/
def Interpretation.marked {α : Type u} (I : Interpretation α) (compare : BinaryOp → α → α → α) :
    Interpretation (Marked α) where
  literal value := ⟨I.literal value, false⟩
  binary op left right :=
    ⟨if op.isEquality && (left.isNullable || right.isNullable) then
        compare op left.value right.value
      else I.binary op left.value right.value, false⟩
  unary op operand := ⟨I.unary op operand.value, false⟩
  field scope name := ⟨I.field scope.value name, false⟩
  index base position := ⟨I.index base.value position.value, false⟩
  call name args := ⟨I.call name (args.map Marked.value), false⟩
  send receiver name args := ⟨I.send receiver.value name (args.map Marked.value), false⟩
  create type args := ⟨I.create type (args.map Marked.value), false⟩
  set elements := ⟨I.set (elements.map Marked.value), false⟩
  map entries := ⟨I.map (entries.map fun p => (p.1.value, p.2.value)), false⟩
  tuple elements := ⟨I.tuple (elements.map Marked.value), false⟩
  conditional condition yes no := ⟨I.conditional condition.value yes.value no.value, false⟩
  cast type operand := ⟨I.cast type operand.value, false⟩
  self := ⟨I.self, false⟩

namespace Expr

variable {α : Type u}

/-- The value of an expression with the mark of a nullable variable. -/
def markedValue (I : Interpretation α) (compare : BinaryOp → α → α → α)
    (isNullable : String → Bool) (store live : String → α) (e : Expr) : Marked α :=
  e.value (I.marked compare)
    ⟨fun name => ⟨store name, isNullable name⟩, fun name => ⟨live name, false⟩, fun _ => false⟩

/-- The value of an expression in which `compare` reads the equalities that have a nullable variable
as an operand. -/
def valueBy (I : Interpretation α) (compare : BinaryOp → α → α → α) (isNullable : String → Bool)
    (store live : String → α) (e : Expr) : α :=
  (e.markedValue I compare isNullable store live).value

section

variable {I : Interpretation α} {compare : BinaryOp → α → α → α} {isNullable : String → Bool}
  {store live : String → α}

/-- Variables are marked, and no other nodes. -/
theorem markedValue_isNullable (e : Expr) :
    (e.markedValue I compare isNullable store live).isNullable =
      e.isNullableVariable isNullable := by
  cases e with
  | index base position =>
    simp only [markedValue, value, isScalarBase_eq_false (fun _ => rfl) base]
    rfl
  | _ => rfl

theorem valueBy_binary (op : BinaryOp) (left right : Expr) :
    (Expr.binary op left right).valueBy I compare isNullable store live =
      if op.isEquality &&
          (left.isNullableVariable isNullable || right.isNullableVariable isNullable) then
        compare op (left.valueBy I compare isNullable store live)
          (right.valueBy I compare isNullable store live)
      else
        I.binary op (left.valueBy I compare isNullable store live)
          (right.valueBy I compare isNullable store live) := by
  have hmarked (e : Expr) : (e.markedValue I compare isNullable store live).isNullable =
      e.isNullableVariable isNullable := markedValue_isNullable e
  rw [← hmarked, ← hmarked]
  rfl

/-- A node that is no binary one is read by the interpretation from the values of its children. -/
theorem value_eq_valueBy_of_parallel {e e' : Expr}
    (h : Parallel (fun c c' => c'.value I ⟨store, live, fun _ => false⟩ =
      c.valueBy I compare isNullable store live) e e')
    (hbinary : ∀ op left right, e ≠ .binary op left right) :
    e'.value I ⟨store, live, fun _ => false⟩ = e.valueBy I compare isNullable store live := by
  let r : Reading (Marked α) :=
    ⟨fun name => ⟨store name, isNullable name⟩, fun name => ⟨live name, false⟩, fun _ => false⟩
  have hlist {es es' : List Expr} (hes : List.Forall₂ (fun c c' =>
      c'.value I ⟨store, live, fun _ => false⟩ = c.valueBy I compare isNullable store live) es es') :
      valueAll I ⟨store, live, fun _ => false⟩ es' =
        (valueAll (I.marked compare) r es).map Marked.value := by
    rw [valueAll_eq, valueAll_eq, List.map_map]
    exact map_eq_map_of_forall₂ hes
  have hdrop (base : Expr) : base.isScalarBase (fun _ => false) = false :=
    isScalarBase_eq_false (fun _ => rfl) base
  cases h with
  | binary op => exact absurd rfl (hbinary op _ _)
  | index ha hb =>
    simp only [value, valueBy, markedValue, hdrop, Bool.false_eq_true, if_false, ha, hb]
    rfl
  | call name hes => exact congrArg (I.call name) (hlist hes)
  | send ha name hes => exact congrArg₂ (I.send · name ·) ha (hlist hes)
  | create type hes => exact congrArg (I.create type) (hlist hes)
  | set hes => exact congrArg I.set (hlist hes)
  | tuple hes => exact congrArg I.tuple (hlist hes)
  | map hes =>
    refine congrArg I.map ?_
    rw [valueEntries_eq, valueEntries_eq, List.map_map]
    refine map_eq_map_of_forall₂ (hes.imp fun p q hpq => ?_)
    rw [hpq.1, hpq.2]
    rfl
  | literal _ => rfl
  | var _ => rfl
  | postState _ => rfl
  | self => rfl
  | unary op ha => exact congrArg (I.unary op) ha
  | field ha name => exact congrArg (I.field · name) ha
  | cast type ha => exact congrArg (I.cast type) ha
  | conditional ha hb hc => rw [value, ha, hb, hc]; rfl

end

/-! ## The step at an equality -/

/-- One operand receives `equals`, and the other one is its argument. -/
def AreOperands (left right receiver argument : Expr) : Prop :=
  receiver = left ∧ argument = right ∨ receiver = right ∧ argument = left

/-- What becomes of a node whose children have been looked at. -/
inductive Compared (isNullable : String → Bool) : Expr → Expr → Prop
  | kept {e : Expr} (hkept : ∀ op left right, e = .binary op left right →
      (op.isEquality &&
        (left.isNullableVariable isNullable || right.isNullableVariable isNullable)) = false) :
      Compared isNullable e e
  | equal {left right receiver argument : Expr}
      (hnullable : (left.isNullableVariable isNullable ||
        right.isNullableVariable isNullable) = true)
      (hoperands : AreOperands left right receiver argument) :
      Compared isNullable (.binary .equal left right)
        (valueEquality left right receiver argument)
  | notEqual {left right receiver argument : Expr}
      (hnullable : (left.isNullableVariable isNullable ||
        right.isNullableVariable isNullable) = true)
      (hoperands : AreOperands left right receiver argument) :
      Compared isNullable (.binary .notEqual left right)
        (.unary .not (valueEquality left right receiver argument))

theorem compared_valueEqualityStep (isNullable : String → Bool) (e : Expr) :
    Compared isNullable e (valueEqualityStep isNullable e) := by
  cases e with
  | binary op left right =>
    have hcompared {receiver argument : Expr}
        (hnullable : (left.isNullableVariable isNullable ||
          right.isNullableVariable isNullable) = true)
        (hoperands : AreOperands left right receiver argument)
        (hsome : (if left.isNullableVariable isNullable then
            some (valueEquality left right left right)
          else if right.isNullableVariable isNullable then
            some (valueEquality left right right left)
          else none) = some (valueEquality left right receiver argument)) :
        Compared isNullable (.binary op left right)
          (valueEqualityStep isNullable (.binary op left right)) := by
      simp only [valueEqualityStep, hsome]
      cases op with
      | equal => exact .equal hnullable hoperands
      | notEqual => exact .notEqual hnullable hoperands
      | _ => exact .kept (by rintro _ _ _ ⟨⟩; rfl)
    cases hl : left.isNullableVariable isNullable with
    | true => exact hcompared (by rw [hl]; rfl) (.inl ⟨rfl, rfl⟩) (by rw [hl]; rfl)
    | false =>
      cases hr : right.isNullableVariable isNullable with
      | true => exact hcompared (by rw [hr, Bool.or_true]) (.inr ⟨rfl, rfl⟩) (by rw [hl, hr]; rfl)
      | false =>
        have hkept : valueEqualityStep isNullable (.binary op left right) =
            .binary op left right := by
          simp only [valueEqualityStep, hl, hr]
          cases op <;> rfl
        rw [hkept]
        exact .kept (by rintro _ _ _ ⟨⟩; rw [hl, hr, Bool.or_false, Bool.and_false])
  | _ => exact .kept nofun

/-- What holds of every node still does when nullable variables are compared by value, if it holds of
the nodes of a comparison. -/
theorem Everywhere.nullSafe {Q : Expr → Prop} (hQ : IgnoresChildren Q)
    (hbinary : ∀ op left right, Q (.binary op left right)) (hnot : ∀ e, Q (.unary .not e))
    (hnull : Q .null) (hequals : ∀ receiver argument, Q (.send receiver "equals" [argument]))
    {e : Expr} (h : Everywhere Q e) (isNullable : String → Bool) :
    Everywhere Q (e.nullSafe isNullable) := by
  have hpair {op : BinaryOp} {left right : Expr} (hleft : Everywhere Q left)
      (hright : Everywhere Q right) : Everywhere Q (.binary op left right) :=
    everywhere_iff.2 ⟨hbinary op left right, by simp [children, hleft, hright]⟩
  have hvalue {left right receiver argument : Expr} {op : BinaryOp}
      (hoperands : AreOperands left right receiver argument)
      (h : Everywhere Q (.binary op left right)) :
      Everywhere Q (valueEquality left right receiver argument) := by
    have hnull : Everywhere Q .null := everywhere_iff.2 ⟨hnull, List.forall_mem_nil _⟩
    obtain ⟨hleft, hright, -⟩ :
        Everywhere Q left ∧ Everywhere Q right ∧ ∀ e ∈ [], Everywhere Q e := by
      simpa only [children, List.forall_mem_cons] using (everywhere_iff.1 h).2
    have hsend : Everywhere Q receiver ∧ Everywhere Q (.send receiver "equals" [argument]) := by
      rcases hoperands with ⟨rfl, rfl⟩ | ⟨rfl, rfl⟩
      · exact ⟨hleft, everywhere_iff.2 ⟨hequals _ _, by simp [children, hleft, hright]⟩⟩
      · exact ⟨hright, everywhere_iff.2 ⟨hequals _ _, by simp [children, hleft, hright]⟩⟩
    exact hpair (hpair hleft hright) (hpair (hpair hsend.1 hnull) hsend.2)
  refine rebuild_spec (P := fun e e' => Everywhere Q e → Everywhere Q e') (fun e e' hp he => ?_) e h
  have hkept : Everywhere Q e' := hp.everywhere_of_imp hQ he
  have hcompared := compared_valueEqualityStep isNullable e'
  generalize valueEqualityStep isNullable e' = compared at hcompared
  cases hcompared with
  | kept => exact hkept
  | equal _ hoperands => exact hvalue hoperands hkept
  | notEqual _ hoperands =>
    exact everywhere_iff.2 ⟨hnot _, List.forall_mem_singleton.2 (hvalue hoperands hkept)⟩

end Expr

/-! ## Comparisons in Java -/

/-- What comparisons are made of: null, the truth values, and what `equals` gives for a receiver that
is not null. -/
structure Comparison (ε V : Type u) where
  null : V
  truth : Bool → V
  equals : V → V → Except ε Bool

namespace Comparison

variable {ε V : Type u} [DecidableEq V] (c : Comparison ε V)

/-- Whether two values are equal: null to null alone, and others if `equals` says so. -/
def same (a b : V) : Except ε Bool := if a = c.null ∨ b = c.null then .ok (a = b) else c.equals a b

/-- The comparison of two results by value. -/
def sameValue (op : BinaryOp) (x y : Except ε V) : Except ε V :=
  x.bind fun a => y.bind fun b => (c.same a b).map fun same =>
    c.truth (if op = .notEqual then !same else same)

/-- The truth values differ. Between values other than null `equals` is symmetric and contains
identity, and it is false of null. -/
structure Lawful : Prop where
  true_ne_false : c.truth true ≠ c.truth false
  symm : ∀ a b, a ≠ c.null → b ≠ c.null → c.equals a b = c.equals b a
  refl : ∀ a, a ≠ c.null → c.equals a a = .ok true
  null : ∀ a, a ≠ c.null → c.equals a c.null = .ok false

/-- An interpretation that compares by identity, is lazy in the right operands of `&&` and `||`, and
calls `equals` on values other than null. All other nodes are left open, and so is `equals` on null.
-/
structure IsReadBy (I : Interpretation (Except ε V)) : Prop where
  null : I.literal .null = .ok c.null
  equal : ∀ x y, I.binary .equal x y = x.bind fun a => y.bind fun b => .ok (c.truth (a = b))
  notEqual : ∀ x y, I.binary .notEqual x y = x.bind fun a => y.bind fun b => .ok (c.truth (a ≠ b))
  or : ∀ b y, I.binary .or (.ok (c.truth b)) y = if b then .ok (c.truth true) else y
  or_error : ∀ failure y, I.binary .or (.error failure) y = .error failure
  and : ∀ b y, I.binary .and (.ok (c.truth b)) y = if b then y else .ok (c.truth false)
  not : ∀ b, I.unary .not (.ok (c.truth b)) = .ok (c.truth !b)
  not_error : ∀ failure, I.unary .not (.error failure) = .error failure
  equals : ∀ a b, a ≠ c.null → I.send (.ok a) "equals" [.ok b] = (c.equals a b).map c.truth

variable {c}

theorem Lawful.same_self (hc : c.Lawful) (a : V) : c.same a a = .ok true := by
  unfold same
  split
  · rw [decide_eq_true rfl]
  · exact hc.refl a (by simp_all)

theorem Lawful.same_comm (hc : c.Lawful) (a b : V) : c.same a b = c.same b a := by
  unfold same
  simp only [or_comm (a := b = c.null), eq_comm (a := b) (b := a)]
  split
  · rfl
  · exact hc.symm a b (by simp_all) (by simp_all)

variable {I : Interpretation (Except ε V)} {store live : String → Except ε V}

/-- `equals` guarded against null compares different values. -/
theorem IsReadBy.guarded_equals (hI : c.IsReadBy I) (hc : c.Lawful) {a b : V} (hab : a ≠ b) :
    I.binary .and (I.binary .notEqual (.ok a) (.ok c.null)) (I.send (.ok a) "equals" [.ok b]) =
      (c.same a b).map c.truth := by
  rw [hI.notEqual]
  refine (hI.and (decide (a ≠ c.null)) _).trans ?_
  by_cases ha : a = c.null
  · simp [ha, same, Except.map, ha ▸ hab]
  · rw [if_pos (decide_eq_true ha), hI.equals a b ha]
    by_cases hb : b = c.null
    · rw [hb, hc.null a ha, same, if_pos (.inr rfl), decide_eq_false ha]
    · rw [same, if_neg (by simp [ha, hb])]

/-- The expression made for an equality compares by value. -/
theorem IsReadBy.value_valueEquality (hI : c.IsReadBy I) (hc : c.Lawful)
    {left right receiver argument : Expr}
    (hoperands : Expr.AreOperands left right receiver argument) :
    (Expr.valueEquality left right receiver argument).value I ⟨store, live, fun _ => false⟩ =
      c.sameValue .equal (left.value I ⟨store, live, fun _ => false⟩)
        (right.value I ⟨store, live, fun _ => false⟩) := by
  simp only [Expr.valueEquality, Expr.null, Expr.value, Expr.valueAll, hI.equal, hI.null]
  cases hleft : left.value I ⟨store, live, fun _ => false⟩ with
  | error failure => exact hI.or_error failure _
  | ok a =>
    cases hright : right.value I ⟨store, live, fun _ => false⟩ with
    | error failure => exact hI.or_error failure _
    | ok b =>
      refine (hI.or (decide (a = b)) _).trans ?_
      have hsame : c.sameValue .equal (.ok a) (.ok b) = (c.same a b).map c.truth := rfl
      rw [hsame]
      by_cases hab : a = b
      · rw [if_pos (decide_eq_true hab), hab, hc.same_self b]
        rfl
      · rw [if_neg (by simp [hab])]
        rcases hoperands with ⟨rfl, rfl⟩ | ⟨rfl, rfl⟩
        · rw [hleft, hright, hI.guarded_equals hc hab]
        · rw [hleft, hright, hI.guarded_equals hc (Ne.symm hab), hc.same_comm b a]

/-- A negated comparison by value. -/
theorem IsReadBy.not_sameValue (hI : c.IsReadBy I) (x y : Except ε V) :
    I.unary .not (c.sameValue .equal x y) = c.sameValue .notEqual x y := by
  cases x with
  | error failure => exact hI.not_error failure
  | ok a =>
    cases y with
    | error failure => exact hI.not_error failure
    | ok b =>
      cases hsame : c.same a b with
      | error failure => simp [sameValue, Except.bind, Except.map, hsame, hI.not_error]
      | ok same => simp [sameValue, Except.bind, Except.map, hsame, hI.not]

/-- The expression compared by value has the value in which nullable variables are compared by
value. -/
theorem IsReadBy.value_nullSafe (hI : c.IsReadBy I) (hc : c.Lawful) (isNullable : String → Bool)
    (e : Expr) :
    (e.nullSafe isNullable).value I ⟨store, live, fun _ => false⟩ =
      e.valueBy I c.sameValue isNullable store live := by
  refine (Expr.rebuild_spec (P := fun e e' =>
    e'.value I ⟨store, live, fun _ => false⟩ = e.valueBy I c.sameValue isNullable store live ∧
      e'.isNullableVariable isNullable = e.isNullableVariable isNullable) (fun e e' hp => ?_) e).1
  have hvalues := hp.imp fun _ _ _ _ h => h.1
  have hcompared := Expr.compared_valueEqualityStep isNullable e'
  generalize Expr.valueEqualityStep isNullable e' = out at hcompared ⊢
  cases hcompared with
  | kept hkept =>
    refine ⟨?_, by cases hp <;> rfl⟩
    cases hp with
    | binary op ha hb =>
      have hop := hkept _ _ _ rfl
      rw [ha.2, hb.2] at hop
      rw [Expr.valueBy_binary, hop, ← ha.1, ← hb.1]
      rfl
    | _ => exact Expr.value_eq_valueBy_of_parallel hvalues nofun
  | equal hnullable hoperands =>
    cases hp with
    | binary _ ha hb =>
      refine ⟨?_, rfl⟩
      rw [hI.value_valueEquality hc hoperands, Expr.valueBy_binary, ← ha.2, ← hb.2, hnullable,
        ha.1, hb.1]
      rfl
  | notEqual hnullable hoperands =>
    cases hp with
    | binary _ ha hb =>
      refine ⟨?_, rfl⟩
      rw [Expr.value, hI.value_valueEquality hc hoperands, hI.not_sameValue, Expr.valueBy_binary,
        ← ha.2, ← hb.2, hnullable, ha.1, hb.1]
      rfl

/-! ## Calls on null -/

/-- The children that the evaluation of a node may come to. The right operand of `&&` and `||` is
one of them only when the left one does not decide. -/
def Enters (c : Comparison ε V) (I : Interpretation (Except ε V))
    (store live : String → Except ε V) (e x : Expr) : Prop :=
  match e with
  | .binary .and left right =>
    x = left ∨ left.value I ⟨store, live, fun _ => false⟩ = .ok (c.truth true) ∧ x = right
  | .binary .or left right =>
    x = left ∨ left.value I ⟨store, live, fun _ => false⟩ = .ok (c.truth false) ∧ x = right
  | e => x ∈ e.children

/-- The nodes that the evaluation of an expression may come to. -/
def Runs (c : Comparison ε V) (I : Interpretation (Except ε V))
    (store live : String → Except ε V) : Expr → Expr → Prop :=
  Relation.ReflTransGen (c.Enters I store live)

omit [DecidableEq V] in
theorem Enters.mem_children {e x : Expr} (h : c.Enters I store live e x) : x ∈ e.children := by
  unfold Enters at h
  split at h
  · rcases h with rfl | ⟨-, rfl⟩ <;> simp [Expr.children]
  · rcases h with rfl | ⟨-, rfl⟩ <;> simp [Expr.children]
  · exact h

omit [DecidableEq V] in
/-- A call is the node itself, or the evaluation comes to it through a child. -/
theorem Runs.cases_call {e receiver : Expr} {name : String} {args : List Expr}
    (h : c.Runs I store live e (.send receiver name args)) :
    e = .send receiver name args ∨
      ∃ x, c.Enters I store live e x ∧ c.Runs I store live x (.send receiver name args) :=
  h.cases_head

/-- `equals` guarded against null is not called on null. -/
theorem IsReadBy.receiver_ne_null (hI : c.IsReadBy I) (hc : c.Lawful) {receiver argument : Expr}
    (henters : c.Enters I store live
      (.binary .and (.binary .notEqual receiver .null) (.send receiver "equals" [argument]))
      (.send receiver "equals" [argument])) :
    receiver.value I ⟨store, live, fun _ => false⟩ ≠ .ok c.null := by
  intro hnull
  obtain heq | ⟨htrue, -⟩ := henters
  · cases heq
  · rw [Expr.value, hI.notEqual, hnull, Expr.null, Expr.value, hI.null] at htrue
    have hfalse : c.truth (decide (c.null ≠ c.null)) = c.truth true := Except.ok.inj htrue
    rw [decide_eq_false (fun h => h rfl)] at hfalse
    exact hc.true_ne_false hfalse.symm

/-- A call on null that the comparison of two operands comes to is in one of the operands. -/
theorem IsReadBy.runs_valueEquality (hI : c.IsReadBy I) (hc : c.Lawful)
    {left right receiver argument x : Expr} {name : String} {args : List Expr}
    (hoperands : Expr.AreOperands left right receiver argument)
    (hruns : c.Runs I store live (Expr.valueEquality left right receiver argument)
      (.send x name args))
    (hnull : x.value I ⟨store, live, fun _ => false⟩ = .ok c.null) :
    ∃ operand, (operand = left ∨ operand = right) ∧
      c.Runs I store live operand (.send x name args) := by
  have hreceiver : receiver = left ∨ receiver = right := hoperands.imp And.left And.left
  have hargument : argument = left ∨ argument = right := (hoperands.imp And.right And.right).symm
  obtain heq | ⟨e, rfl | ⟨-, rfl⟩, hruns⟩ := hruns.cases_call
  · cases heq
  · -- the comparison by identity
    obtain heq | ⟨e, henters, hin⟩ := hruns.cases_call
    · cases heq
    · exact ⟨e, by simpa [Expr.children] using henters.mem_children, hin⟩
  · obtain heq | ⟨e, rfl | ⟨htrue, rfl⟩, hruns⟩ := hruns.cases_call
    · cases heq
    · -- the receiver compared with null
      obtain heq | ⟨e, henters, hin⟩ := hruns.cases_call
      · cases heq
      · obtain rfl | rfl : e = receiver ∨ e = .null := by
          simpa [Expr.children] using henters.mem_children
        · exact ⟨e, hreceiver, hin⟩
        · obtain heq | ⟨e, henters, -⟩ := hin.cases_call
          · cases heq
          · cases henters.mem_children
    · -- the call of `equals`, which runs only when the receiver is not null
      obtain heq | ⟨e, henters, hin⟩ := hruns.cases_call
      · cases heq
        have henters : c.Enters I store live (.binary .and (.binary .notEqual receiver .null)
            (.send receiver "equals" [argument])) (.send receiver "equals" [argument]) :=
          .inr ⟨htrue, rfl⟩
        exact absurd hnull (hI.receiver_ne_null hc henters)
      · obtain rfl | rfl : e = receiver ∨ e = argument := by
          simpa [Expr.children] using henters.mem_children
        · exact ⟨e, hreceiver, hin⟩
        · exact ⟨e, hargument, hin⟩

/-- A call of `equals` on null that the expression compared by value comes to was made of a call in
the expression. -/
theorem IsReadBy.runs_nullSafe (hI : c.IsReadBy I) (hc : c.Lawful) (isNullable : String → Bool)
    {e x : Expr} {name : String} {args : List Expr}
    (hruns : c.Runs I store live (e.nullSafe isNullable) (.send x name args))
    (hnull : x.value I ⟨store, live, fun _ => false⟩ = .ok c.null) :
    ∃ x' args', .send x' name args' ∈ e.subterms ∧ x'.nullSafe isNullable = x ∧
      args'.map (Expr.nullSafe isNullable) = args := by
  induction e using Expr.children_induction with
  | node e ih =>
    have hrebuild : e.nullSafe isNullable =
        Expr.valueEqualityStep isNullable (e.mapChildren (Expr.nullSafe isNullable)) :=
      Expr.rebuild_eq e
    have hp := Expr.mapChildren_parallel (Expr.nullSafe isNullable) e
    have hcompared := Expr.compared_valueEqualityStep isNullable
      (e.mapChildren (Expr.nullSafe isNullable))
    rw [← hrebuild] at hcompared
    generalize e.mapChildren (Expr.nullSafe isNullable) = e' at hp hcompared
    have hchild {c' : Expr} (hc' : c' ∈ e'.children)
        (hruns : c.Runs I store live c' (.send x name args)) :
        ∃ x' args', .send x' name args' ∈ e.subterms ∧ x'.nullSafe isNullable = x ∧
          args'.map (Expr.nullSafe isNullable) = args := by
      obtain ⟨child, hmem, rfl⟩ := exists_of_mem_right hp.children hc'
      obtain ⟨x', args', hsend, hx, hargs⟩ := ih child hmem hruns
      exact ⟨x', args', Expr.mem_subterms_of_mem_children hmem hsend, hx, hargs⟩
    generalize e.nullSafe isNullable = out at hruns hcompared
    cases hcompared with
    | kept _ =>
      obtain rfl | ⟨c', henters, hin⟩ := hruns.cases_call
      · cases hp with
        | send hx _ hargs =>
          refine ⟨_, _, Expr.self_mem_subterms _, hx, ?_⟩
          exact (map_eq_map_of_forall₂ (g := id) (hargs.imp fun _ _ h => h.symm)).symm.trans
            (List.map_id _)
      · exact hchild henters.mem_children hin
    | equal _ hoperands =>
      obtain ⟨c', hc', hin⟩ := hI.runs_valueEquality hc hoperands hruns hnull
      exact hchild (by simpa [Expr.children] using hc') hin
    | notEqual _ hoperands =>
      obtain heq | ⟨compared, henters, hin⟩ := hruns.cases_call
      · cases heq
      · obtain rfl := List.mem_singleton.1 henters.mem_children
        obtain ⟨c', hc', hin⟩ := hI.runs_valueEquality hc hoperands hin hnull
        exact hchild (by simpa [Expr.children] using hc') hin

end Comparison

/-- An expression with its nullable variables compared by value has the value, or the failure, of
the expression in which these comparisons are equalities of values. Its new calls of `equals` are
not on null, so that every one that is was made of a call in the expression. -/
theorem Expr.nullSafe_comparesByValue {ε V : Type u} [DecidableEq V] {c : Comparison ε V}
    {I : Interpretation (Except ε V)} (hc : c.Lawful) (hI : c.IsReadBy I)
    (isNullable : String → Bool) (store live : String → Except ε V) (e : Expr) :
    (e.nullSafe isNullable).value I ⟨store, live, fun _ => false⟩ =
        e.valueBy I c.sameValue isNullable store live ∧
      (∀ receiver argument : Expr, c.Enters I store live
          (.binary .and (.binary .notEqual receiver .null) (.send receiver "equals" [argument]))
          (.send receiver "equals" [argument]) →
        receiver.value I ⟨store, live, fun _ => false⟩ ≠ .ok c.null) ∧
      ∀ receiver args, c.Runs I store live (e.nullSafe isNullable) (.send receiver "equals" args) →
        receiver.value I ⟨store, live, fun _ => false⟩ = .ok c.null →
        ∃ receiver' args', .send receiver' "equals" args' ∈ e.subterms ∧
          receiver'.nullSafe isNullable = receiver ∧
          args'.map (Expr.nullSafe isNullable) = args :=
  ⟨hI.value_nullSafe hc isNullable e, fun _ _ => hI.receiver_ne_null hc,
    fun _ _ => hI.runs_nullSafe hc isNullable⟩

/-! ## Objects with contents -/

/-- Null, a truth value, or an object with an address and contents. -/
inductive Item where
  | null
  | flag (b : Bool)
  | object (address contents : Nat)
deriving DecidableEq

/-- Objects are equal when their contents are. -/
def Item.comparison : Comparison String Item where
  null := .null
  truth := .flag
  equals
    | .object _ a, .object _ b => .ok (a == b)
    | a, b => .ok (a == b)

/-- Comparisons in Java, and the method `equals`. A call without a receiver makes an object. -/
def Item.interpretation : Interpretation (Except String Item) where
  literal
    | .null => .ok .null
    | .boolean b => .ok (.flag b)
    | _ => .error "no literal"
  binary
    | .equal, x, y => x.bind fun a => y.bind fun b => .ok (.flag (a = b))
    | .notEqual, x, y => x.bind fun a => y.bind fun b => .ok (.flag (a ≠ b))
    | .or, .ok (.flag false), y => y
    | .or, x, _ => x
    | .and, .ok (.flag true), y => y
    | .and, x, _ => x
    | _, _, _ => .error "no operator"
  unary
    | .not, .ok (.flag b) => .ok (.flag !b)
    | .not, .error failure => .error failure
    | _, _ => .error "no operator"
  field _ _ := .error "no field"
  index _ _ := .error "no array"
  call _ _ := .ok (.object 3 7)
  send
    | .ok .null, _, _ => .error "null"
    | .ok a, "equals", [.ok b] => (Item.comparison.equals a b).map .flag
    | _, _, _ => .error "no method"
  create _ _ := .error "no constructor"
  set _ := .error "no collection"
  map _ := .error "no collection"
  tuple _ := .error "no collection"
  conditional _ _ _ := .error "no operator"
  cast _ operand := operand
  self := .error "no object"

theorem Item.comparison_lawful : Item.comparison.Lawful where
  true_ne_false := nofun
  symm a b _ _ := by cases a <;> cases b <;> simp [comparison, Bool.beq_comm]
  refl a _ := by cases a <;> simp [comparison]
  null a ha := by cases a <;> simp_all [comparison]

theorem Item.isReadBy_interpretation : Item.comparison.IsReadBy Item.interpretation where
  null := rfl
  equal _ _ := rfl
  notEqual _ _ := rfl
  or b _ := by cases b <;> rfl
  or_error _ _ := rfl
  and b _ := by cases b <;> rfl
  not _ := rfl
  not_error _ := rfl
  equals a _ ha := by
    cases a with
    | null => exact absurd rfl ha
    | _ => rfl

/-- The condition `make() != s` about two objects of one contents is true of identities and false of
values. -/
theorem Expr.nullSafe_make_ne :
    (Expr.binary .notEqual (.call "make" []) (.var "s")).nullSafe (· == "s") =
      .unary .not (.binary .or (.binary .equal (.call "make" []) (.var "s"))
        (.binary .and (.binary .notEqual (.var "s") .null)
          (.send (.var "s") "equals" [.call "make" []]))) ∧
    (Expr.binary .notEqual (.call "make" []) (.var "s")).value Item.interpretation
        ⟨fun _ => .ok (.object 5 7), fun _ => .ok .null, fun _ => false⟩ = .ok (.flag true) ∧
    ((Expr.binary .notEqual (.call "make" []) (.var "s")).nullSafe (· == "s")).value
        Item.interpretation
        ⟨fun _ => .ok (.object 5 7), fun _ => .ok .null, fun _ => false⟩ = .ok (.flag false) :=
  ⟨rfl, rfl, (Expr.nullSafe_comparesByValue Item.comparison_lawful Item.isReadBy_interpretation
    (· == "s") _ _ _).1.trans rfl⟩

end ContractTests
