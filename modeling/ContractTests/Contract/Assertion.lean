import ContractTests.Contract.Basic
import ContractTests.Expr.Unsupported

/-! # Conditions in a test

A precondition becomes an assumption before the call, a postcondition an assertion after it. In the
assertion a variable under post-state is read live, or from the variable that the call's result is
bound to, and a plain variable is read from its snapshot. An index access on a scalar parameter, which
stands for the parameter passed in a container, becomes the parameter itself.
-/

set_option autoImplicit false

namespace ContractTests

/-- Variables with the names of their snapshots. -/
abbrev Snapshots := List (String × String)

namespace Expr

/-- The base of an index access on a primitive parameter. -/
def scalarBase? (params : List Parameter) : Expr → Option Expr
  | .index base _ =>
    match base.mentioned? with
    | some name =>
      if params.any fun p => p.name == name && p.category == .primitive then some base else none
    | none => none
  | _ => none

/-! ## Assumptions -/

/-- What a node of a precondition becomes, unless it is its children that are looked at. -/
def assumptionStep (params : List Parameter) (e : Expr) : Option (Except Unsupported Expr) :=
  match (e.scalarBase? params).getD e with
  | .var name => some (.ok (.var name))
  | .postState _ => some (.error ⟨.postState, .precondition⟩)
  | e => if e.isWrapper then some (.error ⟨e.kind, .precondition⟩) else none

/-- The assumption for a precondition, which may not look at the state after the call. -/
def asAssumption (params : List Parameter) (pre : Expr) : Except Unsupported Expr :=
  pre.replaceM (assumptionStep params)

/-! ## Assertions -/

/-- What a node of a postcondition becomes, unless it is its children that are looked at. -/
def assertionStep (binding : Option String) (snapshots : Snapshots) (params : List Parameter)
    (e : Expr) : Option (Except Unsupported Expr) :=
  match (e.scalarBase? params).getD e with
  | .var name => some (.ok (.var ((snapshots.lookup name).getD name)))
  | .postState name => some (.ok (.var (binding.getD name)))
  | e => if e.isWrapper then some (.error ⟨e.kind, .postcondition⟩) else none

/-- The assertion for a postcondition. -/
def asAssertion (binding : Option String) (snapshots : Snapshots) (params : List Parameter)
    (post : Expr) : Except Unsupported Expr :=
  post.replaceM (assertionStep binding snapshots params)

/-! ## Equality of values -/

/-- The comparison by value of two operands, one of which may be null: `receiver` is the one that
`equals` is called on. -/
def valueEquality (left right receiver argument : Expr) : Expr :=
  .binary .or (.binary .equal left right)
    (.binary .and (.binary .notEqual receiver .null) (.send receiver "equals" [argument]))

/-- A variable that satisfies `isNullable`. -/
def isNullableVariable (isNullable : String → Bool) (e : Expr) : Bool := e.varName?.any isNullable

/-- An equality with a nullable variable as operand, compared by value. The left operand is the
receiver unless only the right one is nullable. -/
def valueEqualityStep (isNullable : String → Bool) : Expr → Expr
  | .binary op left right =>
    let compared? :=
      if left.isNullableVariable isNullable then some (valueEquality left right left right)
      else if right.isNullableVariable isNullable then some (valueEquality left right right left)
      else none
    match op, compared? with
    | .equal, some compared => compared
    | .notEqual, some compared => .unary .not compared
    | op, _ => .binary op left right
  | e => e

/-- The expression in which nullable variables are compared by value, null being equal to null
alone. -/
def nullSafe (isNullable : String → Bool) (e : Expr) : Expr :=
  e.rebuild (valueEqualityStep isNullable)

/-! ## Parameters in conditions -/

/-- The first of the names that is mentioned under post-state. -/
def observed? (names : List String) (e : Expr) : Option String :=
  names.find? e.postStates.contains

/-- The base of an index access, when it is a variable. -/
def indexedName? : Expr → Option String
  | .index base _ => base.mentioned?
  | _ => none

/-- Those of the names that are the base of an index access, in the order of first access. -/
def indexed (names : List String) (e : Expr) : List String :=
  ((e.subterms.filterMap indexedName?).filter names.contains).eraseDups

end Expr

end ContractTests
