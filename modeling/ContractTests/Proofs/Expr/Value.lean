import ContractTests.Proofs.Expr.Traversal

/-! # The value of an expression

`Expr.value I r e` is the value of `e` when its nodes are read by the interpretation `I` and its
variables by `r`. Nothing is assumed of `I` but that it is compositional: the value of a node
depends on the values of its children alone. Values may be anything, so that an interpretation may
be lazy in a child or fail.

A reading has two moments: `plain` is what a variable holds, `live` what it holds under post-state.
A variable that `isScalar` stands for its own element, so that the index of an access is not looked
at. `value_eq_of_parallel` compares the values of two nodes around children of equal values.
-/

set_option autoImplicit false

universe u

namespace ContractTests

/-- What the nodes of an expression mean, given the meanings of their children. -/
structure Interpretation (α : Type u) where
  literal : Literal → α
  binary : BinaryOp → α → α → α
  unary : UnaryOp → α → α
  field : α → String → α
  index : α → α → α
  call : String → List α → α
  send : α → String → List α → α
  create : String → List α → α
  set : List α → α
  map : List (α × α) → α
  tuple : List α → α
  conditional : α → α → α → α
  cast : String → α → α
  self : α

/-- What the variables of an expression mean. -/
structure Reading (α : Type u) where
  plain : String → α
  live : String → α
  /-- The variables whose element is the variable itself. -/
  isScalar : String → Bool

/-- The reading of an expression in one store. -/
def Reading.ofStore {α : Type u} (store : String → α) : Reading α := ⟨store, store, fun _ => false⟩

namespace Expr

variable {α : Type u}

/-- Whether the element of this base is the base itself. -/
def isScalarBase (isScalar : String → Bool) (base : Expr) : Bool := base.mentioned?.any isScalar

mutual

/-- The value of an expression. -/
def value (I : Interpretation α) (r : Reading α) : Expr → α
  | .literal value => I.literal value
  | .var name => r.plain name
  | .postState name => r.live name
  | .binary op left right => I.binary op (value I r left) (value I r right)
  | .unary op operand => I.unary op (value I r operand)
  | .field scope name => I.field (value I r scope) name
  | .index base position =>
    if base.isScalarBase r.isScalar then value I r base
    else I.index (value I r base) (value I r position)
  | .call name args => I.call name (valueAll I r args)
  | .send receiver name args => I.send (value I r receiver) name (valueAll I r args)
  | .create type args => I.create type (valueAll I r args)
  | .set elements => I.set (valueAll I r elements)
  | .map entries => I.map (valueEntries I r entries)
  | .tuple elements => I.tuple (valueAll I r elements)
  | .conditional condition yes no =>
    I.conditional (value I r condition) (value I r yes) (value I r no)
  | .cast type operand => I.cast type (value I r operand)
  | .self => I.self

/-- The values of the elements. -/
def valueAll (I : Interpretation α) (r : Reading α) : List Expr → List α
  | [] => []
  | e :: rest => value I r e :: valueAll I r rest

/-- The values of the keys and values. -/
def valueEntries (I : Interpretation α) (r : Reading α) : List (Expr × Expr) → List (α × α)
  | [] => []
  | (key, val) :: rest => (value I r key, value I r val) :: valueEntries I r rest

end

variable {I : Interpretation α} {r r' : Reading α}

@[simp] theorem valueAll_eq (es : List Expr) : valueAll I r es = es.map (value I r) := by
  induction es with
  | nil => rfl
  | cons e es ih => rw [valueAll, ih, List.map_cons]

@[simp] theorem valueEntries_eq (es : List (Expr × Expr)) :
    valueEntries I r es = es.map fun p => (p.1.value I r, p.2.value I r) := by
  induction es with
  | nil => rfl
  | cons p es ih => obtain ⟨key, val⟩ := p; rw [valueEntries, ih, List.map_cons]

theorem isScalarBase_eq_false {isScalar : String → Bool} (h : ∀ name, isScalar name = false)
    (base : Expr) : base.isScalarBase isScalar = false := by
  rw [isScalarBase]
  cases base.mentioned? with
  | none => rfl
  | some name => exact h name

/-- A node has the value of the same node around children of the same values, when its variable is
read alike and no index is dropped on either side. -/
theorem value_eq_of_parallel {e e' : Expr}
    (h : Parallel (fun c c' => c'.value I r' = c.value I r) e e')
    (hplain : ∀ name, e = .var name → r'.plain name = r.plain name)
    (hlive : ∀ name, e = .postState name → r'.live name = r.live name)
    (hindex : ∀ base position, e = .index base position → base.isScalarBase r.isScalar = false)
    (hscalar : ∀ name, r'.isScalar name = false) : e'.value I r' = e.value I r := by
  have hdrop := isScalarBase_eq_false hscalar
  cases h with
  | var name => exact hplain name rfl
  | postState name => exact hlive name rfl
  | index ha hb => simp only [value, hdrop, hindex _ _ rfl, Bool.false_eq_true, if_false, ha, hb]
  | map hes =>
    simp only [value, valueEntries_eq]
    exact congrArg I.map (map_eq_map_of_forall₂ (hes.imp fun p q hpq => by rw [hpq.1, hpq.2]))
  | call name hes => simp only [value, valueAll_eq, map_eq_map_of_forall₂ hes]
  | send ha name hes => simp only [value, valueAll_eq, ha, map_eq_map_of_forall₂ hes]
  | create type hes => simp only [value, valueAll_eq, map_eq_map_of_forall₂ hes]
  | set hes => simp only [value, valueAll_eq, map_eq_map_of_forall₂ hes]
  | tuple hes => simp only [value, valueAll_eq, map_eq_map_of_forall₂ hes]
  | _ => simp_all only [value]

end Expr

/-- What the variables of an expression hold, in source order. -/
def Interpretation.reads (β : Type u) : Interpretation (List β) where
  literal _ := []
  binary _ left right := left ++ right
  unary _ operand := operand
  field scope _ := scope
  index base position := base ++ position
  call _ args := args.flatten
  send receiver _ args := receiver ++ args.flatten
  create _ args := args.flatten
  set elements := elements.flatten
  map entries := entries.flatMap fun p => p.1 ++ p.2
  tuple elements := elements.flatten
  conditional condition yes no := condition ++ yes ++ no
  cast _ operand := operand
  self := []

end ContractTests
