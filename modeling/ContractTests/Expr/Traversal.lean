import ContractTests.Expr.Basic

/-! # Walks over expressions

`Expr.subterms` lists all nodes in source order, parents first; what a condition mentions is read off
this list. `Expr.replaceM` replaces nodes from the top: where `step` answers, its answer stands and
the walk ends, and elsewhere it goes on in the children. `Expr.rebuild` replaces from the leaves up.
-/

set_option autoImplicit false

namespace ContractTests.Expr

/-! ## Subterms -/

mutual

/-- The node itself and then all nodes below it, in source order. -/
def subterms : Expr → List Expr
  | .literal value => [.literal value]
  | .var name => [.var name]
  | .postState name => [.postState name]
  | .binary op left right => .binary op left right :: (subterms left ++ subterms right)
  | .unary op operand => .unary op operand :: subterms operand
  | .field scope name => .field scope name :: subterms scope
  | .index base position => .index base position :: (subterms base ++ subterms position)
  | .call name args => .call name args :: subtermsAll args
  | .send receiver name args =>
    .send receiver name args :: (subterms receiver ++ subtermsAll args)
  | .create type args => .create type args :: subtermsAll args
  | .set elements => .set elements :: subtermsAll elements
  | .map entries => .map entries :: subtermsEntries entries
  | .tuple elements => .tuple elements :: subtermsAll elements
  | .conditional condition yes no =>
    .conditional condition yes no :: (subterms condition ++ (subterms yes ++ subterms no))
  | .cast type operand => .cast type operand :: subterms operand
  | .self => [.self]

/-- The subterms of the elements. -/
def subtermsAll : List Expr → List Expr
  | [] => []
  | e :: rest => subterms e ++ subtermsAll rest

/-- The subterms of the keys and values. -/
def subtermsEntries : List (Expr × Expr) → List Expr
  | [] => []
  | (key, value) :: rest => subterms key ++ (subterms value ++ subtermsEntries rest)

end

/-- The names of all variables, plain or under post-state, in the order of first occurrence. -/
def mentioned (e : Expr) : List String := (e.subterms.filterMap mentioned?).eraseDups

/-- The names of the variables under post-state, in the order of first occurrence. -/
def postStates (e : Expr) : List String := (e.subterms.filterMap postState?).eraseDups

/-- The calls, outermost first. -/
def calls (e : Expr) : List Expr := e.subterms.filter isCall

/-- Whether a floating literal occurs. -/
def hasFloatLiteral (e : Expr) : Bool := e.subterms.any isFloatLiteral

/-! ## Replacing from the top -/

section

variable {m : Type → Type} [Monad m]

mutual

/-- The expression in which the topmost nodes that `step` answers for are replaced. -/
def replaceM (step : Expr → Option (m Expr)) (e : Expr) : m Expr :=
  match step e with
  | some answer => answer
  | none =>
    match e with
    | .literal value => pure (.literal value)
    | .var name => pure (.var name)
    | .postState name => pure (.postState name)
    | .binary op left right => do
      let left ← replaceM step left
      let right ← replaceM step right
      return .binary op left right
    | .unary op operand => return .unary op (← replaceM step operand)
    | .field scope name => return .field (← replaceM step scope) name
    | .index base position => do
      let base ← replaceM step base
      let position ← replaceM step position
      return .index base position
    | .call name args => return .call name (← replaceAllM step args)
    | .send receiver name args => do
      let receiver ← replaceM step receiver
      let args ← replaceAllM step args
      return .send receiver name args
    | .create type args => return .create type (← replaceAllM step args)
    | .set elements => return .set (← replaceAllM step elements)
    | .map entries => return .map (← replaceEntriesM step entries)
    | .tuple elements => return .tuple (← replaceAllM step elements)
    | .conditional condition yes no => do
      let condition ← replaceM step condition
      let yes ← replaceM step yes
      let no ← replaceM step no
      return .conditional condition yes no
    | .cast type operand => return .cast type (← replaceM step operand)
    | .self => pure .self

/-- `replaceM` on every element. -/
def replaceAllM (step : Expr → Option (m Expr)) : List Expr → m (List Expr)
  | [] => pure []
  | e :: rest => do
    let e ← replaceM step e
    let rest ← replaceAllM step rest
    return e :: rest

/-- `replaceM` on every key and value. -/
def replaceEntriesM (step : Expr → Option (m Expr)) : List (Expr × Expr) → m (List (Expr × Expr))
  | [] => pure []
  | (key, value) :: rest => do
    let key ← replaceM step key
    let value ← replaceM step value
    let rest ← replaceEntriesM step rest
    return (key, value) :: rest

end

end

/-- Replacing from the top without failure. -/
def replace (step : Expr → Option Expr) (e : Expr) : Expr :=
  Id.run (e.replaceM fun e => (step e).map pure)

/-! ## Rebuilding from the leaves -/

mutual

/-- The expression in which every node is replaced by its image under `f`, children first. -/
def rebuild (f : Expr → Expr) : Expr → Expr
  | .literal value => f (.literal value)
  | .var name => f (.var name)
  | .postState name => f (.postState name)
  | .binary op left right => f (.binary op (rebuild f left) (rebuild f right))
  | .unary op operand => f (.unary op (rebuild f operand))
  | .field scope name => f (.field (rebuild f scope) name)
  | .index base position => f (.index (rebuild f base) (rebuild f position))
  | .call name args => f (.call name (rebuildAll f args))
  | .send receiver name args => f (.send (rebuild f receiver) name (rebuildAll f args))
  | .create type args => f (.create type (rebuildAll f args))
  | .set elements => f (.set (rebuildAll f elements))
  | .map entries => f (.map (rebuildEntries f entries))
  | .tuple elements => f (.tuple (rebuildAll f elements))
  | .conditional condition yes no =>
    f (.conditional (rebuild f condition) (rebuild f yes) (rebuild f no))
  | .cast type operand => f (.cast type (rebuild f operand))
  | .self => f .self

/-- `rebuild` on every element. -/
def rebuildAll (f : Expr → Expr) : List Expr → List Expr
  | [] => []
  | e :: rest => rebuild f e :: rebuildAll f rest

/-- `rebuild` on every key and value. -/
def rebuildEntries (f : Expr → Expr) : List (Expr × Expr) → List (Expr × Expr)
  | [] => []
  | (key, value) :: rest => (rebuild f key, rebuild f value) :: rebuildEntries f rest

end

end ContractTests.Expr
