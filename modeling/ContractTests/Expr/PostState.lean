import ContractTests.Expr.Traversal
import ContractTests.Text.Affix

/-! # Post-state notations

A postcondition names the value of `x` after the call as `'(x)`, as `post(x)` or as `x_post`.
`Expr.normalForm` replaces each of these by the node `postState`, so that later passes look at one
form only. A wrapper call whose argument is not a variable cannot be replaced; it stays where it is,
and `Expr.isWrapper` recognises it.
-/

set_option autoImplicit false

namespace ContractTests.Expr

/-- Whether a call of `name` with `arity` arguments is a post-state wrapper: `'` always is, `post`
with one argument. -/
def isWrapperName (name : String) (arity : Nat) : Bool :=
  name == "'" || (name == "post" && arity == 1)

/-- A call of a post-state wrapper. -/
def isWrapper : Expr → Bool
  | .call name args => isWrapperName name args.length
  | _ => false

/-- The variable whose name ends in `_post`, without that ending. -/
def suffixed? (name : String) : Option String :=
  match Text.stripEnd? "_post".toList name.toList with
  | some (c :: cs) => some (String.ofList (c :: cs))
  | _ => none

/-- The variable that a node puts under post-state by one of the notations. -/
def marked? : Expr → Option String
  | .call name [.var v] => if isWrapperName name 1 then some v else none
  | .var name => suffixed? name
  | _ => none

/-- The expression with every post-state notation replaced by the node for it. -/
def normalForm (e : Expr) : Expr := e.replace fun e => e.marked?.map .postState

end ContractTests.Expr
