import ContractTests.Java.Expression
import ContractTests.Stmt
import ContractTests.Text.Fresh

/-! # Sharing of repeated calls

A call that occurs twice or more in an assertion is evaluated once: it is declared as a variable right
before the assertion, and the variable stands in its place. Occurrences are compared by structure.
A call with a floating literal in it, which need not be the same as itself, is also compared by its
text.
-/

set_option autoImplicit false

namespace ContractTests

namespace Expr

/-- How the occurrences of a call are recognised. -/
inductive Occurrence where
  | structural (e : Expr)
  | textual (text : String)

/-- Whether the node is an occurrence. -/
def Occurrence.isAt : Occurrence → Expr → Bool
  | .structural shared, e => e.same shared
  | .textual text, e =>
    e.isCall &&
      match e.render with
      | .ok rendered => rendered == text
      | .error _ => false

/-- Whether the occurrence is found twice or more. -/
def Occurrence.isRepeated (o : Occurrence) (condition : Expr) : Bool :=
  2 ≤ condition.subterms.countP o.isAt

/-- The first of the calls that is repeated in the condition. -/
def repeatedAmong (condition : Expr) :
    List Expr → Except Unsupported (Option (Expr × Occurrence))
  | [] => .ok none
  | e :: rest =>
    if (Occurrence.structural e).isRepeated condition then .ok (some (e, .structural e))
    else if e.hasFloatLiteral then do
      let text ← e.render
      if (Occurrence.textual text).isRepeated condition then return some (e, .textual text)
      else repeatedAmong condition rest
    else repeatedAmong condition rest

/-- The first call, outermost first, that is repeated in the condition. -/
def repeatedCall (condition : Expr) : Except Unsupported (Option (Expr × Occurrence)) :=
  repeatedAmong condition condition.calls

/-- The expression with a variable in the place of every occurrence. -/
def Occurrence.named (o : Occurrence) (name : String) (e : Expr) : Expr :=
  e.replace fun e => if o.isAt e then some (.var name) else none

/-- The name of a call. -/
def callName? : Expr → Option String
  | .call name _ => some name
  | .send _ name _ => some name
  | _ => none

/-- The variable for a call: its name followed by `_result`, with the first number from 2 on that
makes it differ from the names taken. -/
def resultVariable (taken : List String) (e : Expr) : String :=
  let base := e.callName?.getD "call" ++ "_result"
  Text.fresh taken fun n => if n = 0 then base else base ++ "_" ++ natText (n + 1)

/-- A condition with the declarations that precede it, and all names taken. -/
structure Shared where
  declarations : List Stmt
  condition : Expr
  taken : List String

/-- At most `rounds` rounds of sharing. -/
def shareWithin : Nat → Expr → List String → Except Unsupported Shared
  | 0, condition, taken => .ok ⟨[], condition, taken⟩
  | rounds + 1, condition, taken => do
    match ← condition.repeatedCall with
    | none => return ⟨[], condition, taken⟩
    | some (e, occurrence) =>
      let name := resultVariable taken e
      let shared ← shareWithin rounds (occurrence.named name condition) (taken ++ [name])
      return { shared with declarations := .declare "var" name e :: shared.declarations }

/-- The condition without repeated calls. Every round leaves fewer calls, so that there are no more
rounds than calls. -/
def share (condition : Expr) (taken : List String) : Except Unsupported Shared :=
  shareWithin condition.calls.length condition taken

end Expr

namespace Stmt

mutual

/-- The statement with its assertions shared, and all names taken. -/
def share (taken : List String) : Stmt → Except Unsupported (List Stmt × List String)
  | .assert condition => do
    let shared ← condition.share taken
    return (shared.declarations ++ [.assert shared.condition], shared.taken)
  | .whenever condition body returns => do
    let (body, taken) ← shareAll taken body
    return ([.whenever condition body returns], taken)
  | .input type name => .ok ([.input type name], taken)
  | .declare type name init => .ok ([.declare type name init], taken)
  | .assign target value => .ok ([.assign target value], taken)
  | .assume condition => .ok ([.assume condition], taken)
  | .perform call => .ok ([.perform call], taken)

/-- The statements of a block with their assertions shared. -/
def shareAll (taken : List String) : List Stmt → Except Unsupported (List Stmt × List String)
  | [] => .ok ([], taken)
  | s :: rest => do
    let (shared, taken) ← share taken s
    let (sharedRest, taken) ← shareAll taken rest
    return (shared ++ sharedRest, taken)

end

/-- The names that the statements declare, at any depth. -/
def declared (body : List Stmt) : List String := (nestedAll body).filterMap declared?

/-- The statements without repeated calls in assertions. The variables for calls differ from every
name that the statements declare. -/
def shareCalls (body : List Stmt) : Except Unsupported (List Stmt) := do
  let (shared, _) ← shareAll (declared body) body
  return shared

end Stmt

end ContractTests
