import ContractTests.Contract.Assertion
import ContractTests.Decimal.Notation
import ContractTests.TestClass.Basic
import ContractTests.TestClass.Options
import ContractTests.Text.Fresh

/-! # The test method of a contract

`Contract.testMethod` lays out the test method for one function:

1. its inputs, and a one-element container for each primitive parameter that the function changes
   in place;
2. the precondition as an assumption;
3. a snapshot of every parameter that the postcondition mentions;
4. an early return when an input is null, with the assumptions that none is;
5. the call, and the containers' elements written back;
6. the postcondition as an assertion over the live variables and the snapshots.

A parameter under post-state reads the live variable, or the call's result when there is one.
-/

set_option autoImplicit false

namespace ContractTests

/-- Why no test could be built. -/
inductive BuildError where
  /-- A call for which there is no contract. -/
  | unmatched (name : String)
  /-- A precondition that looks at the state after the call. -/
  | postStateBefore (function name : String)
  /-- A condition that cannot be turned into an assumption or assertion. -/
  | condition (function : String) (cause : Unsupported)
deriving DecidableEq, Repr

def BuildError.message : BuildError → String
  | .unmatched name => "No spec for call sequence entry '" ++ name ++ "'"
  | .postStateBefore function name =>
    "Precondition of '" ++ function ++ "' refers to post-state of '" ++ name ++ "'"
  | .condition function cause =>
    "Failed to build helper for '" ++ function ++ "': " ++ cause.message

namespace Contract

/-! ## Parameters -/

/-- The category of the first parameter of that name. -/
def categoryOf? (c : Contract) (name : String) : Option TypeCategory :=
  (c.signature.parameter? name).map Parameter.category

/-- The parameters that may be null. -/
def nullable (c : Contract) : List Parameter := c.parameters.filter (·.category.isNullable)

/-- The primitive parameter whose value after the call is observed: the first parameter under
post-state, if it is primitive. -/
def observed? (c : Contract) : Option String :=
  (c.postcondition.bind (Expr.observed? c.signature.parameterNames)).filter
    (c.categoryOf? · == some .primitive)

/-- The parameters that a condition accesses by index. -/
def indexed (c : Contract) : List String :=
  [c.precondition, c.postcondition].flatMap fun condition? =>
    (condition?.map (Expr.indexed c.signature.parameterNames)).getD []

/-- Whether a parameter is passed in a container. -/
def isContained (c : Contract) (p : Parameter) : Bool :=
  p.category == .primitive &&
    (c.indexed.contains p.name || (c.signature.returnsVoid && c.observed? == some p.name))

/-- The names of the parameters passed in a container. -/
def contained (c : Contract) : List String :=
  ((c.parameters.filter c.isContained).map (·.name)).eraseDups

/-- The name of a parameter's container. -/
def containerName (name : String) : String := name ++ "Ref"

/-- The name of a parameter's snapshot. -/
def snapshotName (name : String) : String := name ++ "_old"

/-! ## Before the call -/

/-- The inputs, and then the containers. -/
def inputs (c : Contract) : List Stmt :=
  c.parameters.map (fun p => .input p.type p.name) ++
    (c.parameters.filter c.isContained).map fun p =>
      .declare (p.type ++ "[]") (containerName p.name)
        (.create (p.type ++ "[]") [.var p.name])

/-- The condition assumed before the call. -/
def assumption (c : Contract) : Except BuildError Expr :=
  match c.precondition with
  | none => .ok (.bool true)
  | some pre =>
    match pre.postStates with
    | name :: _ => .error (.postStateBefore c.name name)
    | [] => (pre.asAssumption c.parameters).mapError (.condition c.name)

/-- Names that look like variables and are none. -/
def reserved : List String := ["null", "this", "true", "false"]

/-- The parameters that the postcondition mentions, in the order of first mention. -/
def snapshotted (c : Contract) : List Parameter :=
  match c.postcondition with
  | none => []
  | some post =>
    (post.mentioned.filter (!reserved.contains ·)).filterMap c.signature.parameter?

/-- The snapshots by variable. -/
def snapshots (c : Contract) : Snapshots :=
  c.snapshotted.map fun p => (p.name, snapshotName p.name)

/-- The first value of a parameter's snapshot: a collection is copied, unless it is null. -/
def snapshotValue (p : Parameter) : Expr :=
  match p.category with
  | .collection =>
    .conditional (.binary .equal (.var p.name) .null) .null
      (.create (JavaType.implementation p.type ++ "<>") [.var p.name])
  | .primitive => .var p.name
  | .reference => .var p.name

/-- The declarations of the snapshots. -/
def snapshotDeclarations (c : Contract) : List Stmt :=
  c.snapshotted.map fun p => .declare p.type (snapshotName p.name) (snapshotValue p)

/-- A parameter compared with null. -/
def nullTest (op : BinaryOp) (p : Parameter) : Expr := .binary op (.var p.name) .null

/-- The early return on null inputs, and the assumptions that follow it. -/
def nullGuard (c : Contract) : List Stmt :=
  match Expr.disjunction? (c.nullable.map (nullTest .equal)) with
  | none => []
  | some anyNull =>
    .whenever anyNull [] true :: c.nullable.map fun p => .assume (nullTest .notEqual p)

/-- Whether the inputs have to be guarded against null. -/
def isGuarded (c : Contract) : Bool := !c.nullable.isEmpty

/-- The parameters whose values are printed: the primitive ones, the strings and the first
collection. -/
def echoed : Bool → List Parameter → List Parameter
  | _, [] => []
  | collectionSeen, p :: rest =>
    match p.category with
    | .primitive => p :: echoed collectionSeen rest
    | .collection => if collectionSeen then echoed true rest else p :: echoed true rest
    | .reference =>
      if p.type == "String" then p :: echoed collectionSeen rest else echoed collectionSeen rest

/-- The statement that prints the value of a parameter. -/
def echo (p : Parameter) : Stmt :=
  .perform (.send (.field (.var "System") "out") "println"
    [.binary .plus (.string ("Test Input: " ++ p.name ++ " = ")) (.var p.name)])

def echoes (c : Contract) (options : ClassOptions) : List Stmt :=
  if options.echoInputs then (echoed false c.parameters).map echo else []

/-! ## The call -/

/-- The call under test, with containers in the place of the parameters passed in them. -/
def testedCall (c : Contract) (options : ClassOptions) : Expr :=
  .send (.var options.targetClass) c.signature.name
    (c.parameters.map fun p =>
      .var (if c.contained.contains p.name then containerName p.name else p.name))

/-- The variable that receives the result: `result`, or the first of `result_1`, `result_2`, … that
is no parameter. -/
def resultName (c : Contract) : String :=
  Text.fresh c.signature.parameterNames fun n =>
    if n = 0 then "result" else "result_" ++ natText n

/-- The value that a result has before the call. -/
def defaultValue (type : String) : Expr :=
  let name := Text.trimmed type
  if name == "boolean" then .bool false
  else if name == "int" then .int 0
  else if name == "double" then .literal (.float .zero)
  else if ["long", "short", "byte", "char", "float"].contains name then .cast name (.int 0)
  else .null

/-- What the call does with its result: statements that have to precede the null guard's block,
statements of the block, and the variable that post-state reads, if it is not the parameter. -/
structure Invocation where
  before : List Stmt
  block : List Stmt
  binding : Option String

/-- The call and the place of its result. -/
def invocation (c : Contract) (options : ClassOptions) : Invocation :=
  let call := c.testedCall options
  let toResult : Invocation :=
    if c.signature.returnsVoid then ⟨[], [.perform call], none⟩
    else
      let type := c.signature.returnType
      if c.isGuarded then
        ⟨[.declare type c.resultName (defaultValue type)], [.assign c.resultName call],
          some c.resultName⟩
      else ⟨[], [.declare type c.resultName call], some c.resultName⟩
  match c.observed? with
  | none => toResult
  | some name =>
    if c.contained.contains name then ⟨[], [.perform call], some name⟩
    else if c.signature.returnsVoid then toResult
    else ⟨[], [.assign name call], some name⟩

/-- The containers' elements, assigned to the parameters. -/
def writeBacks (c : Contract) : List Stmt :=
  c.contained.map fun name => .assign name (.index (.var (containerName name)) (.int 0))

/-- The call with everything around it, inside the guard against null if there is one. -/
def callStatements (c : Contract) (options : ClassOptions) : List Stmt :=
  let invocation := c.invocation options
  let block := invocation.block ++ c.writeBacks
  invocation.before ++
    match Expr.conjunction? (c.nullable.map (nullTest .notEqual)) with
    | some allPresent => [.whenever allPresent block false]
    | none => block

/-! ## After the call -/

/-- Whether a variable of the assertion may be null: a nullable parameter, its snapshot, or the
result of a type that may be null. -/
def mayBeNull (c : Contract) (binding : Option String) (name : String) : Bool :=
  (c.nullable.any fun p => p.name == name || c.snapshots.lookup p.name == some name) ||
    (binding == some name && (c.categoryOf? name).isNone && !c.signature.returnsVoid &&
      (JavaType.category c.signature.returnType).isNullable)

/-- The assertion after the call. -/
def assertion (c : Contract) (binding : Option String) : Except BuildError (List Stmt) :=
  match c.postcondition with
  | none => .ok []
  | some post =>
    match post.asAssertion binding c.snapshots c.parameters with
    | .ok condition => .ok [.assert (condition.nullSafe (c.mayBeNull binding))]
    | .error cause => .error (.condition c.name cause)

/-- The test method of the contract. -/
def testMethod (options : ClassOptions) (c : Contract) : Except BuildError TestMethod := do
  let assumption ← c.assumption
  let assertion ← c.assertion (c.invocation options).binding
  return {
    name := TestMethod.nameFor c.name
    body := c.inputs ++ [.assume assumption] ++ c.snapshotDeclarations ++ c.nullGuard ++
      c.echoes options ++ c.callStatements options ++ assertion }

end Contract

end ContractTests
