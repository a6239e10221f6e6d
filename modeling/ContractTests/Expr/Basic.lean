import ContractTests.Decimal.Double

/-! # Conditions

The expressions that pre- and postconditions are made of. A call without a receiver and a call on a
receiver are different nodes, as are the three forms of collection literals. `Expr.children` lists
the direct children of a node in source order; `Expr.mapChildrenM` rebuilds a node around new ones.
-/

set_option autoImplicit false

namespace ContractTests

/-! ## Literals and operators -/

/-- A constant. -/
inductive Literal where
  | integer (n : Int64)
  | float (x : Double)
  | boolean (b : Bool)
  | string (s : String)
  | null
deriving DecidableEq, Repr

/-- Numeric equality on doubles, and identity on all else. -/
def Literal.same : Literal → Literal → Bool
  | .float x, .float y => x.same y
  | a, b => a == b

inductive BinaryOp where
  | plus
  | minus
  | times
  | divide
  | modulo
  | and
  | or
  | equal
  | notEqual
  | greater
  | greaterEqual
  | less
  | lessEqual
deriving DecidableEq, Repr

namespace BinaryOp

def all : List BinaryOp :=
  [.plus, .minus, .times, .divide, .modulo, .and, .or, .equal, .notEqual, .greater, .greaterEqual,
   .less, .lessEqual]

def symbol : BinaryOp → String
  | .plus => "+"
  | .minus => "-"
  | .times => "*"
  | .divide => "/"
  | .modulo => "%"
  | .and => "&&"
  | .or => "||"
  | .equal => "=="
  | .notEqual => "!="
  | .greater => ">"
  | .greaterEqual => ">="
  | .less => "<"
  | .lessEqual => "<="

/-- Whether the operator is `==` or `!=`. -/
def isEquality (op : BinaryOp) : Bool := op == .equal || op == .notEqual

/-- The operator of a symbol. -/
def ofSymbol? (s : String) : Option BinaryOp := all.find? (·.symbol == s)

end BinaryOp

inductive UnaryOp where
  | not
  | negate
  | plus
deriving DecidableEq, Repr

namespace UnaryOp

def all : List UnaryOp := [.not, .negate, .plus]

def symbol : UnaryOp → String
  | .not => "!"
  | .negate => "-"
  | .plus => "+"

/-- The operator of a symbol. -/
def ofSymbol? (s : String) : Option UnaryOp := all.find? (·.symbol == s)

end UnaryOp

/-! ## Expressions -/

/-- A condition, or a part of one. -/
inductive Expr where
  | literal (value : Literal)
  /-- A variable's current value. -/
  | var (name : String)
  /-- A variable's value after the call under test. -/
  | postState (name : String)
  | binary (op : BinaryOp) (left right : Expr)
  | unary (op : UnaryOp) (operand : Expr)
  | field (scope : Expr) (name : String)
  | index (base position : Expr)
  /-- A call without a receiver. -/
  | call (name : String) (args : List Expr)
  /-- A call on a receiver. -/
  | send (receiver : Expr) (name : String) (args : List Expr)
  /-- A new object. -/
  | create (type : String) (args : List Expr)
  | set (elements : List Expr)
  | map (entries : List (Expr × Expr))
  | tuple (elements : List Expr)
  | conditional (condition yes no : Expr)
  | cast (type : String) (operand : Expr)
  | self
deriving Repr, Inhabited

namespace Expr

def int (n : Int64) : Expr := .literal (.integer n)

def bool (b : Bool) : Expr := .literal (.boolean b)

def string (s : String) : Expr := .literal (.string s)

def null : Expr := .literal .null

/-- The operands joined by `op` from the left; nothing when there are none. -/
def joined? (op : BinaryOp) : List Expr → Option Expr
  | [] => none
  | e :: rest => some (rest.foldl (binary op) e)

/-- The conjunction of the clauses in order. -/
def conjunction? : List Expr → Option Expr := joined? .and

/-- The disjunction of the clauses in order. -/
def disjunction? : List Expr → Option Expr := joined? .or

/-! ## Kinds of nodes -/

/-- The kind of a node. -/
inductive Kind where
  | literal
  | var
  | postState
  | binary
  | unary
  | field
  | index
  | call
  | create
  | collection
  | conditional
  | cast
  | self
deriving DecidableEq, Repr

def Kind.all : List Kind :=
  [.literal, .var, .postState, .binary, .unary, .field, .index, .call, .create, .collection,
   .conditional, .cast, .self]

/-- The name of a kind, as messages and the exchange format write it. -/
def Kind.name : Kind → String
  | .literal => "literal"
  | .var => "variable"
  | .postState => "post_state"
  | .binary => "binary"
  | .unary => "unary"
  | .field => "field_access"
  | .index => "index"
  | .call => "method_call"
  | .create => "object_create"
  | .collection => "collection"
  | .conditional => "conditional"
  | .cast => "cast"
  | .self => "self_ref"

def kind : Expr → Kind
  | .literal _ => .literal
  | .var _ => .var
  | .postState _ => .postState
  | .binary .. => .binary
  | .unary .. => .unary
  | .field .. => .field
  | .index .. => .index
  | .call .. => .call
  | .send .. => .call
  | .create .. => .create
  | .set _ => .collection
  | .map _ => .collection
  | .tuple _ => .collection
  | .conditional .. => .conditional
  | .cast .. => .cast
  | .self => .self

/-- The name of a plain variable. -/
def varName? : Expr → Option String
  | .var name => some name
  | _ => none

/-- The name of a variable, plain or under post-state. -/
def mentioned? : Expr → Option String
  | .var name => some name
  | .postState name => some name
  | _ => none

/-- The name of a variable under post-state. -/
def postState? : Expr → Option String
  | .postState name => some name
  | _ => none

/-- A call, with or without a receiver. -/
def isCall : Expr → Bool
  | .call .. => true
  | .send .. => true
  | _ => false

/-- A call without a receiver. -/
def isBareCall : Expr → Bool
  | .call .. => true
  | _ => false

def isFloatLiteral : Expr → Bool
  | .literal (.float _) => true
  | _ => false

/-! ## Children -/

/-- The direct children in source order. -/
def children : Expr → List Expr
  | .literal _ => []
  | .var _ => []
  | .postState _ => []
  | .binary _ left right => [left, right]
  | .unary _ operand => [operand]
  | .field scope _ => [scope]
  | .index base position => [base, position]
  | .call _ args => args
  | .send receiver _ args => receiver :: args
  | .create _ args => args
  | .set elements => elements
  | .map entries => entries.flatMap fun entry => [entry.1, entry.2]
  | .tuple elements => elements
  | .conditional condition yes no => [condition, yes, no]
  | .cast _ operand => [operand]
  | .self => []

/-- The node with every child replaced by what `f` makes of it, from the first to the last. -/
def mapChildrenM {m : Type → Type} [Monad m] (f : Expr → m Expr) : Expr → m Expr
  | .literal value => pure (.literal value)
  | .var name => pure (.var name)
  | .postState name => pure (.postState name)
  | .binary op left right => do
    let left ← f left
    let right ← f right
    return .binary op left right
  | .unary op operand => return .unary op (← f operand)
  | .field scope name => return .field (← f scope) name
  | .index base position => do
    let base ← f base
    let position ← f position
    return .index base position
  | .call name args => return .call name (← args.mapM f)
  | .send receiver name args => do
    let receiver ← f receiver
    let args ← args.mapM f
    return .send receiver name args
  | .create type args => return .create type (← args.mapM f)
  | .set elements => return .set (← elements.mapM f)
  | .map entries => do
    let entries ← entries.mapM fun entry => do
      let key ← f entry.1
      let value ← f entry.2
      return (key, value)
    return .map entries
  | .tuple elements => return .tuple (← elements.mapM f)
  | .conditional condition yes no => do
    let condition ← f condition
    let yes ← f yes
    let no ← f no
    return .conditional condition yes no
  | .cast type operand => return .cast type (← f operand)
  | .self => pure .self

/-- The node with every child replaced by its image under `f`. -/
def mapChildren (f : Expr → Expr) (e : Expr) : Expr :=
  Id.run (e.mapChildrenM fun child => pure (f child))

/-! ## Sameness -/

mutual

/-- Whether two expressions are the same, floats being compared as numbers. -/
def same : Expr → Expr → Bool
  | .literal a, .literal b => a.same b
  | .var a, .var b => a == b
  | .postState a, .postState b => a == b
  | .binary op a b, .binary op' a' b' => op == op' && same a a' && same b b'
  | .unary op a, .unary op' a' => op == op' && same a a'
  | .field a name, .field a' name' => name == name' && same a a'
  | .index a b, .index a' b' => same a a' && same b b'
  | .call name args, .call name' args' => name == name' && sameAll args args'
  | .send a name args, .send a' name' args' => name == name' && same a a' && sameAll args args'
  | .create type args, .create type' args' => type == type' && sameAll args args'
  | .set es, .set es' => sameAll es es'
  | .map es, .map es' => sameEntries es es'
  | .tuple es, .tuple es' => sameAll es es'
  | .conditional a b c, .conditional a' b' c' => same a a' && same b b' && same c c'
  | .cast type a, .cast type' a' => type == type' && same a a'
  | .self, .self => true
  | _, _ => false

/-- Whether two lists of expressions are the same, element by element. -/
def sameAll : List Expr → List Expr → Bool
  | [], [] => true
  | a :: as, b :: bs => same a b && sameAll as bs
  | _, _ => false

/-- Whether two lists of entries are the same, entry by entry. -/
def sameEntries : List (Expr × Expr) → List (Expr × Expr) → Bool
  | [], [] => true
  | (a, b) :: es, (a', b') :: es' => same a a' && same b b' && sameEntries es es'
  | _, _ => false

end

end Expr

end ContractTests
