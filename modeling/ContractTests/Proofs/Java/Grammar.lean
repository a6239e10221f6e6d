import ContractTests.Proofs.Java.Token

/-! # Java's expression grammar

`Java.read` reads the text of an expression as Java does, with a function for each level of the
grammar: suffixes (a field, an index, a call) bind tighter than unary operators and casts, these
tighter than the binary operators with their precedences, and these tighter than the conditional
operator. Whether a parenthesis opens a cast is decided as in Java: a cast to a primitive type
stands before any operand, one to another type not before a sign.

The tree has no parentheses. Of the operators only those that conditions have are read, and there
are no lambdas, assignments and method references.
-/

set_option autoImplicit false

namespace ContractTests.Java

/-! ## Types -/

def primitiveTypes : List String :=
  ["boolean", "byte", "short", "int", "long", "char", "float", "double"]

/-- What stands before, when the tokens of a type are read. -/
inductive TypePlace where
  /-- Nothing, an angle bracket or a comma. -/
  | start
  /-- The bound of a wildcard. -/
  | bound
  | dot
  | name
  | arguments
  | primitive
  | bracket
  | array
  | wildcard
deriving DecidableEq, Repr

/-- The place in a type, and how many angle brackets are open there. -/
structure TypeState where
  place : TypePlace
  depth : Nat
deriving DecidableEq, Repr

namespace TypePlace

/-- Whether a reference type is complete here. -/
def isReference (p : TypePlace) : Bool := p == .name || p == .arguments || p == .array

/-- Whether the type of an object that can be made is complete here. -/
def isClass (p : TypePlace) : Bool := p == .name || p == .arguments

end TypePlace

/-- The place after one more token, if the token may stand there. -/
def TypeState.next? : TypeState → Token → Option TypeState
  | ⟨.start, depth⟩, .identifier _ => some ⟨.name, depth⟩
  | ⟨.bound, depth⟩, .identifier _ => some ⟨.name, depth⟩
  | ⟨.dot, depth⟩, .identifier _ => some ⟨.name, depth⟩
  | ⟨.start, depth⟩, .keyword word =>
    if primitiveTypes.contains word then some ⟨.primitive, depth⟩ else none
  | ⟨.bound, depth⟩, .keyword word =>
    if primitiveTypes.contains word then some ⟨.primitive, depth⟩ else none
  | ⟨.wildcard, depth⟩, .keyword word =>
    if word = "extends" ∨ word = "super" then some ⟨.bound, depth⟩ else none
  | ⟨.start, depth + 1⟩, .question => some ⟨.wildcard, depth + 1⟩
  | ⟨.name, depth⟩, .operator .less => some ⟨.start, depth + 1⟩
  | ⟨place, depth⟩, .dot => if place.isClass then some ⟨.dot, depth⟩ else none
  | ⟨place, depth⟩, .opening .square =>
    if place.isReference || place == .primitive then some ⟨.bracket, depth⟩ else none
  | ⟨.bracket, depth⟩, .closing .square => some ⟨.array, depth⟩
  | ⟨place, depth + 1⟩, .comma =>
    if place.isReference || place == .wildcard then some ⟨.start, depth + 1⟩ else none
  | ⟨place, depth + 1⟩, .operator .greater =>
    if place.isReference || place == .wildcard then some ⟨.arguments, depth⟩ else none
  | _, _ => none

/-- The place after all tokens of a type. -/
def typeEnd? (ts : List Token) : Option TypeState := ts.foldlM TypeState.next? ⟨.start, 0⟩

/-- Whether the tokens end at such a place outside all angle brackets. -/
def endsAt (p : TypePlace → Bool) (ts : List Token) : Bool :=
  (typeEnd? ts).any fun s => p s.place && s.depth == 0

def isPrimitive : List Token → Bool
  | [.keyword word] => primitiveTypes.contains word
  | _ => false

def isReferenceType (ts : List Token) : Bool := endsAt TypePlace.isReference ts

def isType (ts : List Token) : Bool := isPrimitive ts || isReferenceType ts

def isArrayType (ts : List Token) : Bool := endsAt (· == .array) ts

/-- The angle brackets that leave the type arguments to the compiler. -/
def diamond : List Token := [.operator .less, .operator .greater]

/-- Whether an object can be made of the class, which may have a diamond after its name. -/
def isCreatable (ts : List Token) : Bool :=
  endsAt TypePlace.isClass ts ||
    (endsAt (· == .name) (ts.take (ts.length - 2)) && ts.drop (ts.length - 2) == diamond)

/-! ## Trees -/

/-- An expression, as its operators bind. -/
inductive Tree where
  | literal (text : String)
  | name (name : String)
  | self
  | unary (op : UnaryOp) (operand : Tree)
  | binary (op : BinaryOp) (left right : Tree)
  | conditional (condition yes no : Tree)
  | cast (type : List Token) (operand : Tree)
  | field (scope : Tree) (name : String)
  | index (base position : Tree)
  | call (name : String) (args : List Tree)
  | send (receiver : Tree) (name : String) (args : List Tree)
  /-- A new object with its arguments, or a new array with its elements. -/
  | create (type : List Token) (args : List Tree)
deriving Repr, Inhabited

/-! ## Reading -/

/-- How tight a binary operator binds. -/
def precedence : BinaryOp → Nat
  | .or => 0
  | .and => 1
  | .equal => 2
  | .notEqual => 2
  | .greater => 3
  | .greaterEqual => 3
  | .less => 3
  | .lessEqual => 3
  | .plus => 4
  | .minus => 4
  | .times => 5
  | .divide => 5
  | .modulo => 5

/-- The tokens after the given one. -/
def skip? (t : Token) : List Token → Option (List Token)
  | [] => none
  | u :: rest => if u = t then some rest else none

/-- A unary operator with the tokens after it. -/
def sign? : List Token → Option (UnaryOp × List Token)
  | .not :: rest => some (.not, rest)
  | .operator .minus :: rest => some (.negate, rest)
  | .operator .plus :: rest => some (.plus, rest)
  | _ => none

/-- Whether an operand without a sign starts with the token. -/
def Token.opensOperand : Token → Bool
  | .identifier _ => true
  | .keyword word => word == "this" || word == "new"
  | .number _ => true
  | .literal _ => true
  | .not => true
  | .opening .round => true
  | _ => false

/-- The type of a cast with the tokens after it: a type in parentheses, and then an operand, which
has no sign if the type is not primitive. -/
def cast? (ts : List Token) : Option (List Token × List Token) := do
  let inside ← skip? (.opening .round) ts
  let type := inside.takeWhile (· != .closing .round)
  let rest ← skip? (.closing .round) (inside.dropWhile (· != .closing .round))
  if isPrimitive type || (isReferenceType type && rest.head?.any Token.opensOperand) then
    some (type, rest)
  else none

/-- The type after `new` with the bracket of its list and the tokens in and after the list: a class
before its arguments, an array type before its elements. -/
def created? (ts : List Token) : Option (List Token × Bracket × List Token) :=
  let type := ts.takeWhile fun t => t != .opening .round && t != .opening .curly
  match ts.drop type.length with
  | .opening .round :: rest => if isCreatable type then some (type, .round, rest) else none
  | .opening .curly :: rest => if isArrayType type then some (type, .curly, rest) else none
  | _ => none

mutual

/-- An expression, with the tokens after it. -/
def expression : Nat → List Token → Option (Tree × List Token)
  | 0, _ => none
  | n + 1, ts => do
    let (condition, rest) ← operations n 0 ts
    match skip? .question rest with
    | some rest =>
      let (yes, rest) ← expression n rest
      let rest ← skip? .colon rest
      let (no, rest) ← expression n rest
      return (.conditional condition yes no, rest)
    | none => return (condition, rest)

/-- Operands joined by operators of at least the given precedence. -/
def operations : Nat → Nat → List Token → Option (Tree × List Token)
  | 0, _, _ => none
  | n + 1, level, ts => do
    let (left, rest) ← unary n ts
    operationsFrom n level left rest

/-- The operators after the left operand, which bind from the left. -/
def operationsFrom : Nat → Nat → Tree → List Token → Option (Tree × List Token)
  | 0, _, _, _ => none
  | n + 1, level, left, .operator op :: rest =>
    if level ≤ precedence op then do
      let (right, rest) ← operations n (precedence op + 1) rest
      operationsFrom n level (.binary op left right) rest
    else some (left, .operator op :: rest)
  | _ + 1, _, left, rest => some (left, rest)

/-- An operand with its signs and casts. -/
def unary : Nat → List Token → Option (Tree × List Token)
  | 0, _ => none
  | n + 1, ts =>
    match sign? ts, cast? ts with
    | some (op, rest), _ => do
      let (operand, rest) ← unary n rest
      return (.unary op operand, rest)
    | none, some (type, rest) => do
      let (operand, rest) ← unary n rest
      return (.cast type operand, rest)
    | none, none => primary n ts

/-- An operand without signs and casts. -/
def primary : Nat → List Token → Option (Tree × List Token)
  | 0, _ => none
  | n + 1, .number text :: rest => suffixes n (.literal text) rest
  | n + 1, .literal text :: rest => suffixes n (.literal text) rest
  | n + 1, .identifier name :: rest =>
    match skip? (.opening .round) rest with
    | some rest => do
      let (args, rest) ← arguments n .round rest
      suffixes n (.call name args) rest
    | none => suffixes n (.name name) rest
  | n + 1, .keyword word :: rest =>
    if word = "this" then suffixes n .self rest
    else if word = "new" then do
      let (type, bracket, rest) ← created? rest
      let (args, rest) ← arguments n bracket rest
      suffixes n (.create type args) rest
    else none
  | n + 1, .opening .round :: rest => do
    let (inside, rest) ← expression n rest
    let rest ← skip? (.closing .round) rest
    suffixes n inside rest
  | _ + 1, _ => none

/-- The fields, calls and indices after an operand. -/
def suffixes : Nat → Tree → List Token → Option (Tree × List Token)
  | 0, _, _ => none
  | n + 1, scope, .dot :: .identifier name :: rest =>
    match skip? (.opening .round) rest with
    | some rest => do
      let (args, rest) ← arguments n .round rest
      suffixes n (.send scope name args) rest
    | none => suffixes n (.field scope name) rest
  | n + 1, scope, .opening .square :: rest => do
    let (position, rest) ← expression n rest
    let rest ← skip? (.closing .square) rest
    suffixes n (.index scope position) rest
  | _ + 1, scope, rest => some (scope, rest)

/-- A list up to its closing bracket. -/
def arguments : Nat → Bracket → List Token → Option (List Tree × List Token)
  | 0, _, _ => none
  | n + 1, bracket, ts =>
    match skip? (.closing bracket) ts with
    | some rest => some ([], rest)
    | none => elements n bracket ts

/-- The elements of a list that is not empty. -/
def elements : Nat → Bracket → List Token → Option (List Tree × List Token)
  | 0, _, _ => none
  | n + 1, bracket, ts => do
    let (first, rest) ← expression n ts
    match skip? .comma rest with
    | some rest =>
      let (others, rest) ← elements n bracket rest
      return (first :: others, rest)
    | none =>
      let rest ← skip? (.closing bracket) rest
      return ([first], rest)

end

/-- The expression that a text is. No more than four calls are made for each token. -/
def read (α : Alphabet) (text : String) : Option Tree := do
  let ts ← lex α text.toList
  match expression (4 * (ts.length + 1)) ts with
  | some (tree, []) => some tree
  | _ => none

end ContractTests.Java
