import ContractTests.Json.Shape
import ContractTests.Json.Token

/-! # The tree of a JSON text

`Tree` is a text after its grammar and before its values: nothing is said yet about how deep it may
nest and about scalars without a value. `Tree.value?` is the value of the parts that a shape reads.
Those may nest `depthLimit` deep and need values; what is not read is dropped, whatever it is.
-/

set_option autoImplicit false

namespace ContractTests.Json

/-- The tree of a JSON text. -/
inductive Tree where
  /-- A scalar; without a value if it is a number beyond the doubles or a string with a surrogate that
  is not paired. -/
  | scalar (value : Option Json)
  | array (elements : List Tree)
  /-- An object; a member has no name if its name holds a surrogate that is not paired. -/
  | object (members : List (Option String × Tree))
deriving Repr, Inhabited

namespace Tree

/-! ## Grammar -/

/-- The name at the start of a member, and what follows its colon. -/
def memberName? : List Token → Option (Option String × List Token)
  | .string name :: .colon :: rest => some (some name, rest)
  | .unpaired :: .colon :: rest => some (none, rest)
  | _ => none

mutual

/-- The tree at the start of `tokens`; `fuel` bounds the number of steps, and twice the number of tokens
is enough. -/
def ofTokens? : Nat → List Token → Option (Tree × List Token)
  | 0, _ => none
  | fuel + 1, tokens =>
    match tokens with
    | .null :: rest => some (.scalar (some .null), rest)
    | .bool b :: rest => some (.scalar (some (.bool b)), rest)
    | .integer n :: rest => some (.scalar (some (.integer n)), rest)
    | .double x :: rest => some (.scalar (some (.double x)), rest)
    | .string s :: rest => some (.scalar (some (.string s)), rest)
    | .overflow :: rest => some (.scalar none, rest)
    | .unpaired :: rest => some (.scalar none, rest)
    | .leftBracket :: .rightBracket :: rest => some (.array [], rest)
    | .leftBracket :: rest => (elements? fuel rest).map fun (ts, rest) => (.array ts, rest)
    | .leftBrace :: .rightBrace :: rest => some (.object [], rest)
    | .leftBrace :: rest => (members? fuel rest).map fun (ms, rest) => (.object ms, rest)
    | _ => none

/-- One or more elements and the closing bracket. -/
def elements? : Nat → List Token → Option (List Tree × List Token)
  | 0, _ => none
  | fuel + 1, tokens =>
    match ofTokens? fuel tokens with
    | some (t, .rightBracket :: rest) => some ([t], rest)
    | some (t, .comma :: rest) => (elements? fuel rest).map fun (ts, rest) => (t :: ts, rest)
    | _ => none

/-- One or more members and the closing brace. -/
def members? : Nat → List Token → Option (List (Option String × Tree) × List Token)
  | 0, _ => none
  | fuel + 1, tokens => do
    let (name, rest) ← memberName? tokens
    match ofTokens? fuel rest with
    | some (t, .rightBrace :: rest) => some ([(name, t)], rest)
    | some (t, .comma :: rest) =>
      (members? fuel rest).map fun (ms, rest) => ((name, t) :: ms, rest)
    | _ => none

end

/-! ## Values -/

/-- The deepest nesting of arrays and objects of which a value is read. -/
def depthLimit : Nat := 127

mutual

/-- The value of the parts that a shape reads, nested at most `depth` deep. -/
def valueWithin? : Nat → Shape → Tree → Option Json
  | _, _, .scalar value => value
  | 0, _, .array _ => none
  | depth + 1, shape, .array elements => (elementsWithin? depth shape 0 elements).map .array
  | 0, _, .object _ => none
  | depth + 1, shape, .object members => (membersWithin? depth shape members).map .object

/-- The values of the elements from the position `i` on. -/
def elementsWithin? (depth : Nat) (shape : Shape) (i : Nat) : List Tree → Option (List Json)
  | [] => some []
  | t :: rest => do
    let j ← valueWithin? depth (shape.element i) t
    return j :: (← elementsWithin? depth shape (i + 1) rest)

/-- The values of the members that are read. Each member needs a name, read or not. -/
def membersWithin? (depth : Nat) (shape : Shape) :
    List (Option String × Tree) → Option (List (String × Json))
  | [] => some []
  | (none, _) :: _ => none
  | (some name, t) :: rest =>
    match shape.member? name with
    | none => membersWithin? depth shape rest
    | some inner => do
      let j ← valueWithin? depth inner t
      return (name, j) :: (← membersWithin? depth shape rest)

end

/-- The value of the parts that a shape reads. -/
def value? (shape : Shape) (t : Tree) : Option Json := t.valueWithin? depthLimit shape

end Tree

end ContractTests.Json
