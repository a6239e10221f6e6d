import ContractTests.Decimal.Notation
import ContractTests.Expr.PostState
import ContractTests.Expr.Unsupported
import ContractTests.JavaType
import ContractTests.Text.Quoted

/-! # Expressions in Java

`Expr.render` writes an expression as Java source. Binary, conditional and cast expressions always
have parentheses around them, so that precedence never decides; an operand of a unary operator and a
receiver get them where a sign or another unary operator would bind differently. Post-state has no form
in Java.
-/

set_option autoImplicit false

namespace ContractTests

/-! ## Literals -/

/-- The text of a literal as it is shown to a person. -/
def Literal.display : Literal → String
  | .integer n => intText n.toInt
  | .float x =>
    if x.isNaN then "NaN"
    else if x.isInfinite then if x.isNegative then "-inf" else "inf"
    else x.plain
  | .boolean b => if b then "true" else "false"
  | .string s => Text.displayed s
  | .null => "null"

/-- The text of a literal in Java. An integer beyond 32 bits is a `long`. -/
def Literal.java : Literal → String
  | .integer n =>
    if -Nat.pow 2 31 ≤ n.toInt ∧ n.toInt < Nat.pow 2 31 then intText n.toInt else intText n.toInt ++ "L"
  | .float x =>
    if x.isNaN then "Double.NaN"
    else if x.isInfinite then
      if x.isNegative then "Double.NEGATIVE_INFINITY" else "Double.POSITIVE_INFINITY"
    else x.plain
  | .boolean b => if b then "true" else "false"
  | .string s => Text.javaLiteral s
  | .null => "null"

namespace Java

/-- The texts of a list of arguments. -/
def commaSeparated (texts : List String) : String := String.intercalate ", " texts

/-! ## Objects and collections -/

/-- Whether a type name is that of a collection interface, which another class implements. -/
def isInterface (type : String) : Bool :=
  JavaType.category type == .collection && JavaType.implementation type != JavaType.base type

/-- A new object of a type. An array is written with its elements, a collection interface by a class
that implements it, made from a literal of its contents. -/
def newObject (type : String) (args : List String) : String :=
  match Text.stripEnd? ['[', ']'] type.toList with
  | some element =>
    "new " ++ String.ofList element ++ "[]\x7b" ++ commaSeparated args ++ "\x7d"
  | none =>
    if !isInterface type then "new " ++ type ++ "(" ++ commaSeparated args ++ ")"
    else
      let implementation := JavaType.implementation type
      let target := implementation ++ (JavaType.genericArguments? type).getD "<>"
      if args.isEmpty then "new " ++ target ++ "()"
      else if implementation == "HashMap" then
        "new " ++ target ++ "(Map.of(" ++ commaSeparated args ++ "))"
      else "new " ++ target ++ "(Arrays.asList(" ++ commaSeparated args ++ "))"

/-- The greatest number of entries that `Map.of` takes. -/
def mapOfLimit : Nat := 10

def newSet (elements : List String) : String :=
  if elements.isEmpty then "new HashSet<>()"
  else "new HashSet<>(Arrays.asList(" ++ commaSeparated elements ++ "))"

def newMap (entries : List (String × String)) : String :=
  let pairs := entries.map fun entry => entry.1 ++ ", " ++ entry.2
  if entries.isEmpty then "new HashMap<>()"
  else if entries.length ≤ mapOfLimit then "Map.of(" ++ commaSeparated pairs ++ ")"
  else
    "Map.ofEntries(" ++ commaSeparated (pairs.map fun pair => "Map.entry(" ++ pair ++ ")") ++ ")"

def newTuple (elements : List String) : String :=
  "Arrays.asList(" ++ commaSeparated elements ++ ")"

end Java

namespace Expr

/-! ## Parentheses -/

/-- Whether the operand of a unary operator needs parentheses: it starts with a sign or operator. -/
def needsParens : Expr → Bool
  | .unary .. => true
  | .literal (.integer n) => n < 0
  | .literal (.float x) => x.isNegative
  | _ => false

def isUnary : Expr → Bool
  | .unary .. => true
  | _ => false

/-- The text, in parentheses if `p`. -/
def parenthesized (p : Bool) (text : String) : String := if p then "(" ++ text ++ ")" else text

/-! ## Rendering -/

mutual

/-- The Java text of an expression. -/
def render : Expr → Except Unsupported String
  | .literal value => .ok value.java
  | .var name => .ok name
  | .postState _ => .error ⟨.postState, .rendering⟩
  | .binary op left right => do
    let leftText ← render left
    let rightText ← render right
    return "(" ++ leftText ++ " " ++ op.symbol ++ " " ++ rightText ++ ")"
  | .unary op operand => do
    let text ← render operand
    return op.symbol ++ parenthesized operand.needsParens text
  | .field scope name => do
    let text ← render scope
    return parenthesized scope.isUnary text ++ "." ++ name
  | .index base position => do
    let baseText ← render base
    let positionText ← render position
    return parenthesized base.isUnary baseText ++ "[" ++ positionText ++ "]"
  | .call name args =>
    if isWrapperName name args.length then .error ⟨.call, .rendering⟩
    else do
      let texts ← renderAll args
      return name ++ "(" ++ Java.commaSeparated texts ++ ")"
  | .send receiver name args => do
    let texts ← renderAll args
    let text ← render receiver
    return parenthesized receiver.isUnary text ++ "." ++ name ++
      "(" ++ Java.commaSeparated texts ++ ")"
  | .create type args => do
    let texts ← renderAll args
    return Java.newObject type texts
  | .set elements => do
    let texts ← renderAll elements
    return Java.newSet texts
  | .map entries => do
    let texts ← renderEntries entries
    return Java.newMap texts
  | .tuple elements => do
    let texts ← renderAll elements
    return Java.newTuple texts
  | .conditional condition yes no => do
    let conditionText ← render condition
    let yesText ← render yes
    let noText ← render no
    return "(" ++ conditionText ++ " ? " ++ yesText ++ " : " ++ noText ++ ")"
  | .cast type operand => do
    let text ← render operand
    return "((" ++ type ++ ") " ++ text ++ ")"
  | .self => .ok "this"

/-- The texts of the elements. -/
def renderAll : List Expr → Except Unsupported (List String)
  | [] => .ok []
  | e :: rest => do
    let text ← render e
    let texts ← renderAll rest
    return text :: texts

/-- The texts of the keys and values. -/
def renderEntries : List (Expr × Expr) → Except Unsupported (List (String × String))
  | [] => .ok []
  | (key, value) :: rest => do
    let keyText ← render key
    let valueText ← render value
    let texts ← renderEntries rest
    return (keyText, valueText) :: texts

end

/-- The text of a condition inside the parentheses of an `if`: without a pair of its own. -/
def renderBare : Expr → Except Unsupported String
  | .binary op left right => do
    let leftText ← render left
    let rightText ← render right
    return leftText ++ " " ++ op.symbol ++ " " ++ rightText
  | e => render e

end Expr

end ContractTests
