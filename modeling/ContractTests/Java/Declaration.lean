import ContractTests.Java.Lexical
import ContractTests.Text.Affix

/-! # Method declarations in Java source

`Java.signatureOf` looks for the declaration of a method in source text and gives the method's name with
the types of its parameters. A name followed by a parenthesised list is a declaration when a type
precedes it and a body or a `throws` clause follows the list. Without a declaration the method is
taken to have no parameters.
-/

set_option autoImplicit false

namespace ContractTests.Java

open Text

/-! ## Failures -/

/-- What is wrong with a parameter list. -/
inductive ListFault where
  | unterminatedList
  | strayParenthesis
  | strayAngle
  | openLiteral
  | openParenthesis
  | openAngle
deriving DecidableEq, Repr

def ListFault.reason : ListFault → String
  | .unterminatedList => "unterminated parameter list"
  | .strayParenthesis => "unbalanced ')'"
  | .strayAngle => "unbalanced '>'"
  | .openLiteral => "unterminated literal"
  | .openParenthesis => "unbalanced '('"
  | .openAngle => "unbalanced '<'"

/-- A declaration whose parameter list cannot be read. -/
structure SignatureError where
  method : String
  fault : ListFault
  header : String
deriving DecidableEq, Repr

def SignatureError.message (e : SignatureError) : String :=
  "Cannot parse signature of '" ++ e.method ++ "': " ++ e.fault.reason ++ " in '" ++ e.header ++ "'"

/-! ## Finding the declaration -/

/-- Words that precede a call and not a declaration. -/
def callWords : List String := ["new", "return", "throw", "else"]

/-- Whether a name and its list are a declaration, from the reversed text before the name and the
text after the list. -/
def isDeclaration (before after : List Char) : Bool :=
  let before := trimStart before
  let lastWord := (before.takeWhile isIdentifierChar).reverse
  let afterType := before.head?.any fun c => isIdentifierChar c || c == '>' || c == ']'
  let after := trimStart after
  !callWords.contains (String.ofList lastWord) && afterType &&
    (after.head? == some '\x7b' || "throws".toList.isPrefixOf after)

/-- The text up to the first line break. -/
def firstLine (cs : List Char) : List Char :=
  let line := cs.takeWhile (· != '\n')
  if line.length < cs.length then (stripEnd? ['\r'] line).getD line else line

/-- The parameter list of the declaration of `method`. The text is given from some place on, together
with the reversed text before that place; the next `skip` characters belong to a name already
looked at. -/
def parameterList? (method : List Char) (before : List Char) (skip : Nat) :
    List Char → Except SignatureError (Option (List Char))
  | [] => .ok none
  | c :: rest =>
    match skip with
    | skip + 1 => parameterList? method (c :: before) skip rest
    | 0 =>
      if method.isPrefixOf (c :: rest) then
        let isName := before.head?.all fun c => !isIdentifierChar c && c != '.'
        match isName, trimStart ((c :: rest).drop method.length) with
        | true, '(' :: list =>
          match argumentList? 0 .code list with
          | none =>
            .error
              ⟨String.ofList method, .unterminatedList, String.ofList (firstLine (c :: rest))⟩
          | some (parameters, after) =>
            if isDeclaration before after then .ok (some parameters)
            else parameterList? method (c :: before) (method.length - 1) rest
        | _, _ => parameterList? method (c :: before) (method.length - 1) rest
      else parameterList? method (c :: before) 0 rest

/-! ## Splitting the parameter list -/

/-- The pieces between the commas that stand outside literals, parentheses and angle brackets. Angle
brackets inside parentheses are comparisons and do not count. -/
def pieces (angle paren : Nat) (state : Lexical) :
    List Char → Except ListFault (List (List Char))
  | [] =>
    if state != .code then .error .openLiteral
    else if paren != 0 then .error .openParenthesis
    else if angle != 0 then .error .openAngle
    else .ok [[]]
  | c :: rest =>
    let after (angle paren : Nat) : Except ListFault (List (List Char)) :=
      match pieces angle paren (state.next c) rest with
      | .error fault => .error fault
      | .ok [] => .ok [[c]]
      | .ok (piece :: others) => .ok ((c :: piece) :: others)
    if state.covers c then after angle paren
    else if c == '(' then after angle (paren + 1)
    else if c == ')' then if paren == 0 then .error .strayParenthesis else after angle (paren - 1)
    else if c == '<' && paren == 0 then after (angle + 1) paren
    else if c == '>' && paren == 0 then
      if angle == 0 then .error .strayAngle else after (angle - 1) paren
    else if c == ',' && angle == 0 && paren == 0 then
      match pieces angle paren (state.next c) rest with
      | .error fault => .error fault
      | .ok others => .ok ([] :: others)
    else after angle paren

/-- The parameters of a list, without white space around them; a blank list has none. -/
def parameterTexts (list : List Char) : Except ListFault (List (List Char)) :=
  match pieces 0 0 .code list with
  | .error fault => .error fault
  | .ok [piece] => .ok (if (trim piece).isEmpty then [] else [trim piece])
  | .ok pieces => .ok (pieces.map trim)

/-- The parameters of the list of `method`. -/
def splitParameters (list method : String) : Except SignatureError (List String) :=
  match parameterTexts list.toList with
  | .error fault => .error ⟨method, fault, list⟩
  | .ok texts => .ok (texts.map String.ofList)

/-! ## The type of a parameter -/

/-- What is left of a parameter after a modifier was taken off, and whether there may be more. -/
inductive Stripped where
  | more (rest : List Char)
  | done (rest : List Char)
deriving DecidableEq, Repr

/-- Take off one annotation or one `final`. An annotation whose argument list is not closed leaves
what follows its name. -/
def stripModifier (cs : List Char) : Stripped :=
  match trimStart cs with
  | '@' :: named =>
    let rest := named.dropWhile fun c => isIdentifierChar c || c == '.'
    match trimStart rest with
    | '(' :: list =>
      match argumentList? 0 .code list with
      | some (_, after) => .more after
      | none => .done rest
    | _ => .more rest
  | bare =>
    match stripStart? "final".toList bare with
    | some (c :: rest) => if isBlank c then .more (c :: rest) else .done bare
    | _ => .done bare

theorem trimStart_length_le (cs : List Char) : (trimStart cs).length ≤ cs.length :=
  (List.dropWhile_sublist isBlank).length_le

theorem stripModifier_length {cs rest : List Char} (h : stripModifier cs = .more rest) :
    rest.length < cs.length := by
  have hle := trimStart_length_le cs
  unfold stripModifier at h
  split at h
  · rename_i named hcs
    rw [hcs, List.length_cons] at hle
    have hdrop : (named.dropWhile fun c => isIdentifierChar c || c == '.').length ≤ named.length :=
      (List.dropWhile_sublist _).length_le
    dsimp only at h
    split at h
    · rename_i list hlist
      have htrim := trimStart_length_le (named.dropWhile fun c => isIdentifierChar c || c == '.')
      rw [hlist, List.length_cons] at htrim
      split at h
      · rename_i inside after hlist'
        cases h
        have := argumentList?_length hlist'
        omega
      · cases h
    · cases h
      omega
  · split at h
    · rename_i c rest' hstrip
      split at h
      · cases h
        unfold stripStart? at hstrip
        split at hstrip
        · injection hstrip with hstrip
          have := congrArg List.length hstrip
          simp only [List.length_drop, List.length_cons] at this
          have hfinal : "final".toList.length = 5 := by decide
          simp only [List.length_cons]
          omega
        · cases hstrip
      · cases h
    · cases h

/-- The parameter without its modifiers. -/
def stripModifiers (cs : List Char) : List Char :=
  match _h : stripModifier cs with
  | .more rest => stripModifiers rest
  | .done rest => rest
termination_by cs.length
decreasing_by exact stripModifier_length _h

/-- The text before and from the last white space outside angle brackets. -/
def splitLast? (angle : Int) : List Char → Option (List Char × List Char)
  | [] => none
  | c :: rest =>
    let angle' := if c == '<' then angle + 1 else if c == '>' then angle - 1 else angle
    match splitLast? angle' rest with
    | some (before, after) => some (c :: before, after)
    | none => if isBlank c && angle == 0 then some ([], c :: rest) else none

/-- A text without the white space that precedes square brackets. -/
def closeBrackets : List Char → List Char
  | [] => []
  | c :: rest =>
    if isBlank c && (trimStart rest).head? == some '[' then closeBrackets rest
    else c :: closeBrackets rest

/-- The type as search documents spell it: strings and arrays of strings with their package. -/
def qualifiedString (type : List Char) : List Char :=
  match stripStart? "String".toList type with
  | some dims =>
    if dims.all fun c => c == '[' || c == ']' then "java.lang.String".toList ++ dims else type
  | none => type

/-- The type of a parameter: what precedes its name. -/
def parameterType (parameter : List Char) : List Char :=
  let parameter := trim (stripModifiers parameter)
  let type := match splitLast? 0 parameter with
    | some (before, name) => if (trim name).all isIdentifierChar then before else parameter
    | none => parameter
  qualifiedString (closeBrackets (trim type))

/-! ## The signature -/

/-- The name of the method with the types of its parameters. -/
def signatureOf (source method : String) : Except SignatureError String := do
  match ← parameterList? method.toList [] 0 source.toList with
  | none => return method ++ "()"
  | some list =>
    let parameters ← splitParameters (String.ofList list) method
    let types := parameters.map fun p => String.ofList (parameterType p.toList)
    return method ++ "(" ++ String.intercalate "," types ++ ")"

end ContractTests.Java
