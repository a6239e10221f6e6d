import ContractTests.Text.Alphanumeric
import ContractTests.Text.Blank

/-! # Literals and parentheses in Java source

A scan of source text has to know which characters belong to a string or character literal.
`Lexical.next` is the state after a character, and `Lexical.covers` says whether the character belongs
to a literal, its quotes included. `argumentList?` finds the parenthesis that closes a list.
-/

set_option autoImplicit false

namespace ContractTests.Java

/-- Where a scan stands. -/
inductive Lexical where
  | code
  /-- Inside a literal that the given quote closes. -/
  | literal (quote : Char)
  /-- After a backslash inside a literal. -/
  | escape (quote : Char)
deriving DecidableEq, Repr

/-- A character that opens a literal. -/
def isQuote (c : Char) : Bool := c == '"' || c == '\x27'

namespace Lexical

/-- The state after a character. -/
def next : Lexical → Char → Lexical
  | .code, c => if isQuote c then .literal c else .code
  | .literal quote, c =>
    if c == '\\' then .escape quote else if c == quote then .code else .literal quote
  | .escape quote, _ => .literal quote

/-- Whether a character belongs to a literal. -/
def covers : Lexical → Char → Bool
  | .code, c => isQuote c
  | .literal _, _ => true
  | .escape _, _ => true

end Lexical

/-- What stands before and after the parenthesis that closes a list, when `depth` more lists are open
inside it. -/
def argumentList? (depth : Nat) (state : Lexical) : List Char → Option (List Char × List Char)
  | [] => none
  | c :: rest =>
    let deeper (depth : Nat) :=
      (argumentList? depth (state.next c) rest).map fun (inside, after) => (c :: inside, after)
    if state.covers c then deeper depth
    else if c == '(' then deeper (depth + 1)
    else if c == ')' then
      match depth with
      | 0 => some ([], rest)
      | depth + 1 => deeper depth
    else deeper depth

theorem argumentList?_length {depth : Nat} {state : Lexical} {cs inside after : List Char}
    (h : argumentList? depth state cs = some (inside, after)) :
    inside.length + after.length < cs.length := by
  induction cs generalizing depth state inside with
  | nil => simp [argumentList?] at h
  | cons c rest ih =>
    have deeper {d : Nat} {s : Lexical}
        (h : (argumentList? d s rest).map (fun p => (c :: p.1, p.2)) = some (inside, after)) :
        inside.length + after.length < rest.length + 1 := by
      obtain ⟨⟨i, a⟩, hi, he⟩ := Option.map_eq_some_iff.1 h
      cases he
      have := ih hi
      simp only [List.length_cons] at this ⊢
      omega
    simp only [argumentList?] at h
    split at h
    · exact deeper h
    · split at h
      · exact deeper h
      · split at h
        · split at h
          · cases h; simp
          · exact deeper h
        · exact deeper h

end ContractTests.Java
