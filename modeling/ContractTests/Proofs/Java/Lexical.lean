import ContractTests.Java.Lexical
import ContractTests.Text.Quoted
import Mathlib.Data.List.Basic

/-! # Literals in a scan

`Lexical.run` is where a scan stands after a text. `Java.IsContent quote text` says that the text may
stand between two quotes of a literal: a quote of its kind and a backslash only come after a
backslash. A scan is inside a literal from its first quote on up to its last one (`run_literal`),
and what the literal holds does not matter to the list around it (`argumentList?_literal`).
-/

set_option autoImplicit false

namespace ContractTests.Java

open Text

variable {quote c : Char} {text text' after : List Char} {state : Lexical}

/-! ## Quotes -/

/-- A class without the two quotes has no quote in it. -/
theorem eq_false_of_isQuote {p : Char → Bool} (h : isQuote quote = true) (hdouble : p '"' = false)
    (hsingle : p '\x27' = false) : p quote = false := by
  simp only [isQuote, Bool.or_eq_true, beq_iff_eq] at h
  rcases h with rfl | rfl
  · exact hdouble
  · exact hsingle

theorem isBlank_of_isQuote (h : isQuote quote = true) : isBlank quote = false :=
  eq_false_of_isQuote h (by decide) (by decide)

theorem isQuote_of_isBlank (h : isBlank c = true) : isQuote c = false :=
  Bool.eq_false_iff.2 fun hquote => by simp [isBlank_of_isQuote hquote] at h

theorem ne_of_isQuote (h : isQuote quote = true) (hc : isQuote c = false) : quote ≠ c :=
  ne_of_apply_ne isQuote (by simp [h, hc])

/-! ## The state after a text -/

namespace Lexical

/-- Where a scan stands after a text. -/
def run (state : Lexical) (text : List Char) : Lexical := text.foldl next state

@[simp] theorem run_nil (state : Lexical) : state.run [] = state := rfl

@[simp] theorem run_cons (state : Lexical) (c : Char) (text : List Char) :
    state.run (c :: text) = (state.next c).run text := rfl

@[simp] theorem run_append (state : Lexical) (text text' : List Char) :
    state.run (text ++ text') = (state.run text).run text' := List.foldl_append

theorem covers_of_ne_code (h : state ≠ .code) (c : Char) : state.covers c = true := by
  cases state with
  | code => exact absurd rfl h
  | literal quote => rfl
  | escape quote => rfl

theorem next_of_not_covers (h : state.covers c = false) : state = .code ∧ state.next c = .code := by
  cases state with
  | code =>
    have hquote : isQuote c = false := h
    exact ⟨rfl, by simp [next, hquote]⟩
  | literal quote => cases h
  | escape quote => cases h

theorem next_quote (h : isQuote quote = true) : code.next quote = .literal quote := if_pos h

theorem next_code (h : isQuote c = false) : code.next c = .code := by simp [next, h]

theorem next_backslash (quote : Char) : (literal quote).next '\\' = .escape quote := rfl

theorem next_char (hquote : c ≠ quote) (hbackslash : c ≠ '\\') :
    (literal quote).next c = .literal quote := by
  simp [next, hquote, hbackslash]

theorem next_closing (h : isQuote quote = true) : (literal quote).next quote = .code := by
  have hbackslash : quote ≠ '\\' := by
    rintro rfl
    exact absurd h (by decide)
  simp [next, hbackslash]

/-- The quote that closes the literal is a quote. -/
def IsProper : Lexical → Prop
  | code => True
  | literal quote => isQuote quote = true
  | escape quote => isQuote quote = true

theorem IsProper.next (h : state.IsProper) (c : Char) : (state.next c).IsProper := by
  cases state with
  | code =>
    simp only [Lexical.next]
    split
    · assumption
    · trivial
  | literal quote =>
    simp only [Lexical.next]
    repeat' split
    · exact h
    · trivial
    · exact h
  | escape quote => exact h

theorem IsProper.run (h : state.IsProper) (text : List Char) : (state.run text).IsProper := by
  induction text generalizing state with
  | nil => exact h
  | cons c text ih => exact ih (h.next c)

/-- The scan does not leave the literal it is in. -/
def StaysOpen (state : Lexical) (text : List Char) : Prop :=
  ∀ u, u <+: text → state.run u ≠ .code

theorem staysOpen_nil : StaysOpen state [] ↔ state ≠ .code :=
  ⟨fun h => h [] List.prefix_rfl, fun h u hu => by rwa [List.prefix_nil.1 hu]⟩

theorem staysOpen_cons :
    StaysOpen state (c :: text) ↔ state ≠ .code ∧ StaysOpen (state.next c) text := by
  refine ⟨fun h => ⟨h [] List.nil_prefix, fun u hu => ?_⟩, fun ⟨hstate, h⟩ u hu => ?_⟩
  · exact h (c :: u) (List.cons_prefix_cons.2 ⟨rfl, hu⟩)
  · rcases List.prefix_cons_iff.1 hu with rfl | ⟨w, rfl, hw⟩
    · exact hstate
    · exact h w hw

end Lexical

theorem argumentList?_of_covers (h : state.covers c = true) (depth : Nat) (after : List Char) :
    argumentList? depth state (c :: after) =
      (argumentList? depth (state.next c) after).map fun p => (c :: p.1, p.2) := by
  rw [argumentList?.eq_def]
  exact if_pos h

/-! ## The content of a literal -/

/-- The text may stand between two quotes of this kind. -/
inductive IsContent (quote : Char) : List Char → Prop
  | nil : IsContent quote []
  | char {c : Char} {text : List Char} (hquote : c ≠ quote) (hbackslash : c ≠ '\\')
      (h : IsContent quote text) : IsContent quote (c :: text)
  | escape (c : Char) {text : List Char} (h : IsContent quote text) :
      IsContent quote ('\\' :: c :: text)

namespace IsContent

theorem append (h : IsContent quote text) (h' : IsContent quote text') :
    IsContent quote (text ++ text') := by
  induction h with
  | nil => exact h'
  | char hquote hbackslash _ ih => exact .char hquote hbackslash ih
  | escape c _ ih => exact .escape c ih

theorem of_forall (h : ∀ c ∈ text, c ≠ quote ∧ c ≠ '\\') : IsContent quote text := by
  induction text with
  | nil => exact .nil
  | cons c text ih =>
    obtain ⟨⟨hquote, hbackslash⟩, htext⟩ := List.forall_mem_cons.1 h
    exact .char hquote hbackslash (ih htext)

/-- A scan stays in the literal. -/
theorem run_eq (h : IsContent quote text) :
    (Lexical.literal quote).run text = .literal quote := by
  induction h with
  | nil => rfl
  | char hquote hbackslash _ ih => rw [Lexical.run_cons, Lexical.next_char hquote hbackslash, ih]
  | escape c _ ih => exact ih

theorem staysOpen (h : IsContent quote text) : (Lexical.literal quote).StaysOpen text := by
  induction h with
  | nil => exact Lexical.staysOpen_nil.2 nofun
  | char hquote hbackslash _ ih =>
    refine Lexical.staysOpen_cons.2 ⟨nofun, ?_⟩
    rwa [Lexical.next_char hquote hbackslash]
  | escape c _ ih => exact Lexical.staysOpen_cons.2 ⟨nofun, Lexical.staysOpen_cons.2 ⟨nofun, ih⟩⟩

theorem argumentList?_eq (h : IsContent quote text) (depth : Nat) (after : List Char) :
    argumentList? depth (.literal quote) (text ++ after) =
      (argumentList? depth (.literal quote) after).map fun p => (text ++ p.1, p.2) := by
  induction h with
  | nil => simp
  | char hquote hbackslash _ ih =>
    rw [List.cons_append, argumentList?_of_covers rfl, Lexical.next_char hquote hbackslash, ih,
      Option.map_map]
    rfl
  | escape c _ ih =>
    have hescaped : (Lexical.escape quote).covers c = true := rfl
    have hnext : (Lexical.escape quote).next c = .literal quote := rfl
    rw [List.cons_append, argumentList?_of_covers rfl, Lexical.next_backslash, List.cons_append,
      argumentList?_of_covers hescaped, hnext, ih, Option.map_map, Option.map_map]
    rfl

end IsContent

/-! ## Whole literals -/

/-- The literal with this content. -/
def literalText (quote : Char) (content : List Char) : List Char := quote :: (content ++ [quote])

theorem argumentList?_literal (hquote : isQuote quote = true) (h : IsContent quote text)
    (depth : Nat) (after : List Char) :
    argumentList? depth .code (literalText quote text ++ after) =
      (argumentList? depth .code after).map fun p => (literalText quote text ++ p.1, p.2) := by
  have hcovers : Lexical.code.covers quote = true := hquote
  rw [literalText, List.cons_append, argumentList?_of_covers hcovers, Lexical.next_quote hquote,
    List.append_assoc, h.argumentList?_eq, List.singleton_append, argumentList?_of_covers rfl,
    Lexical.next_closing hquote, Option.map_map, Option.map_map]
  simp [Function.comp_def]

/-- A scan is inside a literal from its first character up to its last. -/
theorem run_literal (hquote : isQuote quote = true) (h : IsContent quote text) {u v : List Char}
    (heq : literalText quote text = u ++ c :: v) :
    (Lexical.code.run u).covers c = true ∧ (Lexical.code.run (u ++ [c]) = .code ↔ v = []) := by
  cases u with
  | nil =>
    obtain ⟨rfl, rfl⟩ := List.cons.inj heq
    refine ⟨hquote, ?_⟩
    simp [Lexical.next_quote hquote]
  | cons d u =>
    obtain ⟨rfl, hrest⟩ : quote = d ∧ text ++ [quote] = u ++ c :: v := List.cons.inj heq
    obtain ⟨w, rfl⟩ : u <+: text := by
      have hlength := congrArg List.length hrest
      simp only [List.length_append, List.length_cons, List.length_nil] at hlength
      exact List.prefix_of_prefix_length_le ⟨c :: v, hrest.symm⟩ (List.prefix_append text [quote])
        (by omega)
    rw [List.append_assoc, List.append_cancel_left_eq] at hrest
    have hinside := h.staysOpen u (List.prefix_append u w)
    rw [List.cons_append, Lexical.run_cons, Lexical.run_cons, Lexical.next_quote hquote]
    refine ⟨Lexical.covers_of_ne_code hinside c, ?_⟩
    cases w with
    | nil =>
      obtain ⟨rfl, rfl⟩ := List.cons.inj hrest
      rw [List.append_nil] at h
      rw [Lexical.run_append, h.run_eq]
      simp [Lexical.next_closing hquote]
    | cons e w =>
      obtain ⟨rfl, rfl⟩ := List.cons.inj hrest
      exact iff_of_false (h.staysOpen (u ++ [e]) ⟨w, by simp⟩) (by simp)

/-! ## Escaped characters -/

theorem toNat_lt_of_isControl (h : isControl c = true) : c.toNat < 0xa0 := by
  simp only [isControl, Bool.or_eq_true, Bool.and_eq_true, decide_eq_true_eq] at h
  omega

/-- Only a control character is written with digits, and they are no quotes, backslashes and
parentheses. -/
theorem mem_hexDigits_of_isControl {c d : Char} (h : isControl c = true)
    (hd : d ∈ hexDigits 4 c.toNat) : d ≠ '"' ∧ d ≠ '\\' ∧ d ≠ '(' := by
  have hlt := toNat_lt_of_isControl h
  have hdigits : ((List.range 0xa0).all fun n =>
      (hexDigits 4 n).all fun d => d != '"' && d != '\\' && d != '(') = true := by decide +kernel
  simp only [List.all_eq_true, List.mem_range, Bool.and_eq_true, bne_iff_ne, and_assoc] at hdigits
  exact hdigits _ hlt d hd

theorem isContent_javaEscape (c : Char) : IsContent '"' (javaEscape c) := by
  unfold javaEscape
  split
  · exact .escape _ .nil
  split
  · exact .escape _ .nil
  split
  · exact .escape _ .nil
  split
  · exact .escape _ .nil
  split
  · exact .escape _ .nil
  split
  · rename_i hcontrol
    refine .escape 'u' (.of_forall fun d hd => ?_)
    obtain ⟨hquote, hbackslash, -⟩ := mem_hexDigits_of_isControl hcontrol hd
    exact ⟨hquote, hbackslash⟩
  · exact .char ‹_› ‹_› .nil

/-- What is between the quotes of a string literal. -/
theorem isContent_flatMap_javaEscape (cs : List Char) : IsContent '"' (cs.flatMap javaEscape) := by
  induction cs with
  | nil => exact .nil
  | cons c cs ih => exact (isContent_javaEscape c).append ih

theorem toList_javaLiteral (s : String) :
    (javaLiteral s).toList = literalText '"' (s.toList.flatMap javaEscape) := by
  rw [javaLiteral, String.toList_ofList, javaLiteralChars, literalText]

end ContractTests.Java
