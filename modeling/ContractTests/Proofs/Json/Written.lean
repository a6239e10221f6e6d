import ContractTests.Proofs.Json.Scan
import Mathlib.Data.List.Forall2

/-! # Reading what was written

A value that is written with line breaks is read back, up to the depth that a reader goes to
(`readFirst?_pretty`): its text scans to its tokens, the tokens have its tree, and the tree has the value
as long as the shape reads all of it. What a reader may lose is in the numbers: integers have to
fit, and doubles are left to the reader (`Readable`).
-/

set_option autoImplicit false

namespace ContractTests.Json

namespace Token

variable {cs left rest : List Char} {token : Token} {tokens : List Token}

/-! ## Texts and tokens -/

/-- The text has these tokens, whatever stands after it that no number goes on with. -/
def Scans (cs : List Char) (tokens : List Token) : Prop :=
  ∀ rest, EndsNumber rest → scan (cs ++ rest) = tokens ++ scan rest

theorem next?_of_number? (h : number? cs = some (token, left)) :
    next? cs = some (token, left) := by
  have hnone {c : Char} {cs : List Char} (hdigit : c.isDigit = false) (hminus : c ≠ '-') :
      number? (c :: cs) = none := by
    simp [number?, hminus, unsigned?, hdigit]
  cases cs with
  | nil => cases h
  | cons c cs =>
    unfold next?
    split
    case h_11 => exact h
    all_goals
      rename_i heq
      cases heq
      rw [hnone (by decide) (by decide)] at h
      cases h

theorem next?_of_isSpace {c : Char} (hc : isSpace c = true) : next? (c :: cs) = none := by
  have hcases : c = ' ' ∨ c = '\t' ∨ c = '\n' ∨ c = '\r' := by
    simpa [isSpace, or_assoc] using hc
  obtain rfl | rfl | rfl | rfl := hcases <;> rfl

theorem scan_of_isSpace {c : Char} (hc : isSpace c = true) : scan (c :: cs) = scan cs := by
  rw [scan_cons, if_pos hc]

theorem scan_of_next? (h : next? cs = some (token, left)) : scan cs = token :: scan left := by
  cases cs with
  | nil => cases h
  | cons c cs =>
    rw [scan_cons]
    cases hc : isSpace c with
    | true =>
      rw [next?_of_isSpace hc] at h
      cases h
    | false => simp [h]

theorem scan_newline (level : Nat) (rest : List Char) :
    scan ((newline level).toList ++ rest) = scan rest := by
  rw [newline, String.toList_ofList, List.cons_append, scan_of_isSpace (by decide)]
  induction 2 * level with
  | zero => rfl
  | succ n ih => rw [List.replicate_succ, List.cons_append, scan_of_isSpace (by decide), ih]

theorem endsNumber_newline (level : Nat) (rest : List Char) :
    EndsNumber ((newline level).toList ++ rest) := by
  rw [newline, String.toList_ofList]
  rintro c ⟨⟩
  decide

theorem scans_nil : Scans [] [] := fun _ _ => rfl

theorem scans_null : Scans "null".toList [.null] := by
  have htext : "null".toList = ['n', 'u', 'l', 'l'] := rfl
  rw [htext]
  exact fun _ _ => scan_of_next? rfl

theorem scans_bool (b : Bool) : Scans (if b then "true" else "false").toList [.bool b] := by
  have htrue : "true".toList = ['t', 'r', 'u', 'e'] := rfl
  have hfalse : "false".toList = ['f', 'a', 'l', 's', 'e'] := rfl
  cases b with
  | true => rw [if_pos rfl, htrue]; exact fun _ _ => scan_of_next? rfl
  | false => rw [if_neg nofun, hfalse]; exact fun _ _ => scan_of_next? rfl

theorem scans_number (h : number? cs = some (token, [])) : Scans cs [token] := fun _ hr =>
  scan_of_next? (next?_of_number? (number?_append h hr))

theorem scan_stringText (s : String) (rest : List Char) :
    scan ((stringText s).toList ++ rest) = .string s :: scan rest := by
  refine scan_of_next? ?_
  rw [stringText, String.toList_ofList, List.cons_append, List.append_assoc, List.singleton_append]
  change (stringBody? (s.toList.flatMap stringEscape ++ '"' :: rest)).map _ = _
  simp only [stringBody?_escaped, Option.map_some, ofUnits_map_toNat]

theorem scans_stringText (s : String) : Scans (stringText s).toList [.string s] := fun rest _ =>
  scan_stringText s rest

theorem endsNumber_comma (rest : List Char) : EndsNumber (',' :: rest) := by
  rintro c ⟨⟩
  decide

/-- Texts with commas between them. -/
theorem scans_intercalate (level : Nat) {parts : List String} {tokens : List (List Token)}
    (h : List.Forall₂ (fun part tokens => Scans part.toList tokens) parts tokens) :
    Scans (String.intercalate ("," ++ newline level) parts).toList
      (List.intercalate [.comma] tokens) := by
  have hsep : ("," ++ newline level).toList = ',' :: (newline level).toList := by
    rw [String.toList_append]
    rfl
  rw [String.toList_intercalate, hsep]
  induction h with
  | nil => exact scans_nil
  | @cons part ts parts tokens hpart hparts ih =>
    cases hparts with
    | nil =>
      simp only [List.map_cons, List.map_nil, List.intercalate_singleton]
      exact hpart
    | cons =>
      intro rest hr
      rw [List.map_cons] at ih ⊢
      rw [List.map_cons, List.intercalate_cons_cons, List.intercalate_cons_cons, List.append_assoc,
        List.append_assoc, List.cons_append, hpart _ (endsNumber_comma _), scan_of_next? rfl,
        scan_newline, ih _ hr]
      simp

/-- Parts between brackets. -/
theorem scans_block (level : Nat) {l r : String} {open_ close : Token} {parts : List String}
    {tokens : List (List Token)}
    (hl : ∀ rest, scan (l.toList ++ rest) = open_ :: scan rest)
    (hr : ∀ rest, scan (r.toList ++ rest) = close :: scan rest)
    (h : List.Forall₂ (fun part tokens => Scans part.toList tokens) parts tokens) :
    Scans (block level l r parts).toList
      (open_ :: (List.intercalate [.comma] tokens ++ [close])) := by
  intro rest _
  unfold block
  cases h with
  | nil =>
    simp [hl, hr]
  | @cons part ts parts tokens hpart hparts =>
    have hparts := scans_intercalate (level + 1) (.cons hpart hparts)
    simp only [List.isEmpty_cons, Bool.false_eq_true, if_false, String.toList_append,
      List.append_assoc]
    rw [hl, scan_newline, hparts _ (endsNumber_newline level _), scan_newline, hr]
    simp

end Token

/-! ## The tokens of a value -/

mutual

/-- The tokens of a value. -/
def tokens : Json → List Token
  | .null => [.null]
  | .bool b => [.bool b]
  | .integer n => [.integer n]
  | .double x => [.double x]
  | .string s => [.string s]
  | .array elements =>
    .leftBracket :: (List.intercalate [.comma] (tokensAll elements) ++ [.rightBracket])
  | .object members =>
    .leftBrace :: (List.intercalate [.comma] (tokensMembers members) ++ [.rightBrace])

/-- The tokens of the elements. -/
def tokensAll : List Json → List (List Token)
  | [] => []
  | j :: rest => tokens j :: tokensAll rest

/-- The tokens of the members. -/
def tokensMembers : List (String × Json) → List (List Token)
  | [] => []
  | (name, j) :: rest => (.string name :: .colon :: tokens j) :: tokensMembers rest

end

/-- The text of a double is read as the double. A reader need not do this: it rounds twice. -/
def ReadsBack (x : Double) : Prop := Token.number? (doubleText x).toList = some (.double x, [])

instance : DecidablePred ReadsBack := fun _ => decEq _ _

/-- `4.5751734284819275e-14` is read as the double before. -/
example : ¬ ReadsBack ⟨0x3d29c185110a21ba⟩ := by decide +kernel

/-- The numbers of a value are such that their texts are read as them. -/
inductive Readable : Json → Prop
  | null : Readable .null
  | bool (b : Bool) : Readable (.bool b)
  | integer {n : Int} (hlow : -Nat.pow 2 63 ≤ n) (hhigh : n < Nat.pow 2 64) :
      Readable (.integer n)
  | double {x : Double} (hx : ReadsBack x) : Readable (.double x)
  | string (s : String) : Readable (.string s)
  | array {elements : List Json} (h : ∀ j ∈ elements, Readable j) : Readable (.array elements)
  | object {members : List (String × Json)} (h : ∀ m ∈ members, Readable m.2) :
      Readable (.object members)

@[simp] theorem readable_string (s : String) : (Json.string s).Readable := .string s

@[simp] theorem readable_array {elements : List Json} :
    (Json.array elements).Readable ↔ ∀ j ∈ elements, j.Readable := by
  refine ⟨fun h => ?_, .array⟩
  cases h with
  | array h => exact h

@[simp] theorem readable_object {members : List (String × Json)} :
    (Json.object members).Readable ↔ ∀ m ∈ members, m.2.Readable := by
  refine ⟨fun h => ?_, .object⟩
  cases h with
  | object h => exact h

/-- A property that strings have, and arrays and objects whose parts have it. -/
structure OfParts (P : Json → Prop) : Prop where
  string (s : String) : P (.string s)
  array {elements : List Json} (h : ∀ j ∈ elements, P j) : P (.array elements)
  object {members : List (String × Json)} (h : ∀ m ∈ members, P m.2) : P (.object members)

theorem ofParts_readable : OfParts Readable := ⟨.string, .array, .object⟩

theorem scans_prettyAll {level : Nat} {elements : List Json}
    (h : ∀ j ∈ elements, Token.Scans (prettyAt level j).toList (tokens j)) :
    List.Forall₂ (fun part tokens => Token.Scans part.toList tokens) (prettyAll level elements)
      (tokensAll elements) := by
  induction elements with
  | nil => exact .nil
  | cons j rest ih =>
    obtain ⟨hj, hrest⟩ := List.forall_mem_cons.1 h
    exact .cons hj (ih hrest)

theorem scans_prettyMembers {level : Nat} {members : List (String × Json)}
    (h : ∀ m ∈ members, Token.Scans (prettyAt level m.2).toList (tokens m.2)) :
    List.Forall₂ (fun part tokens => Token.Scans part.toList tokens) (prettyMembers level members)
      (tokensMembers members) := by
  induction members with
  | nil => exact .nil
  | cons m rest ih =>
    obtain ⟨hm, hrest⟩ := List.forall_mem_cons.1 h
    refine .cons (fun after hafter => ?_) (ih hrest)
    have hcolon : (": ").toList = [':', ' '] := rfl
    simp only [String.toList_append, List.append_assoc, Token.scan_stringText, hcolon,
      List.cons_append, List.nil_append]
    rw [Token.scan_of_next? rfl, Token.scan_of_isSpace (by decide), hm _ hafter]

/-- The text of a value has the tokens of the value. -/
theorem Readable.scans {j : Json} (h : j.Readable) (level : Nat) :
    Token.Scans (prettyAt level j).toList (tokens j) := by
  induction h generalizing level with
  | null => exact Token.scans_null
  | bool b => exact Token.scans_bool b
  | integer hlow hhigh => exact Token.scans_number (Token.number?_intText hlow hhigh)
  | double hx => exact Token.scans_number hx
  | string s => exact Token.scans_stringText s
  | array _ ih =>
    refine Token.scans_block level (fun _ => Token.scan_of_next? rfl)
      (fun _ => Token.scan_of_next? rfl) (scans_prettyAll fun j hj => ih j hj (level + 1))
  | object _ ih =>
    refine Token.scans_block level (fun _ => Token.scan_of_next? rfl)
      (fun _ => Token.scan_of_next? rfl) (scans_prettyMembers fun m hm => ih m hm (level + 1))

theorem Readable.scan_pretty {j : Json} (h : j.Readable) :
    Token.scan j.pretty.toList = tokens j := by
  have hscan := h.scans 0 [] Token.endsNumber_nil
  rwa [List.append_nil, Token.scan_nil, List.append_nil] at hscan

/-! ## The tree of the tokens -/

namespace Tree

mutual

/-- The tree of a value. -/
def ofJson : Json → Tree
  | .array elements => .array (ofJsonAll elements)
  | .object members => .object (ofJsonMembers members)
  | j => .scalar (some j)

/-- The trees of the elements. -/
def ofJsonAll : List Json → List Tree
  | [] => []
  | j :: rest => ofJson j :: ofJsonAll rest

/-- The trees of the members. -/
def ofJsonMembers : List (String × Json) → List (Option String × Tree)
  | [] => []
  | (name, j) :: rest => (some name, ofJson j) :: ofJsonMembers rest

end

theorem ofTokens?_leftBracket (fuel : Nat) {tokens : List Token}
    (h : tokens.head? ≠ some .rightBracket) :
    ofTokens? (fuel + 1) (.leftBracket :: tokens) =
      (elements? fuel tokens).map fun (ts, rest) => (.array ts, rest) := by
  cases tokens with
  | nil => rfl
  | cons t rest => cases t <;> first | rfl | exact absurd rfl h

theorem ofTokens?_leftBrace (fuel : Nat) {tokens : List Token}
    (h : tokens.head? ≠ some .rightBrace) :
    ofTokens? (fuel + 1) (.leftBrace :: tokens) =
      (members? fuel tokens).map fun (ms, rest) => (.object ms, rest) := by
  cases tokens with
  | nil => rfl
  | cons t rest => cases t <;> first | rfl | exact absurd rfl h

theorem tokens_eq_cons (j : Json) : ∃ t ts, tokens j = t :: ts ∧ t ≠ .rightBracket := by
  cases j <;> exact ⟨_, _, rfl, nofun⟩

theorem head?_tokensAll (j : Json) (elements : List Json) (rest : List Token) :
    (List.intercalate [.comma] (tokensAll (j :: elements)) ++ rest).head? ≠
      some .rightBracket := by
  obtain ⟨t, ts, htokens, ht⟩ := tokens_eq_cons j
  cases elements <;> simp [tokensAll, htokens, ht]

theorem head?_tokensMembers (m : String × Json) (members : List (String × Json))
    (rest : List Token) :
    (List.intercalate [.comma] (tokensMembers (m :: members)) ++ rest).head? ≠
      some .rightBrace := by
  cases members <;> simp [tokensMembers]

mutual

/-- Twice as many steps as there are tokens are enough. -/
theorem ofTokens?_tokens : ∀ (j : Json) {fuel : Nat} (rest : List Token),
    2 * (tokens j).length ≤ fuel → ofTokens? fuel (tokens j ++ rest) = some (ofJson j, rest)
  | .null, fuel + 1, _, _ => rfl
  | .bool _, fuel + 1, _, _ => rfl
  | .integer _, fuel + 1, _, _ => rfl
  | .double _, fuel + 1, _, _ => rfl
  | .string _, fuel + 1, _, _ => rfl
  | .array [], fuel + 1, _, _ => rfl
  | .object [], fuel + 1, _, _ => rfl
  | .array (j :: elements), fuel + 1, rest, h => by
    rw [tokens, List.length_cons, List.length_append, List.length_singleton] at h
    rw [tokens, List.cons_append, List.append_assoc, List.singleton_append,
      ofTokens?_leftBracket fuel (head?_tokensAll j elements _),
      elements?_tokensAll j elements rest (by omega)]
    rfl
  | .object (m :: members), fuel + 1, rest, h => by
    rw [tokens, List.length_cons, List.length_append, List.length_singleton] at h
    rw [tokens, List.cons_append, List.append_assoc, List.singleton_append,
      ofTokens?_leftBrace fuel (head?_tokensMembers m members _),
      members?_tokensMembers m members rest (by omega)]
    rfl

theorem elements?_tokensAll : ∀ (j : Json) (elements : List Json) {fuel : Nat} (rest : List Token),
    2 * (List.intercalate [.comma] (tokensAll (j :: elements))).length + 1 ≤ fuel →
      elements? fuel
          (List.intercalate [.comma] (tokensAll (j :: elements)) ++ .rightBracket :: rest) =
        some (ofJsonAll (j :: elements), rest)
  | j, [], fuel + 1, rest, h => by
    rw [tokensAll, tokensAll, List.intercalate_singleton] at h ⊢
    have hj : ofTokens? fuel (tokens j ++ .rightBracket :: rest) =
        some (ofJson j, .rightBracket :: rest) := ofTokens?_tokens j _ (by omega)
    simp only [elements?, hj, ofJsonAll]
  | j, k :: elements, fuel + 1, rest, h => by
    have hsplit : List.intercalate [.comma] (tokensAll (j :: k :: elements)) =
        tokens j ++ .comma :: List.intercalate [.comma] (tokensAll (k :: elements)) := by
      simp [tokensAll]
    rw [hsplit, List.length_append, List.length_cons] at h
    rw [hsplit, List.append_assoc, List.cons_append]
    have hrest := elements?_tokensAll k elements rest
      (show 2 * (List.intercalate [.comma] (tokensAll (k :: elements))).length + 1 ≤ fuel by omega)
    have hj := ofTokens?_tokens j (.comma :: (List.intercalate [.comma] (tokensAll (k :: elements)) ++
      .rightBracket :: rest)) (show 2 * (tokens j).length ≤ fuel by omega)
    simp only [elements?, hj, hrest, Option.map_some]
    rfl

theorem members?_tokensMembers : ∀ (m : String × Json) (members : List (String × Json)) {fuel : Nat}
    (rest : List Token),
    2 * (List.intercalate [.comma] (tokensMembers (m :: members))).length + 1 ≤ fuel →
      members? fuel
          (List.intercalate [.comma] (tokensMembers (m :: members)) ++ .rightBrace :: rest) =
        some (ofJsonMembers (m :: members), rest)
  | (name, j), [], fuel + 1, rest, h => by
    rw [tokensMembers, tokensMembers, List.intercalate_singleton] at h ⊢
    rw [List.length_cons, List.length_cons] at h
    have hj : ofTokens? fuel (tokens j ++ .rightBrace :: rest) =
        some (ofJson j, .rightBrace :: rest) := ofTokens?_tokens j _ (by omega)
    simp only [List.cons_append, members?, memberName?, Option.bind_eq_bind, Option.bind_some, hj,
      ofJsonMembers]
  | (name, j), k :: members, fuel + 1, rest, h => by
    have hsplit : List.intercalate [.comma] (tokensMembers ((name, j) :: k :: members)) =
        .string name :: .colon :: (tokens j ++
          .comma :: List.intercalate [.comma] (tokensMembers (k :: members))) := by
      simp [tokensMembers]
    rw [hsplit, List.length_cons, List.length_cons, List.length_append, List.length_cons] at h
    rw [hsplit, List.cons_append, List.cons_append, List.append_assoc, List.cons_append]
    have hrest := members?_tokensMembers k members rest
      (show 2 * (List.intercalate [.comma] (tokensMembers (k :: members))).length + 1 ≤ fuel
        by omega)
    have hj := ofTokens?_tokens j (.comma :: (List.intercalate [.comma]
      (tokensMembers (k :: members)) ++ .rightBrace :: rest))
        (show 2 * (tokens j).length ≤ fuel by omega)
    simp only [members?, memberName?, Option.bind_eq_bind, Option.bind_some, hj, hrest,
      Option.map_some]
    rfl

end

end Tree

/-! ## The value of the tree -/

namespace Shape

/-- The shape reads the whole value: no member of an object is left out. -/
inductive Covers : Shape → Json → Prop
  | scalar {shape : Shape} {j : Json} (hj : j.depth = 0) : Covers shape j
  | array {shape : Shape} {elements : List Json}
      (h : ∀ i (hi : i < elements.length), Covers (shape.element i) elements[i]) :
      Covers shape (.array elements)
  | object {shape : Shape} {members : List (String × Json)}
      (hread : ∀ m ∈ members, ∃ inner, shape.member? m.1 = some inner)
      (h : ∀ m ∈ members, ∀ inner, shape.member? m.1 = some inner → Covers inner m.2) :
      Covers shape (.object members)

mutual

theorem covers_all : ∀ j : Json, Covers .all j
  | .null => .scalar rfl
  | .bool _ => .scalar rfl
  | .integer _ => .scalar rfl
  | .double _ => .scalar rfl
  | .string _ => .scalar rfl
  | .array elements => .array fun _ hi => covers_elements elements _ (List.getElem_mem hi)
  | .object members => .object (fun _ _ => ⟨.all, rfl⟩) fun m hm inner hinner => by
      cases hinner
      exact covers_members members m hm

theorem covers_elements : ∀ elements : List Json, ∀ j ∈ elements, Covers .all j
  | [] => nofun
  | j :: rest => List.forall_mem_cons.2 ⟨covers_all j, covers_elements rest⟩

theorem covers_members : ∀ members : List (String × Json), ∀ m ∈ members, Covers .all m.2
  | [] => nofun
  | (_, j) :: rest => List.forall_mem_cons.2 ⟨covers_all j, covers_members rest⟩

end

theorem covers_list {shape : Shape} {elements : List Json} (h : ∀ j ∈ elements, Covers shape j) :
    (list shape).Covers (.array elements) :=
  .array fun _ hi => h _ (List.getElem_mem hi)

theorem covers_record {fields : List (String × Shape)} {members : List (String × Json)}
    (h : ∀ m ∈ members, ∃ inner, fields.lookup m.1 = some inner ∧ Covers inner m.2) :
    (record fields).Covers (.object members) := by
  refine .object (fun m hm => ?_) fun m hm inner hinner => ?_
  · obtain ⟨inner, hinner, -⟩ := h m hm
    exact ⟨inner, hinner⟩
  · obtain ⟨inner', hinner', hcovers⟩ := h m hm
    cases hinner.symm.trans hinner'
    exact hcovers

end Shape

namespace Tree

variable {shape : Shape} {depth : Nat}

/-- The value, if it is no deeper than `depth`. -/
def HasValue (depth : Nat) (shape : Shape) (j : Json) : Prop :=
  valueWithin? depth shape (ofJson j) = if j.depth ≤ depth then some j else none

theorem elementsWithin?_ofJsonAll {i : Nat} {elements : List Json}
    (h : ∀ k (hk : k < elements.length), HasValue depth (shape.element (i + k)) elements[k]) :
    elementsWithin? depth shape i (ofJsonAll elements) =
      if depthAll elements ≤ depth then some elements else none := by
  induction elements generalizing i with
  | nil => simp [elementsWithin?, ofJsonAll, depthAll]
  | cons j rest ih =>
    have hj : HasValue depth (shape.element i) j := h 0 (Nat.succ_pos _)
    have helements := @ih (i + 1) fun k hk => by
      have hk' := h (k + 1) (Nat.succ_lt_succ hk)
      rwa [show i + (k + 1) = i + 1 + k by omega, List.getElem_cons_succ] at hk'
    rw [HasValue] at hj
    rw [ofJsonAll, elementsWithin?, hj, helements, depthAll]
    simp only [Nat.max_le]
    by_cases hdepth : j.depth ≤ depth <;> by_cases hrest : depthAll rest ≤ depth <;>
      simp [hdepth, hrest]

theorem membersWithin?_ofJsonMembers {members : List (String × Json)}
    (hread : ∀ m ∈ members, ∃ inner, shape.member? m.1 = some inner)
    (h : ∀ m ∈ members, ∀ inner, shape.member? m.1 = some inner → HasValue depth inner m.2) :
    membersWithin? depth shape (ofJsonMembers members) =
      if depthMembers members ≤ depth then some members else none := by
  induction members with
  | nil => simp [membersWithin?, ofJsonMembers, depthMembers]
  | cons m rest ih =>
    obtain ⟨name, j⟩ := m
    obtain ⟨⟨inner, hinner⟩, hreadRest⟩ := List.forall_mem_cons.1 hread
    obtain ⟨hj, hrest⟩ := List.forall_mem_cons.1 h
    have hj := hj inner hinner
    have hmembers := ih hreadRest hrest
    rw [HasValue] at hj
    dsimp only at hinner hj
    rw [ofJsonMembers, membersWithin?, hinner]
    simp only [hj, hmembers, depthMembers, Nat.max_le]
    by_cases hdepth : j.depth ≤ depth <;> by_cases hrest : depthMembers rest ≤ depth <;>
      simp [hdepth, hrest]

/-- A value that a shape covers is read, unless it is too deep. -/
theorem hasValue_of_covers {j : Json} (h : shape.Covers j) (depth : Nat) :
    HasValue depth shape j := by
  induction h generalizing depth with
  | @scalar shape j hj =>
    cases j with
    | array => simp [Json.depth] at hj
    | object => simp [Json.depth] at hj
    | _ => simp [HasValue, ofJson, valueWithin?, Json.depth]
  | array _ ih =>
    cases depth with
    | zero => simp [HasValue, ofJson, valueWithin?, Json.depth]
    | succ depth =>
      have helements := @elementsWithin?_ofJsonAll _ depth 0 _ fun k hk => by
        rw [Nat.zero_add]
        exact ih k hk depth
      rw [HasValue, ofJson, valueWithin?, helements, Json.depth]
      split <;> simp_all
  | object hread _ ih =>
    cases depth with
    | zero => simp [HasValue, ofJson, valueWithin?, Json.depth]
    | succ depth =>
      have hmembers := membersWithin?_ofJsonMembers hread fun m hm inner hinner =>
        ih m hm inner hinner depth
      rw [HasValue, ofJson, valueWithin?, hmembers, Json.depth]
      split <;> simp_all

end Tree

/-- A text that was written is read back in a shape that covers its value, unless it is too deep. -/
theorem Readable.readFirst?_pretty {shape : Shape} {j : Json} (h : j.Readable)
    (hshape : shape.Covers j) :
    readFirst? shape j.pretty = if j.depth ≤ Tree.depthLimit then some (j, true) else none := by
  have htree := Tree.ofTokens?_tokens j [] (Nat.le_refl (2 * (tokens j).length))
  rw [List.append_nil] at htree
  have hvalue := Tree.hasValue_of_covers hshape Tree.depthLimit
  rw [Tree.HasValue] at hvalue
  simp only [readFirst?, h.scan_pretty, htree, Tree.value?, hvalue, Option.bind_eq_bind,
    Option.bind_some]
  split <;> simp

end ContractTests.Json
