import ContractTests.Java.Declaration
import ContractTests.Proofs.Expr.Traversal
import ContractTests.Proofs.Java.Lexical

/-! # Brackets in source text

`Nesting` counts how deep a scan of source text stands: in parentheses, in angle brackets outside
parentheses, and in a literal, where no bracket counts. The depths are integers, so that they can be
followed beyond a bracket that closes nothing. A text is `Java.IsClosed` if no bracket of it closes
what it has not opened, nothing is open at its end, and no comma stands outside brackets and
literals. Splitting a parameter list follows these counts (`piecesFrom_eq_ok_iff`).
-/

set_option autoImplicit false

namespace ContractTests.Java

/-! ## Depths -/

/-- How deep a scan stands. -/
structure Nesting where
  paren : Int
  angle : Int
  state : Lexical
deriving DecidableEq

namespace Nesting

/-- Nothing is open. -/
def start : Nesting := ⟨0, 0, .code⟩

/-- The depths after a character. Angle brackets in parentheses are comparisons. -/
def next (n : Nesting) (c : Char) : Nesting :=
  if n.state.covers c then { n with state := n.state.next c }
  else if c = '(' then { n with paren := n.paren + 1 }
  else if c = ')' then { n with paren := n.paren - 1 }
  else if c = '<' ∧ n.paren = 0 then { n with angle := n.angle + 1 }
  else if c = '>' ∧ n.paren = 0 then { n with angle := n.angle - 1 }
  else n

/-- The depths after a text. -/
def run (n : Nesting) (text : List Char) : Nesting := text.foldl next n

/-- No depth is below zero. -/
def IsSound (n : Nesting) : Prop := 0 ≤ n.paren ∧ 0 ≤ n.angle

@[simp] theorem isSound_mk {paren angle : Int} {state : Lexical} :
    IsSound ⟨paren, angle, state⟩ ↔ 0 ≤ paren ∧ 0 ≤ angle := Iff.rfl

instance (n : Nesting) : Decidable n.IsSound := inferInstanceAs (Decidable (_ ∧ _))

@[simp] theorem run_nil (n : Nesting) : n.run [] = n := rfl

@[simp] theorem run_cons (n : Nesting) (c : Char) (text : List Char) :
    n.run (c :: text) = (n.next c).run text := rfl

@[simp] theorem run_append (n : Nesting) (text text' : List Char) :
    n.run (text ++ text') = (n.run text).run text' := List.foldl_append

variable {n : Nesting} {c : Char} {text text' : List Char}

/-- The state of the scan for literals goes on by itself. -/
theorem state_next (n : Nesting) (c : Char) : (n.next c).state = n.state.next c := by
  unfold next
  split
  · rfl
  · rename_i hcovers
    obtain ⟨hcode, hnext⟩ := Lexical.next_of_not_covers (Bool.eq_false_iff.2 hcovers)
    rw [hnext]
    repeat' split
    all_goals exact hcode

theorem state_run (n : Nesting) (text : List Char) : (n.run text).state = n.state.run text := by
  induction text generalizing n with
  | nil => rfl
  | cons c text ih => rw [run_cons, ih, state_next, Lexical.run_cons]

/-- Where nothing is open, a scan for literals stands in code. -/
theorem code_run_eq (h : start.run text = .start) : Lexical.code.run text = .code := by
  have hstate := state_run start text
  rw [h] at hstate
  exact hstate.symm

theorem next_of_covers {state : Lexical} (h : state.covers c = true) (paren angle : Int) :
    next ⟨paren, angle, state⟩ c = ⟨paren, angle, state.next c⟩ := if_pos h

/-- No depth changes in a literal that stays open. -/
theorem run_staysOpen {state : Lexical} (h : state.StaysOpen text) (paren angle : Int) :
    run ⟨paren, angle, state⟩ text = ⟨paren, angle, state.run text⟩ := by
  induction text generalizing state with
  | nil => rfl
  | cons c text ih =>
    obtain ⟨hstate, htext⟩ := Lexical.staysOpen_cons.1 h
    rw [run_cons, next_of_covers (Lexical.covers_of_ne_code hstate c), ih htext, Lexical.run_cons]

/-- No bracket up to any place of the text closes what is not open. -/
def IsNested (n : Nesting) (text : List Char) : Prop := ∀ u, u <+: text → (n.run u).IsSound

theorem isNested_nil : n.IsNested [] ↔ n.IsSound :=
  ⟨fun h => h [] List.prefix_rfl, fun h u hu => by rwa [List.prefix_nil.1 hu]⟩

theorem isNested_cons : n.IsNested (c :: text) ↔ n.IsSound ∧ (n.next c).IsNested text := by
  refine ⟨fun h => ⟨h [] List.nil_prefix, fun u hu => ?_⟩, fun ⟨hn, h⟩ u hu => ?_⟩
  · exact h (c :: u) (List.cons_prefix_cons.2 ⟨rfl, hu⟩)
  · rcases List.prefix_cons_iff.1 hu with rfl | ⟨w, rfl, hw⟩
    · exact hn
    · exact h w hw

theorem isNested_append :
    n.IsNested (text ++ text') ↔ n.IsNested text ∧ (n.run text).IsNested text' := by
  induction text generalizing n with
  | nil =>
    rw [List.nil_append, run_nil, isNested_nil]
    exact ⟨fun h => ⟨h [] List.nil_prefix, h⟩, And.right⟩
  | cons c text ih => rw [List.cons_append, isNested_cons, isNested_cons, ih, run_cons, and_assoc]

theorem IsNested.isSound (h : n.IsNested text) : n.IsSound := h [] List.nil_prefix

end Nesting

/-! ## Closed texts -/

/-- From these depths on, the text closes all that is open and nothing else, and no comma stands
where nothing is open. -/
structure ClosesFrom (n : Nesting) (text : List Char) : Prop where
  nested : n.IsNested text
  ends : n.run text = .start
  noComma : ∀ u v, text = u ++ ',' :: v → n.run u ≠ .start

/-- All brackets and literals are closed in the text, and no comma stands outside them. -/
def IsClosed (text : List Char) : Prop := ClosesFrom .start text

open Nesting

variable {n : Nesting} {c : Char} {text text' list : List Char}

theorem isSound_start : start.IsSound := by decide

theorem isClosed_nil : IsClosed [] where
  nested := isNested_nil.2 isSound_start
  ends := rfl
  noComma u v h := by cases u <;> cases h

theorem closesFrom_cons :
    ClosesFrom n (c :: text) ↔
      n.IsSound ∧ (c = ',' → n ≠ .start) ∧ ClosesFrom (n.next c) text := by
  constructor
  · intro h
    obtain ⟨hn, hnested⟩ := isNested_cons.1 h.nested
    refine ⟨hn, ?_, hnested, h.ends, fun u v huv => ?_⟩
    · rintro rfl
      exact h.noComma [] text rfl
    · exact h.noComma (c :: u) v (by rw [huv]; rfl)
  · rintro ⟨hn, hcomma, h⟩
    refine ⟨isNested_cons.2 ⟨hn, h.nested⟩, h.ends, fun u v huv => ?_⟩
    cases u with
    | nil =>
      cases huv
      exact hcomma rfl
    | cons d u =>
      cases huv
      exact h.noComma u v rfl

theorem ClosesFrom.append (h : ClosesFrom n text) (h' : IsClosed text') :
    ClosesFrom n (text ++ text') := by
  induction text generalizing n with
  | nil =>
    obtain rfl : n = .start := h.ends
    exact h'
  | cons c text ih =>
    obtain ⟨hn, hcomma, h⟩ := closesFrom_cons.1 h
    exact closesFrom_cons.2 ⟨hn, hcomma, ih h⟩

/-! ## Lists follow the depths -/

/-- A list is looked for as deep as the parentheses stand, whatever their number outside the text. -/
theorem argumentList?_cons (hn : 0 ≤ n.paren) (hnext : 0 ≤ (n.next c).paren) (depth : Nat)
    (list : List Char) :
    argumentList? (depth + n.paren.toNat) n.state (c :: list) =
      (argumentList? (depth + (n.next c).paren.toNat) (n.next c).state list).map
        fun p => (c :: p.1, p.2) := by
  obtain ⟨paren, angle, state⟩ := n
  obtain ⟨p, rfl⟩ := Int.eq_ofNat_of_zero_le hn
  by_cases hcovers : state.covers c = true
  · rw [argumentList?_of_covers hcovers, next_of_covers hcovers]
  obtain ⟨rfl, hcode⟩ := Lexical.next_of_not_covers (Bool.eq_false_iff.2 hcovers)
  rcases eq_or_ne c '(' with rfl | hopen
  · have hcast : ((p : Int) + 1).toNat = p + 1 := by omega
    show _ = (argumentList? (depth + ((p : Int) + 1).toNat) .code list).map _
    rw [hcast]
    rfl
  rcases eq_or_ne c ')' with rfl | hclose
  · have hparen : 0 ≤ (p : Int) - 1 := hnext
    obtain ⟨q, rfl⟩ : ∃ q, p = q + 1 := ⟨p - 1, by omega⟩
    have hcast : ((q + 1 : Nat) - 1 : Int).toNat = q := by omega
    show _ = (argumentList? (depth + ((q + 1 : Nat) - 1 : Int).toNat) .code list).map _
    rw [hcast]
    rfl
  · have hparen : (next ⟨p, angle, .code⟩ c).paren = p := by
      simp only [next, hcovers, hopen, hclose, if_false]
      repeat' split
      all_goals rfl
    rw [state_next, argumentList?.eq_def, hparen]
    simp [hcovers, hopen, hclose]

theorem argumentList?_append (h : ∀ u, u <+: text → 0 ≤ (n.run u).paren) (depth : Nat)
    (list : List Char) :
    argumentList? (depth + n.paren.toNat) n.state (text ++ list) =
      (argumentList? (depth + (n.run text).paren.toNat) (n.run text).state list).map
        fun p => (text ++ p.1, p.2) := by
  induction text generalizing n with
  | nil => simp
  | cons c text ih =>
    have htext (u : List Char) (hu : u <+: text) : 0 ≤ ((n.next c).run u).paren :=
      h (c :: u) (List.cons_prefix_cons.2 ⟨rfl, hu⟩)
    rw [List.cons_append, argumentList?_cons (n := n) (h [] List.nil_prefix)
      (htext [] List.nil_prefix), ih htext, Option.map_map, run_cons]
    rfl

/-! ## Splitting follows the depths -/

/-- Splitting from these depths on. -/
def piecesFrom (n : Nesting) (list : List Char) : Except ListFault (List (List Char)) :=
  pieces n.angle.toNat n.paren.toNat n.state list

/-- The list of pieces with a character before the first one. -/
def putFirst (c : Char) : List (List Char) → List (List Char)
  | [] => [[c]]
  | piece :: others => (c :: piece) :: others

theorem piecesFrom_nil (hn : n.IsSound) :
    (∃ ps, piecesFrom n [] = .ok ps) ↔ n = .start := by
  obtain ⟨paren, angle, state⟩ := n
  obtain ⟨hparen, hangle⟩ : 0 ≤ paren ∧ 0 ≤ angle := hn
  simp only [piecesFrom, pieces, start, Nesting.mk.injEq]
  repeat' split
  all_goals simp_all
  all_goals omega

/-- One step of splitting. -/
theorem pieces_cons (angle paren : Nat) (state : Lexical) (c : Char) (list : List Char) :
    pieces angle paren state (c :: list) =
      let after (angle paren : Nat) := (pieces angle paren (state.next c) list).map (putFirst c)
      if state.covers c then after angle paren
      else if c = '(' then after angle (paren + 1)
      else if c = ')' then
        if paren = 0 then .error .strayParenthesis else after angle (paren - 1)
      else if c = '<' ∧ paren = 0 then after (angle + 1) paren
      else if c = '>' ∧ paren = 0 then
        if angle = 0 then .error .strayAngle else after (angle - 1) paren
      else if c = ',' ∧ angle = 0 ∧ paren = 0 then
        (pieces angle paren (state.next c) list).map ([] :: ·)
      else after angle paren := by
  conv_lhs => unfold pieces
  extract_lets after put
  have hafter : after = put := by
    funext angle paren
    simp only [after, put]
    cases pieces angle paren (state.next c) list with
    | error fault => rfl
    | ok ps => cases ps <;> rfl
  rw [hafter]
  simp only [beq_iff_eq, Bool.and_eq_true, and_assoc]
  cases pieces angle paren (state.next c) list <;> rfl

/-- Splitting goes on unless a depth falls below zero; a comma where nothing is open ends a piece. -/
theorem piecesFrom_cons (hn : n.IsSound) (c : Char) (list : List Char) :
    piecesFrom n (c :: list) =
      if ¬ (n.next c).IsSound then
        .error (if c = ')' then .strayParenthesis else .strayAngle)
      else if c = ',' ∧ n = .start then (piecesFrom .start list).map ([] :: ·)
      else (piecesFrom (n.next c) list).map (putFirst c) := by
  obtain ⟨paren, angle, state⟩ := n
  obtain ⟨hparen, hangle⟩ : 0 ≤ paren ∧ 0 ≤ angle := hn
  obtain ⟨p, rfl⟩ := Int.eq_ofNat_of_zero_le hparen
  obtain ⟨a, rfl⟩ := Int.eq_ofNat_of_zero_le hangle
  rw [piecesFrom, Int.toNat_natCast, Int.toNat_natCast, pieces_cons]
  by_cases hcovers : state.covers c = true
  · have hsound : IsSound ⟨p, a, state.next c⟩ := ⟨hparen, hangle⟩
    have hcomma : ¬ (c = ',' ∧ (⟨p, a, state⟩ : Nesting) = .start) := by
      rintro ⟨rfl, heq⟩
      cases heq
      exact absurd hcovers (by decide)
    rw [next_of_covers hcovers, if_neg (not_not.2 hsound), if_neg hcomma]
    exact if_pos hcovers
  obtain ⟨rfl, hcode⟩ := Lexical.next_of_not_covers (Bool.eq_false_iff.2 hcovers)
  have hcode' : Lexical.code.covers c = false := Bool.eq_false_iff.2 hcovers
  simp only [hcode, next, hcode', Bool.false_eq_true, if_false, start, Nesting.mk.injEq, and_true,
    Int.natCast_eq_zero]
  by_cases hopen : c = '('
  · have hle : 0 ≤ (p : Int) + 1 := by omega
    have hcast : ((p : Int) + 1).toNat = p + 1 := by omega
    simp [hopen, hle, hcast, piecesFrom]
  by_cases hclose : c = ')'
  · cases p with
    | zero => simp [hclose]
    | succ p => simp [hclose, piecesFrom]
  by_cases hless : c = '<' ∧ p = 0
  · obtain ⟨rfl, rfl⟩ := hless
    have hle : 0 ≤ (a : Int) + 1 := by omega
    have hcast : ((a : Int) + 1).toNat = a + 1 := by omega
    simp [hle, hcast, piecesFrom]
  by_cases hgreater : c = '>' ∧ p = 0
  · obtain ⟨rfl, rfl⟩ := hgreater
    cases a with
    | zero => simp
    | succ a => simp [piecesFrom]
  by_cases hcomma : c = ',' ∧ a = 0 ∧ p = 0
  · obtain ⟨rfl, rfl, rfl⟩ := hcomma
    simp [piecesFrom]
  · have hcomma' : ¬ (c = ',' ∧ p = 0 ∧ a = 0) := fun ⟨hc, hp, ha⟩ => hcomma ⟨hc, ha, hp⟩
    simp only [hopen, hclose, hless, hgreater, hcomma, hcomma', if_false, isSound_mk, hparen,
      hangle, and_self, not_true_eq_false, piecesFrom, Int.toNat_natCast]

/-- The list is these pieces with commas between them: the first closes what is open, and the others
are closed. -/
def CutFrom (n : Nesting) : List (List Char) → List Char → Prop
  | [], _ => False
  | [piece], list => list = piece ∧ ClosesFrom n piece
  | piece :: others, list =>
    ∃ rest, list = piece ++ ',' :: rest ∧ ClosesFrom n piece ∧ CutFrom .start others rest

theorem cutFrom_cons {piece : List Char} {others : List (List Char)} (hothers : others ≠ []) :
    CutFrom n (piece :: others) list ↔
      ∃ rest, list = piece ++ ',' :: rest ∧ ClosesFrom n piece ∧ CutFrom .start others rest := by
  obtain ⟨p, ps, rfl⟩ := List.exists_cons_of_ne_nil hothers
  rfl

theorem CutFrom.ne_nil {ps : List (List Char)} (h : CutFrom n ps list) : ps ≠ [] := by
  rintro rfl
  exact h

/-- A character that neither ends a piece nor closes what is not open goes to the first piece. -/
theorem cutFrom_putFirst {ps : List (List Char)} (hn : n.IsSound) (hcomma : c = ',' → n ≠ .start)
    (h : CutFrom (n.next c) ps list) : CutFrom n (putFirst c ps) (c :: list) := by
  cases ps with
  | nil => exact h.elim
  | cons piece others =>
    by_cases hothers : others = []
    · subst hothers
      obtain ⟨rfl, hpiece⟩ := h
      exact ⟨rfl, closesFrom_cons.2 ⟨hn, hcomma, hpiece⟩⟩
    · obtain ⟨rest, rfl, hpiece, hrest⟩ := (cutFrom_cons hothers).1 h
      exact (cutFrom_cons hothers).2
        ⟨rest, rfl, closesFrom_cons.2 ⟨hn, hcomma, hpiece⟩, hrest⟩

theorem cutFrom_of_piecesFrom {ps : List (List Char)} (hn : n.IsSound)
    (h : piecesFrom n list = .ok ps) : CutFrom n ps list := by
  induction list generalizing n ps with
  | nil =>
    obtain rfl := (piecesFrom_nil hn).1 ⟨ps, h⟩
    cases h
    exact ⟨rfl, isClosed_nil⟩
  | cons c list ih =>
    rw [piecesFrom_cons hn] at h
    split at h
    · cases h
    rename_i hnext
    split at h
    · rename_i hcomma
      obtain ⟨rfl, rfl⟩ := hcomma
      obtain ⟨qs, hqs, rfl⟩ := map_eq_ok_iff.1 h
      have hcut := ih isSound_start hqs
      exact (cutFrom_cons hcut.ne_nil).2 ⟨list, rfl, isClosed_nil, hcut⟩
    · rename_i hcomma
      obtain ⟨qs, hqs, rfl⟩ := map_eq_ok_iff.1 h
      exact cutFrom_putFirst hn (fun hc hstart => hcomma ⟨hc, hstart⟩) (ih (not_not.1 hnext) hqs)

/-- Splitting goes over a character that ends no piece. -/
theorem piecesFrom_cons_of_closesFrom (h : ClosesFrom n (c :: text)) (list : List Char) :
    piecesFrom n (c :: list) = (piecesFrom (n.next c) list).map (putFirst c) := by
  obtain ⟨hn, hcomma, htext⟩ := closesFrom_cons.1 h
  rw [piecesFrom_cons hn, if_neg (not_not.2 htext.nested.isSound), if_neg fun hc => hcomma hc.1 hc.2]

theorem piecesFrom_of_closesFrom (h : ClosesFrom n text) : piecesFrom n text = .ok [text] := by
  induction text generalizing n with
  | nil =>
    obtain rfl : n = .start := h.ends
    rfl
  | cons c text ih =>
    rw [piecesFrom_cons_of_closesFrom h, ih (closesFrom_cons.1 h).2.2]
    rfl

/-- A comma ends a closed piece. -/
theorem piecesFrom_append_comma (h : ClosesFrom n text) (rest : List Char) :
    piecesFrom n (text ++ ',' :: rest) = (piecesFrom .start rest).map (text :: ·) := by
  induction text generalizing n with
  | nil =>
    obtain rfl : n = .start := h.ends
    rw [List.nil_append, piecesFrom_cons isSound_start, if_neg (by decide), if_pos ⟨rfl, rfl⟩]
  | cons c text ih =>
    rw [List.cons_append, piecesFrom_cons_of_closesFrom h, ih (closesFrom_cons.1 h).2.2]
    cases piecesFrom .start rest <;> rfl

theorem piecesFrom_of_cutFrom {ps : List (List Char)} (h : CutFrom n ps list) :
    piecesFrom n list = .ok ps := by
  induction ps generalizing n list with
  | nil => exact h.elim
  | cons piece others ih =>
    by_cases hothers : others = []
    · subst hothers
      obtain ⟨rfl, hpiece⟩ := h
      exact piecesFrom_of_closesFrom hpiece
    · obtain ⟨rest, rfl, hpiece, hrest⟩ := (cutFrom_cons hothers).1 h
      rw [piecesFrom_append_comma hpiece, ih hrest]
      rfl

theorem piecesFrom_eq_ok_iff {ps : List (List Char)} (hn : n.IsSound) :
    piecesFrom n list = .ok ps ↔ CutFrom n ps list :=
  ⟨cutFrom_of_piecesFrom hn, piecesFrom_of_cutFrom⟩

/-- A closed text is a list of one piece. -/
theorem isClosed_iff : IsClosed text ↔ piecesFrom .start text = .ok [text] := by
  rw [piecesFrom_eq_ok_iff isSound_start]
  exact ⟨fun h => ⟨rfl, h⟩, And.right⟩

instance : DecidablePred IsClosed := fun _ => decidable_of_iff _ isClosed_iff.symm

/-- Splitting succeeds exactly when no bracket closes what is not open and nothing is open at the
end. -/
theorem exists_piecesFrom_iff (hn : n.IsSound) :
    (∃ ps, piecesFrom n list = .ok ps) ↔ n.IsNested list ∧ n.run list = .start := by
  induction list generalizing n with
  | nil => rw [piecesFrom_nil hn, isNested_nil, run_nil, and_iff_right hn]
  | cons c list ih =>
    rw [piecesFrom_cons hn, isNested_cons, and_iff_right hn, run_cons]
    by_cases hnext : (n.next c).IsSound
    · rw [if_neg (not_not.2 hnext), ← ih hnext]
      split
      · rename_i hcomma
        obtain ⟨rfl, rfl⟩ := hcomma
        have hstart : start.next ',' = start := rfl
        simp only [map_eq_ok_iff, hstart]
        exact ⟨fun ⟨_, qs, hqs, _⟩ => ⟨qs, hqs⟩, fun ⟨qs, hqs⟩ => ⟨_, qs, hqs, rfl⟩⟩
      · simp only [map_eq_ok_iff]
        exact ⟨fun ⟨_, qs, hqs, _⟩ => ⟨qs, hqs⟩, fun ⟨qs, hqs⟩ => ⟨_, qs, hqs, rfl⟩⟩
    · rw [if_pos hnext]
      exact iff_of_false nofun fun h => hnext h.1.isSound

end ContractTests.Java
