import ContractTests.Java.Expression
import ContractTests.Proofs.Java.Reading
import ContractTests.Proofs.Java.Words
import Mathlib.Data.List.TakeWhile

/-! # The class that is written for an interface

For a collection interface another class is written, with the type arguments of the interface: the
name of the type up to its first angle bracket is replaced. The result is cut into the tokens of a
class again (`Java.lexes_implementationName`), since the tokens from the bracket on are the same,
and what is open before the bracket is a name.
-/

set_option autoImplicit false

namespace ContractTests.Java

variable {α : Alphabet} {s : Scan} {a b : List Char} {c : Char} {ts us : List Token} {t : Token}

/-! ## Up to the first angle bracket -/

/-- Whether a literal with quotes has begun, or ended with the last character. -/
def Scan.isLiteral : Scan → Bool
  | .string _ => true
  | .escape _ => true
  | .unicode _ _ => true
  | .quoted _ => true
  | _ => false

/-- A token stays of its kind. -/
theorem Scan.next_cases {s' : Scan} (h : s.next α c = some s') :
    (∃ text, s = .word text ∧ s' = .word (text ++ [c])) ∨
    (∃ text, s = .number text ∧ s' = .number (text ++ [c])) ∨
    (∃ text, s = .symbol text ∧ s' = .symbol (text ++ [c])) ∨
    (s.isLiteral = true ∧ s'.isLiteral = true) := by
  cases s with
  | between => cases h
  | quoted text => cases h
  | word text =>
    obtain ⟨-, h⟩ := Option.ite_none_right_eq_some.1 h
    exact .inl ⟨text, rfl, (Option.some.inj h).symm⟩
  | number text =>
    obtain ⟨-, h⟩ := Option.ite_none_right_eq_some.1 h
    exact .inr (.inl ⟨text, rfl, (Option.some.inj h).symm⟩)
  | symbol text =>
    obtain ⟨-, h⟩ := Option.ite_none_right_eq_some.1 h
    exact .inr (.inr (.inl ⟨text, rfl, (Option.some.inj h).symm⟩))
  | string text =>
    refine .inr (.inr (.inr ⟨rfl, ?_⟩))
    simp only [next] at h
    split at h
    · cases h; rfl
    split at h
    · cases h; rfl
    split at h <;> cases h
    rfl
  | escape text =>
    refine .inr (.inr (.inr ⟨rfl, ?_⟩))
    simp only [next] at h
    split at h
    · cases h; rfl
    split at h <;> cases h
    rfl
  | unicode text digits =>
    refine .inr (.inr (.inr ⟨rfl, ?_⟩))
    simp only [next] at h
    split at h
    · cases h
    split at h <;> cases h <;> rfl

theorem exists_literal_of_tokens? (hs : s.isLiteral = true) (h : s.tokens? = some ts) :
    ∃ text, .literal text ∈ ts := by
  cases s with
  | quoted text =>
    cases h
    exact ⟨_, List.mem_singleton_self _⟩
  | string text => cases h
  | escape text => cases h
  | unicode text digits => cases h
  | _ => cases hs

/-- A literal that has begun is among the tokens. -/
theorem exists_literal_of_lexFrom (hs : s.isLiteral = true) (h : lexFrom α s b = some ts) :
    ∃ text, .literal text ∈ ts := by
  induction b generalizing s with
  | nil => exact exists_literal_of_tokens? hs h
  | cons c b ih =>
    rw [lexFrom] at h
    split at h
    · rename_i s' hnext
      rcases Scan.next_cases hnext with ⟨_, rfl, -⟩ | ⟨_, rfl, -⟩ | ⟨_, rfl, -⟩ | ⟨-, hs'⟩
      · cases hs
      · cases hs
      · cases hs
      · exact ih hs' h
    · simp only [Option.bind_eq_bind, Option.bind_eq_some_iff] at h
      obtain ⟨token, htoken, s', -, us, -, hts⟩ := h
      cases hts
      obtain ⟨text, htext⟩ := exists_literal_of_tokens? hs htoken
      exact ⟨text, List.mem_append_left _ htext⟩

/-- The scan is not inside an operator with an angle bracket. -/
def Scan.IsBeforeAngle (s : Scan) : Prop := ∀ text, s = .symbol text → text ≠ [] ∧ '<' ∉ text

theorem Scan.IsBeforeAngle.next {s' : Scan} (hs : s.IsBeforeAngle) (hc : c ≠ '<')
    (h : s.next α c = some s') : s'.IsBeforeAngle := by
  rintro text rfl
  rcases next_cases h with ⟨_, -, h'⟩ | ⟨_, -, h'⟩ | ⟨x, rfl, h'⟩ | ⟨-, h'⟩
  · cases h'
  · cases h'
  · cases h'
    exact ⟨by simp, by simp [(hs x rfl).2, Ne.symm hc]⟩
  · cases h'

theorem Scan.IsBeforeAngle.start {s' : Scan} (hc : c ≠ '<') (h : start? α c = some s') :
    s'.IsBeforeAngle := by
  rintro text rfl
  simp only [start?] at h
  split at h
  · cases h
  split at h
  · cases h
    simpa using Ne.symm hc
  split at h
  · cases h
  split at h
  · cases h
  split at h <;> cases h

theorem Scan.IsBeforeAngle.tokens? (hs : s.IsBeforeAngle) (h : s.tokens? = some ts) :
    .operator .less ∉ ts := by
  cases s with
  | symbol text =>
    obtain ⟨t, ht, rfl⟩ := Option.map_eq_some_iff.1 h
    obtain ⟨p, hp, rfl⟩ := Option.map_eq_some_iff.1 ht
    have hall : ∀ p ∈ symbols, p.2 = .operator .less → '<' ∈ p.1 := by decide
    intro hmem
    have hkey : p.1 = text := by simpa using List.find?_some hp
    have hangle := hall p (List.mem_of_find?_eq_some hp) (List.mem_singleton.1 hmem).symm
    exact (hs text rfl).2 (hkey ▸ hangle)
  | word text =>
    cases h
    rw [List.mem_singleton, wordToken]
    split
    · simp
    · split <;> simp
  | _ => cases h <;> simp

theorem Scan.IsBeforeAngle.next_angle (hs : s.IsBeforeAngle) (hliteral : s.isLiteral = false) :
    s.next α '<' = none := by
  cases s with
  | symbol text =>
    have hall : ∀ x ∈ symbols.map (·.1) ++ otherSymbols,
        x.getLast? = some '<' → x = ['<'] ∨ '<' ∈ x.dropLast := by decide
    obtain ⟨hne, hangle⟩ := hs text rfl
    have hsymbol : isSymbol (text ++ ['<']) = false := by
      rw [Bool.eq_false_iff]
      intro h
      rcases hall _ (mem_of_isSymbol h) (by simp) with h | h
      · exact hne (by simpa using h)
      · exact hangle (by simpa using h)
    simp [Scan.next, hsymbol]
  | word text =>
    have hpart : α.isPart '<' = false := α.part_printable '<' (by decide) (by decide)
    simp [Scan.next, hpart]
  | number text =>
    have hnumber : goesOn text '<' = false := Bool.and_eq_false_iff.2 (.inr rfl)
    simp [Scan.next, hnumber]
  | between => rfl
  | _ => cases hliteral

/-- A text without literals is cut at its first angle bracket. -/
theorem exists_of_lexFrom_angle (hs : s.IsBeforeAngle) (ha : '<' ∉ a)
    (h : lexFrom α s (a ++ '<' :: b) = some ts) (hts : ∀ text, .literal text ∉ ts) :
    ∃ us vs, ts = us ++ vs ∧ .operator .less ∉ us ∧ Lexes α ('<' :: b) vs := by
  induction a generalizing s ts with
  | nil =>
    have hliteral : s.isLiteral = false := by
      rw [Bool.eq_false_iff]
      exact fun hs' => (exists_literal_of_lexFrom hs' h).elim fun text => hts text
    rw [List.nil_append, lexFrom] at h
    simp only [hs.next_angle hliteral, Option.bind_eq_bind, Option.bind_eq_some_iff] at h
    obtain ⟨us, hus, s', hs', vs, hvs, heq⟩ := h
    refine ⟨us, vs, (Option.some.inj heq).symm, hs.tokens? hus, ?_⟩
    rw [Lexes, lex_cons, hs', Option.bind_some, hvs]
  | cons c a ih =>
    rw [List.mem_cons, not_or] at ha
    obtain ⟨hc, ha⟩ := ha
    rw [List.cons_append, lexFrom] at h
    split at h
    · rename_i s' hnext
      exact ih (hs.next (Ne.symm hc) hnext) ha h hts
    · simp only [Option.bind_eq_bind, Option.bind_eq_some_iff] at h
      obtain ⟨token, htoken, s', hs', tokens, htokens, heq⟩ := h
      cases heq
      obtain ⟨us, vs, rfl, hus, hvs⟩ := ih (.start (Ne.symm hc) hs') ha htokens fun text hmem =>
        hts text (List.mem_append_right _ hmem)
      refine ⟨token ++ us, vs, (List.append_assoc ..).symm, ?_, hvs⟩
      exact fun hmem => (List.mem_append.1 hmem).elim (hs.tokens? htoken) hus

theorem exists_of_lex_angle (ha : '<' ∉ a) (h : Lexes α (a ++ '<' :: b) ts)
    (hts : ∀ text, .literal text ∉ ts) :
    ∃ us vs, ts = us ++ vs ∧ .operator .less ∉ us ∧ Lexes α ('<' :: b) vs :=
  exists_of_lexFrom_angle (s := .between) nofun ha h hts

/-! ## Type arguments -/

theorem depth_le_of_next? {s s' : TypeState} {t : Token} (h : s.next? t = some s')
    (ht : t ≠ .operator .less) : s'.depth ≤ s.depth := by
  unfold TypeState.next? at h
  split at h
  -- the one case that opens an angle bracket
  case h_8 => exact absurd rfl ht
  all_goals first
    | (cases h; exact Nat.le_refl _)
    | (obtain ⟨-, h⟩ := Option.ite_none_right_eq_some.1 h; cases h; simp)
    | cases h

/-- Only an opening angle bracket leads into type arguments. -/
theorem depth_le_of_foldlM {s s' : TypeState} {ts : List Token}
    (h : ts.foldlM TypeState.next? s = some s') (hts : .operator .less ∉ ts) :
    s'.depth ≤ s.depth := by
  induction ts generalizing s with
  | nil =>
    cases h
    exact Nat.le_refl _
  | cons t ts ih =>
    rw [List.foldlM_cons] at h
    rw [List.mem_cons, not_or] at hts
    obtain ⟨s₁, hs₁, h⟩ := Option.bind_eq_some_iff.1 h
    exact Nat.le_trans (ih h hts.2) (depth_le_of_next? hs₁ (Ne.symm hts.1))

/-- The type arguments of a class are type arguments of every other class. -/
theorem typeEnd?_arguments {us vs : List Token} {t : Token} {s : TypeState} (name : String)
    (h : typeEnd? (us ++ t :: vs) = some s) (hus : .operator .less ∉ us)
    (ht : t = .operator .less ∨ t = .operator .lessEqual) :
    typeEnd? (.identifier name :: t :: vs) = some s := by
  rw [typeEnd?, List.foldlM_append] at h
  obtain ⟨⟨place, depth⟩, hplace, h⟩ := Option.bind_eq_some_iff.1 h
  obtain rfl : depth = 0 := Nat.le_zero.1 (depth_le_of_foldlM hplace hus)
  rw [List.foldlM_cons] at h
  obtain ⟨s₁, hs₁, h⟩ := Option.bind_eq_some_iff.1 h
  have hname : TypeState.next? ⟨.name, 0⟩ t = some s₁ := by
    rcases ht with rfl | rfl <;> cases place <;> first | exact hs₁ | cases hs₁
  have hstart : TypeState.next? ⟨.start, 0⟩ (.identifier name) = some ⟨.name, 0⟩ := rfl
  rw [typeEnd?, List.foldlM_cons, hstart]
  simp [hname, h]

/-- So an object can be made of every other class with the same type arguments or diamond. -/
theorem isCreatable_arguments {us vs : List Token} {t : Token} (name : String)
    (h : isCreatable (us ++ t :: vs) = true) (hus : .operator .less ∉ us)
    (ht : t = .operator .less ∨ t = .operator .lessEqual) :
    isCreatable (.identifier name :: t :: vs) = true := by
  have hends {p : TypePlace → Bool} {rest : List Token} (h : endsAt p (us ++ t :: rest) = true) :
      endsAt p (.identifier name :: t :: rest) = true := by
    obtain ⟨s, hs, hplace⟩ := (Option.any_eq_true _ _).1 h
    exact (Option.any_eq_true _ _).2 ⟨s, typeEnd?_arguments name hs hus ht, hplace⟩
  rcases isCreatable_iff.1 h with h | ⟨front, heq, hname⟩
  · exact isCreatable_iff.2 (.inl (hends h))
  refine isCreatable_iff.2 (.inr ?_)
  rcases List.append_eq_append_iff.1 heq with ⟨as, rfl, htail⟩ | ⟨bs, rfl, htail⟩
  · cases as with
    | nil => exact ⟨[.identifier name], by rw [htail]; rfl, rfl⟩
    | cons u as =>
      obtain ⟨rfl, rfl⟩ := List.cons.inj htail
      exact ⟨_, rfl, hends hname⟩
  · cases bs with
    | nil => exact ⟨[.identifier name], by rw [← List.nil_append (t :: vs), ← htail]; rfl, rfl⟩
    | cons u bs =>
      -- the diamond would begin before the first angle bracket
      obtain ⟨rfl, -⟩ := List.cons.inj htail
      exact absurd (List.mem_append_right _ List.mem_cons_self) hus

/-! ## Implementations -/

/-- The tokens of a type name. -/
def typeTokens (α : Alphabet) (type : String) : List Token := (lex α type.toList).getD []

/-- The class that is written for an interface. -/
def implementationName (type : String) : String :=
  JavaType.implementation type ++ (JavaType.genericArguments? type).getD "<>"

theorem lexes_typeTokens {type : String} {p : List Token → Bool}
    (h : (lex α type.toList).any p = true) :
    Lexes α type.toList (typeTokens α type) ∧ p (typeTokens α type) = true := by
  obtain ⟨ts, hts, hp⟩ := (Option.any_eq_true _ _).1 h
  rw [Lexes, typeTokens, hts]
  exact ⟨rfl, hp⟩

theorem implementation_of_isInterface {type : String} (h : isInterface type = true) :
    JavaType.implementation type ∈ ["HashSet", "HashMap", "ArrayList", "LinkedList"] := by
  rw [isInterface, Bool.and_eq_true, bne_iff_ne] at h
  revert h
  unfold JavaType.implementation
  split
  case h_7 => exact fun h => absurd rfl h.2
  all_goals exact fun _ => by decide

/-- What starts with an opening angle bracket starts with one of two operators. -/
theorem exists_of_lexes_angle {post : List Char} {ts : List Token} (h : Lexes α ('<' :: post) ts) :
    ∃ t us, ts = t :: us ∧ (t = .operator .less ∨ t = .operator .lessEqual) := by
  have hall : ∀ p ∈ symbols, p.1.head? = some '<' →
      p.2 = .operator .less ∨ p.2 = .operator .lessEqual := by decide
  have hscan : lexFrom α (.symbol ['<']) post = some ts := by
    rw [Lexes, lex_cons] at h
    exact h
  obtain ⟨y, t, us, ⟨v, rfl⟩, hy, rfl⟩ := exists_of_lexFrom_symbol hscan
  obtain ⟨p, hp, rfl⟩ := Option.map_eq_some_iff.1 hy
  have hkey : p.1 = ['<'] ++ v := by simpa using List.find?_some hp
  exact ⟨_, us, rfl, hall p (List.mem_of_find?_eq_some hp) (by rw [hkey]; rfl)⟩

/-- The class that is written for an interface has the type arguments of the interface. -/
theorem lexes_implementationName {type : String} {ts : List Token} (h : isInterface type = true)
    (hts : Lexes α type.toList ts) (hcreatable : isCreatable ts = true) :
    Lexes α (implementationName type).toList (typeTokens α (implementationName type)) ∧
      isCreatable (typeTokens α (implementationName type)) = true := by
  have himplementation := implementation_of_isInterface h
  generalize himpl : JavaType.implementation type = name at himplementation
  have hname : α.isIdentifier name = true := by
    simp only [List.mem_cons, List.not_mem_nil, or_false] at himplementation
    rcases himplementation with rfl | rfl | rfl | rfl <;>
      exact isIdentifier_of_ascii (by decide)
  suffices htarget : ∃ us, Lexes α (implementationName type).toList us ∧ isCreatable us = true by
    obtain ⟨us, hus, hcreatable⟩ := htarget
    exact lexes_typeTokens ((Option.any_eq_true _ _).2 ⟨us, hus, hcreatable⟩)
  have hlast : ∀ t ∈ [Token.identifier name].getLast?, t.isName = true := by
    rintro _ ⟨⟩
    rfl
  rw [implementationName, himpl, JavaType.genericArguments?]
  cases hdrop : type.toList.dropWhile (· != '<') with
  | nil =>
    have hdiamond : Lexes α ['<', '>'] diamond := rfl
    refine ⟨_, by simpa using (lexes_identifier hname).append_angle hdiamond hlast, rfl⟩
  | cons c post =>
    have hc : c = '<' := by
      have := List.head?_dropWhile_not (· != '<') type.toList
      simpa [hdrop] using this
    subst hc
    have hsplit : type.toList = type.toList.takeWhile (· != '<') ++ '<' :: post := by
      rw [← hdrop, List.takeWhile_append_dropWhile]
    have hpre : '<' ∉ type.toList.takeWhile (· != '<') := fun hmem => by
      simpa using List.mem_takeWhile_imp hmem
    rw [hsplit] at hts
    have hliteral : ∀ text, .literal text ∉ ts := fun text => by
      refine not_mem_of_isCreatable hcreatable (fun ⟨place, depth⟩ => ?_) (by simp [diamond])
      cases place <;> cases depth <;> rfl
    obtain ⟨us, vs, rfl, hus, hvs⟩ := exists_of_lex_angle hpre hts hliteral
    obtain ⟨t, vs, rfl, ht⟩ := exists_of_lexes_angle hvs
    exact ⟨_, by simpa using (lexes_identifier hname).append_angle hvs hlast,
      isCreatable_arguments name hcreatable hus ht⟩

end ContractTests.Java
