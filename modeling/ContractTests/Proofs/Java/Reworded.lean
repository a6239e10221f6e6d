import ContractTests.Proofs.Java.Declaration
import ContractTests.Proofs.Java.ParameterList

/-! # Other words in literals

`Java.Reworded source source'` says that two texts are the same but for what their literals hold.
The scan for a declaration goes the same way through both as long as the name of the method is only
called in code (`parameterList?_reworded`): lists are closed at the same places
(`Reworded.argumentList?`), and whether a name is declared shows in the code next to it
(`isDeclaration_reworded`).
-/

set_option autoImplicit false

namespace ContractTests.Java

open Text Nesting

variable {c quote : Char} {u v s s' t t' text name before before' : List Char} {state : Lexical}

/-! ## Reworded texts -/

/-- No literal begins in the text. -/
def IsCode (text : List Char) : Prop := ∀ c ∈ text, isQuote c = false

instance : DecidablePred IsCode := fun text =>
  decidable_of_iff (text.all (!isQuote ·) = true) (by simp [IsCode])

theorem isCode_of_isBlankText (h : IsBlankText text) : IsCode text := fun c hc =>
  isQuote_of_isBlank (h c hc)

/-- The texts are the same but for what stands in their literals. A literal that is not closed goes on
to the end of the text, and is the same in both. -/
inductive Reworded : List Char → List Char → Prop
  | nil : Reworded [] []
  | code {c : Char} {s s' : List Char} (hcode : isQuote c = false) (h : Reworded s s') :
      Reworded (c :: s) (c :: s')
  | literal {quote : Char} {content content' s s' : List Char} (hquote : isQuote quote = true)
      (hcontent : IsContent quote content) (hcontent' : IsContent quote content')
      (h : Reworded s s') :
      Reworded (literalText quote content ++ s) (literalText quote content' ++ s')
  | unclosed {quote : Char} {text : List Char} (hquote : isQuote quote = true)
      (hopen : (Lexical.literal quote).StaysOpen text) :
      Reworded (quote :: text) (quote :: text)

/-- A literal is closed by a quote of its kind, or goes on to the end of the text. -/
theorem exists_content_or_staysOpen (quote : Char) (text : List Char) :
    (∃ content rest, IsContent quote content ∧ text = content ++ quote :: rest) ∨
      (Lexical.literal quote).StaysOpen text := by
  induction hlength : text.length using Nat.strongRecOn generalizing text with
  | _ length ih =>
    match text with
    | [] => exact .inr (Lexical.staysOpen_nil.2 nofun)
    | c :: text =>
      rw [List.length_cons] at hlength
      by_cases hquote : c = quote
      · subst hquote
        exact .inl ⟨[], text, .nil, rfl⟩
      by_cases hbackslash : c = '\\'
      · subst hbackslash
        match text with
        | [] => exact .inr (Lexical.staysOpen_cons.2 ⟨nofun, Lexical.staysOpen_nil.2 nofun⟩)
        | d :: text =>
          rw [List.length_cons] at hlength
          rcases ih text.length (by omega) text rfl with ⟨content, rest, hcontent, rfl⟩ | hopen
          · exact .inl ⟨'\\' :: d :: content, rest, .escape d hcontent, rfl⟩
          · exact .inr (Lexical.staysOpen_cons.2 ⟨nofun, Lexical.staysOpen_cons.2 ⟨nofun, hopen⟩⟩)
      · rcases ih text.length (by omega) text rfl with ⟨content, rest, hcontent, rfl⟩ | hopen
        · exact .inl ⟨c :: content, rest, .char hquote hbackslash hcontent, rfl⟩
        · refine .inr (Lexical.staysOpen_cons.2 ⟨nofun, ?_⟩)
          rwa [Lexical.next_char hquote hbackslash]

namespace Reworded

/-- Every text is made of code and literals. -/
theorem refl (text : List Char) : Reworded text text := by
  induction hlength : text.length using Nat.strongRecOn generalizing text with
  | _ length ih =>
    cases text with
    | nil => exact .nil
    | cons c text =>
      rw [List.length_cons] at hlength
      cases hquote : isQuote c with
      | false => exact .code hquote (ih text.length (by omega) text rfl)
      | true =>
        rcases exists_content_or_staysOpen c text with ⟨content, rest, hcontent, rfl⟩ | hopen
        · rw [List.length_append, List.length_cons] at hlength
          have hrest := Reworded.literal hquote hcontent hcontent (ih rest.length (by omega) rest rfl)
          simpa [literalText] using hrest
        · exact .unclosed hquote hopen

theorem symm (h : Reworded s s') : Reworded s' s := by
  induction h with
  | nil => exact .nil
  | code hcode _ ih => exact .code hcode ih
  | literal hquote hcontent hcontent' _ ih => exact .literal hquote hcontent' hcontent ih
  | unclosed hquote hopen => exact .unclosed hquote hopen

theorem head?_eq (h : Reworded s s') : s.head? = s'.head? := by
  cases h <;> rfl

/-- What follows a character of code is reworded by itself. -/
theorem of_cons (h : Reworded (c :: s) s') (hc : isQuote c = false) :
    ∃ t, s' = c :: t ∧ Reworded s t := by
  have hne {quote : Char} (hquote : isQuote quote = true) : quote ≠ c := ne_of_isQuote hquote hc
  generalize hs : c :: s = text at h
  cases h with
  | nil => cases hs
  | code hcode h =>
    cases hs
    exact ⟨_, rfl, h⟩
  | literal hquote hcontent hcontent' h => exact absurd (List.cons.inj hs).1.symm (hne hquote)
  | unclosed hquote hopen => exact absurd (List.cons.inj hs).1.symm (hne hquote)

/-- Code stays as it is. -/
theorem of_append (h : Reworded (u ++ v) s') (hu : IsCode u) :
    ∃ t, s' = u ++ t ∧ Reworded v t := by
  induction u generalizing s' with
  | nil => exact ⟨s', rfl, h⟩
  | cons c u ih =>
    obtain ⟨hc, hu⟩ := List.forall_mem_cons.1 hu
    obtain ⟨t, rfl, ht⟩ := of_cons h hc
    obtain ⟨t', rfl, ht'⟩ := ih ht hu
    exact ⟨t', rfl, ht'⟩

theorem eq_of_code (h : Reworded s s') (hs : IsCode s) : s = s' := by
  rw [← List.append_nil s] at h
  obtain ⟨t, rfl, ht⟩ := h.of_append hs
  cases ht
  rw [List.append_nil]

theorem isPrefixOf_eq (h : Reworded s s') (hu : IsCode u) :
    u.isPrefixOf s = u.isPrefixOf s' := by
  have himp {s s' : List Char} (h : Reworded s s') (hbegins : u <+: s) : u <+: s' := by
    obtain ⟨v, rfl⟩ := hbegins
    obtain ⟨t, rfl, -⟩ := h.of_append hu
    exact List.prefix_append u t
  rw [Bool.eq_iff_iff, List.isPrefixOf_iff_prefix, List.isPrefixOf_iff_prefix]
  exact ⟨himp h, himp h.symm⟩

theorem dropWhile {p : Char → Bool} (hp : ∀ c, isQuote c = true → p c = false)
    (h : Reworded s s') : Reworded (s.dropWhile p) (s'.dropWhile p) := by
  induction h with
  | nil => exact .nil
  | @code c s s' hcode h ih =>
    cases hc : p c with
    | true => rwa [List.dropWhile_cons_of_pos hc, List.dropWhile_cons_of_pos hc]
    | false =>
      rw [List.dropWhile_cons_of_neg (by simp [hc]), List.dropWhile_cons_of_neg (by simp [hc])]
      exact .code hcode h
  | @literal quote _ _ _ _ hquote hcontent hcontent' h =>
    have hstays (content text : List Char) :
        (literalText quote content ++ text).dropWhile p = literalText quote content ++ text :=
      List.dropWhile_cons_of_neg (by simp [hp quote hquote])
    rw [hstays, hstays]
    exact .literal hquote hcontent hcontent' h
  | unclosed hquote hopen =>
    rw [List.dropWhile_cons_of_neg (by simp [hp _ hquote])]
    exact .unclosed hquote hopen

theorem trimStart (h : Reworded s s') : Reworded (trimStart s) (trimStart s') :=
  h.dropWhile fun _ hquote => isBlank_of_isQuote hquote

end Reworded

/-! ## Lists -/

theorem argumentList?_code (hc : isQuote c = false) (depth : Nat) (text : List Char) :
    argumentList? depth .code (c :: text) =
      let deeper (depth : Nat) := (argumentList? depth .code text).map fun p => (c :: p.1, p.2)
      if c = '(' then deeper (depth + 1)
      else if c = ')' then
        match depth with
        | 0 => some ([], text)
        | depth + 1 => deeper depth
      else deeper depth := by
  by_cases hopen : c = '('
  · subst hopen
    rfl
  by_cases hclose : c = ')'
  · subst hclose
    cases depth <;> rfl
  have hcovers : Lexical.code.covers c = false := hc
  rw [argumentList?.eq_def]
  simp [hcovers, Lexical.next_code hc, hopen, hclose]

/-- A list that is not closed when a literal begins that is not closed. -/
theorem argumentList?_of_staysOpen (h : state.StaysOpen text) (depth : Nat) :
    argumentList? depth state text = none := by
  induction text generalizing state with
  | nil => rfl
  | cons c text ih =>
    obtain ⟨hstate, htext⟩ := Lexical.staysOpen_cons.1 h
    rw [argumentList?_of_covers (Lexical.covers_of_ne_code hstate c), ih htext]
    rfl

theorem rel_map {α β γ δ : Type} {R : α → β → Prop} {S : γ → δ → Prop} {f : α → γ} {g : β → δ}
    {x : Option α} {y : Option β} (h : Option.Rel R x y) (hf : ∀ a b, R a b → S (f a) (g b)) :
    Option.Rel S (x.map f) (y.map g) := by
  cases h with
  | some h => exact .some (hf _ _ h)
  | none => exact .none

/-- Lists are closed at the same places. -/
theorem Reworded.argumentList? (h : Reworded s s') (depth : Nat) :
    Option.Rel (fun p q => Reworded p.1 q.1 ∧ Reworded p.2 q.2)
      (argumentList? depth .code s) (argumentList? depth .code s') := by
  induction h generalizing depth with
  | nil => exact .none
  | @code c s s' hcode h ih =>
    rw [argumentList?_code hcode, argumentList?_code hcode]
    have deeper (depth : Nat) :=
      rel_map (f := fun p => (c :: p.1, p.2)) (g := fun p => (c :: p.1, p.2)) (ih depth)
        (S := fun p q => Reworded p.1 q.1 ∧ Reworded p.2 q.2)
        fun p q hpq => ⟨.code hcode hpq.1, hpq.2⟩
    dsimp only
    split
    · exact deeper (depth + 1)
    split
    · cases depth with
      | zero => exact .some ⟨.nil, h⟩
      | succ depth => exact deeper depth
    · exact deeper depth
  | literal hquote hcontent hcontent' h ih =>
    rw [argumentList?_literal hquote hcontent, argumentList?_literal hquote hcontent']
    exact rel_map (ih depth) fun p q hpq =>
      ⟨.literal hquote hcontent hcontent' hpq.1, hpq.2⟩
  | @unclosed quote text hquote hopen =>
    have hcovers : Lexical.code.covers quote = true := hquote
    rw [argumentList?_of_covers hcovers, Lexical.next_quote hquote, argumentList?_of_staysOpen hopen]
    exact .none

/-! ## Declarations -/

/-- Reversed texts that are the same back to their last quote. -/
inductive SameEnd : List Char → List Char → Prop
  | nil : SameEnd [] []
  | quote {c : Char} (hquote : isQuote c = true) (before before' : List Char) :
      SameEnd (c :: before) (c :: before')
  | cons (c : Char) {before before' : List Char} (h : SameEnd before before') :
      SameEnd (c :: before) (c :: before')

namespace SameEnd

theorem append (h : SameEnd before before') (text : List Char) :
    SameEnd (text ++ before) (text ++ before') := by
  induction text with
  | nil => exact h
  | cons c text ih => exact .cons c ih

theorem head?_eq (h : SameEnd before before') : before.head? = before'.head? := by
  cases h <;> rfl

theorem trimStart (h : SameEnd before before') :
    SameEnd (trimStart before) (trimStart before') := by
  induction h with
  | nil => exact .nil
  | quote hquote before before' =>
    have hblank := isBlank_of_isQuote hquote
    rw [trimStart_cons hblank, trimStart_cons hblank]
    exact .quote hquote before before'
  | cons c h ih =>
    cases hc : isBlank c with
    | true => rwa [trimStart_cons_of_blank hc, trimStart_cons_of_blank hc]
    | false =>
      rw [trimStart_cons hc, trimStart_cons hc]
      exact .cons c h

theorem takeWhile_eq (h : SameEnd before before') :
    before.takeWhile isIdentifierChar = before'.takeWhile isIdentifierChar := by
  induction h with
  | nil => rfl
  | quote hquote before before' =>
    have hword : isIdentifierChar _ = false :=
      eq_false_of_isQuote hquote (by decide) (by decide)
    rw [List.takeWhile_cons_of_neg (by simp [hword]), List.takeWhile_cons_of_neg (by simp [hword])]
  | cons c h ih => rw [List.takeWhile_cons, List.takeWhile_cons, ih]

end SameEnd

/-- Whether a name is declared shows in the code next to it. -/
theorem isDeclaration_reworded (hbefore : SameEnd before before') (h : Reworded s s') :
    isDeclaration before s = isDeclaration before' s' := by
  have hthrows : IsCode "throws".toList := by decide
  unfold isDeclaration
  dsimp only
  rw [hbefore.trimStart.takeWhile_eq, hbefore.trimStart.head?_eq, h.trimStart.head?_eq,
    h.trimStart.isPrefixOf_eq hthrows]

/-! ## The scan for a declaration -/

/-- Wherever the name begins in the text after `before` and a list follows it, all of the name
stands in code. -/
def CalledInCode (name before text : List Char) : Prop :=
  ∀ u v, text = u ++ name ++ v → StartsName (u.reverse ++ before) →
    (trimStart v).head? = some '(' → Lexical.code.run u = .code ∧ IsCode name

instance (name before text : List Char) : Decidable (CalledInCode name before text) :=
  decidable_of_iff (∀ k < text.length + 1, name <+: text.drop k →
      StartsName ((text.take k).reverse ++ before) →
      (trimStart ((text.drop k).drop name.length)).head? = some '(' →
      Lexical.code.run (text.take k) = .code ∧ IsCode name) <| by
    constructor
    · rintro h u v rfl hstarts hlist
      simpa using h u.length (by simp only [List.length_append]; omega) (by simp)
        (by simpa using hstarts) (by simpa using hlist)
    · rintro h k - ⟨v, hv⟩ hstarts hlist
      rw [← hv, List.drop_left] at hlist
      refine h (text.take k) v ?_ hstarts hlist
      rw [List.append_assoc, hv, List.take_append_drop]

theorem CalledInCode.of_append (h : CalledInCode name before (u ++ v))
    (hu : Lexical.code.run u = .code) : CalledInCode name (u.reverse ++ before) v := by
  rintro w x rfl hstarts hlist
  have hbefore : w.reverse ++ (u.reverse ++ before) = (u ++ w).reverse ++ before := by simp
  rw [hbefore] at hstarts
  obtain ⟨hrun, hname⟩ := h (u ++ w) x (by simp) hstarts hlist
  rw [Lexical.run_append, hu] at hrun
  exact ⟨hrun, hname⟩

/-- Where no list follows the name there is no declaration. -/
theorem parameterList?_eq_none (hname : name ≠ [])
    (h : ∀ u v, text = u ++ name ++ v → StartsName (u.reverse ++ before) →
      (trimStart v).head? ≠ some '(') : parameterList? name before 0 text = .ok none := by
  have hpasses : PassesOver name before text [] := by
    refine passesOver_of_ends hname (fun v _ _ hv => by rwa [List.append_nil] at hv) fun u v huv => ?_
    by_cases hstarts : StartsName (u.reverse ++ before)
    · refine .inr fun list hlist => absurd (congrArg List.head? hlist) ?_
      rw [List.append_nil]
      exact h u v huv hstarts
    · exact .inl hstarts
  rw [PassesOver, List.append_nil] at hpasses
  rw [hpasses]
  rfl

/-- A literal in which the name is not called does not matter to the scan. -/
theorem passesOver_literal (hname : name ≠ []) (hcode : IsCode name)
    (hquote : isQuote quote = true) (hcontent : IsContent quote text)
    (hcalls : CalledInCode name before (literalText quote text ++ s)) :
    PassesOver name before (literalText quote text) s := by
  have hmem : quote ∉ name := fun h => ne_of_isQuote hquote (hcode quote h) rfl
  refine passesOver_of_ends hname (fun v hv hne hbegins => ?_) fun u v huv => ?_
  · -- the closing quote is the last character of `v`
    obtain ⟨w, rfl⟩ : ∃ w, v = w ++ [quote] := by
      obtain ⟨w, d, rfl⟩ := (List.eq_nil_or_concat' v).resolve_left hne
      obtain ⟨u, hu⟩ := hv
      rw [literalText, ← List.append_assoc, ← List.cons_append] at hu
      exact ⟨w, by rw [(List.append_inj_right' hu rfl : [d] = [quote])]⟩
    obtain ⟨r, hr⟩ := hbegins
    rw [List.append_assoc, List.singleton_append] at hr
    rcases List.append_eq_append_iff.1 hr with ⟨x, rfl, -⟩ | ⟨x, rfl, hx⟩
    · rw [List.append_assoc]
      exact List.prefix_append name _
    · cases x with
      | nil => simp
      | cons d x =>
        obtain ⟨rfl, -⟩ := List.cons.inj hx
        exact absurd (List.mem_append_right w List.mem_cons_self) hmem
  · by_cases hstarts : StartsName (u.reverse ++ before)
    case neg => exact .inl hstarts
    refine .inr fun list hlist => ?_
    obtain ⟨hrun, -⟩ := hcalls u (v ++ s) (by rw [huv]; simp) hstarts (by rw [hlist]; rfl)
    obtain ⟨c, name', rfl⟩ := List.exists_cons_of_ne_nil hname
    have hcovers := (run_literal hquote hcontent (u := u) (c := c) (v := name' ++ v)
      (by rw [huv]; simp)).1
    rw [hrun] at hcovers
    exact absurd rfl (ne_of_isQuote hcovers (hcode c List.mem_cons_self))

theorem run_of_code (h : IsCode text) : Lexical.code.run text = .code := by
  induction text with
  | nil => rfl
  | cons c text ih =>
    obtain ⟨hc, htext⟩ := List.forall_mem_cons.1 h
    rw [Lexical.run_cons, Lexical.next_code hc, ih htext]

theorem run_literalText (hquote : isQuote quote = true) (hcontent : IsContent quote text) :
    Lexical.code.run (literalText quote text) = .code := by
  rw [literalText, Lexical.run_cons, Lexical.next_quote hquote, Lexical.run_append, hcontent.run_eq,
    Lexical.run_cons, Lexical.next_closing hquote, Lexical.run_nil]

/-- Both fail, or both succeed and the results are related. -/
inductive Together {ε α β : Type} (R : α → β → Prop) : Except ε α → Except ε β → Prop
  | error (e e' : ε) : Together R (.error e) (.error e')
  | ok {a : α} {b : β} (h : R a b) : Together R (.ok a) (.ok b)

/-- The scan ends at a name in both texts or in none. -/
theorem parameterList?_name_reworded (hname : name ≠ []) (h : Reworded s s')
    (hbefore : SameEnd before before')
    (hrest : Together (Option.Rel Reworded) (parameterList? name (name.reverse ++ before) 0 s)
      (parameterList? name (name.reverse ++ before') 0 s')) :
    Together (Option.Rel Reworded) (parameterList? name before 0 (name ++ s))
      (parameterList? name before' 0 (name ++ s')) := by
  have htrim := h.trimStart
  rw [parameterList?_name hname, parameterList?_name hname, hbefore.head?_eq]
  split
  · rename_i list hisName hlist
    obtain ⟨list', hlist', hreworded⟩ := Reworded.of_cons (hlist ▸ htrim) (by decide)
    simp only [hisName, hlist']
    have hlists := hreworded.argumentList? 0
    generalize Java.argumentList? 0 .code list = found at hlists ⊢
    generalize Java.argumentList? 0 .code list' = found' at hlists ⊢
    cases hlists with
    | none => exact .error _ _
    | some hparts =>
      obtain ⟨hparameters, hafter⟩ := hparts
      dsimp only
      rw [isDeclaration_reworded hbefore hafter]
      split
      · exact .ok (.some hparameters)
      · exact hrest
  · rename_i hother
    split
    · rename_i list' hisName hlist'
      obtain ⟨list, hlist, -⟩ := Reworded.of_cons (hlist' ▸ htrim.symm) (by decide)
      exact absurd hlist (hother list hisName)
    · exact hrest

theorem parameterList?_reworded_of_code (hname : name ≠ []) (hcode : IsCode name)
    (h : Reworded s s') (hs : CalledInCode name before s) (hs' : CalledInCode name before' s')
    (hbefore : SameEnd before before') :
    Together (Option.Rel Reworded) (parameterList? name before 0 s)
      (parameterList? name before' 0 s') := by
  induction hlength : s.length using Nat.strongRecOn generalizing s s' before before' with
  | _ length ih =>
    cases h with
    | nil => exact .ok .none
    | @code c s s' hc h =>
      have hrun : Lexical.code.run [c] = .code := Lexical.next_code hc
      by_cases hbegins : name <+: c :: s
      · obtain ⟨r, hr⟩ := hbegins
        have hreworded : Reworded (name ++ r) (c :: s') := by
          rw [hr]
          exact .code hc h
        obtain ⟨r', hr', hrest⟩ := hreworded.of_append hcode
        have hrun : Lexical.code.run name = .code := run_of_code hcode
        rw [← hr] at hs
        rw [hr'] at hs'
        rw [← hr, hr']
        refine parameterList?_name_reworded hname hrest hbefore (ih r.length ?_ hrest
          (hs.of_append hrun) (hs'.of_append hrun) (hbefore.append _) rfl)
        have hpos := List.length_pos_iff.2 hname
        rw [← hlength, ← hr, List.length_append]
        omega
      · have hbegins' : ¬ name <+: c :: s' := by
          rw [← List.isPrefixOf_iff_prefix, ← (Reworded.code hc h).isPrefixOf_eq hcode,
            List.isPrefixOf_iff_prefix]
          exact hbegins
        have hfirst : PassesOver name before [c] s := parameterList?_of_not_prefix hbegins
        have hfirst' : PassesOver name before' [c] s' := parameterList?_of_not_prefix hbegins'
        rw [PassesOver, List.singleton_append] at hfirst hfirst'
        rw [hfirst, hfirst']
        refine ih s.length ?_ h (hs.of_append (u := [c]) hrun) (hs'.of_append (u := [c]) hrun)
          (hbefore.append _) rfl
        rw [← hlength]
        exact Nat.lt_succ_self _
    | @literal quote content content' s s' hquote hcontent hcontent' h =>
      rw [passesOver_literal hname hcode hquote hcontent hs,
        passesOver_literal hname hcode hquote hcontent' hs']
      have hend : SameEnd ((literalText quote content).reverse ++ before)
          ((literalText quote content').reverse ++ before') := by
        simpa [literalText] using SameEnd.quote hquote _ _
      refine ih s.length ?_ h (hs.of_append (run_literalText hquote hcontent))
        (hs'.of_append (run_literalText hquote hcontent')) hend rfl
      rw [← hlength, literalText, List.cons_append, List.length_cons, List.length_append]
      omega
    | @unclosed quote text hquote hopen =>
      have hnone {before : List Char} (hs : CalledInCode name before (quote :: text))
          (u v : List Char) (huv : quote :: text = u ++ name ++ v)
          (hstarts : StartsName (u.reverse ++ before)) :
          (trimStart v).head? ≠ some '(' := fun hlist => by
        obtain ⟨hrun, -⟩ := hs u v huv hstarts hlist
        cases u with
        | nil =>
          obtain ⟨c, name', rfl⟩ := List.exists_cons_of_ne_nil hname
          obtain ⟨rfl, -⟩ := List.cons.inj huv
          exact ne_of_isQuote hquote (hcode quote List.mem_cons_self) rfl
        | cons d u =>
          obtain ⟨rfl, rfl⟩ := List.cons.inj huv
          rw [Lexical.run_cons, Lexical.next_quote hquote] at hrun
          exact hopen u ⟨name ++ v, by simp⟩ hrun
      rw [parameterList?_eq_none hname (hnone hs), parameterList?_eq_none hname (hnone hs')]
      exact .ok .none

/-- The scan goes the same way through a reworded text, when the name is not called in literals. -/
theorem parameterList?_reworded (hname : name ≠ []) (h : Reworded s s')
    (hs : CalledInCode name before s) (hs' : CalledInCode name before' s')
    (hbefore : SameEnd before before') :
    Together (Option.Rel Reworded) (parameterList? name before 0 s)
      (parameterList? name before' 0 s') := by
  by_cases hcode : IsCode name
  · exact parameterList?_reworded_of_code hname hcode h hs hs' hbefore
  · -- a name with a quote is called nowhere
    have hnone {before text : List Char} (htext : CalledInCode name before text)
        (u v : List Char) (huv : text = u ++ name ++ v)
        (hstarts : StartsName (u.reverse ++ before)) : (trimStart v).head? ≠ some '(' :=
      fun hlist => hcode (htext u v huv hstarts hlist).2
    rw [parameterList?_eq_none hname (hnone hs), parameterList?_eq_none hname (hnone hs')]
    exact .ok .none

end ContractTests.Java
