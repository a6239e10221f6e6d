import ContractTests.Proofs.Java.Reworded
import ContractTests.Proofs.Java.Signature
import Mathlib.Data.List.Forall2

/-! # What a signature depends on

Two sources that differ in what their literals hold have the same depths (`Reworded.run_eq`), so that
a list is split at the same commas (`parameterTexts_reworded`), and the same modifiers are taken off
(`stripModifiers_reworded`). A signature is then the same unless a type has a literal in it
(`signatureOf_reworded`). Comments are not told apart from code, so that the like does not hold of
what they say (`signatureOf_sameCode_ne`).
-/

set_option autoImplicit false

namespace ContractTests.Java

open Text Nesting

variable {c quote : Char} {u v s s' text : List Char} {state : Lexical} {n : Nesting}
  {parts : List (List Char)}

/-! ## Depths -/

/-- No depth changes in a literal. -/
theorem run_literalText_append (hquote : isQuote quote = true) (hcontent : IsContent quote text)
    (hn : n.state = .code) (rest : List Char) :
    n.run (literalText quote text ++ rest) = n.run rest ∧
      (n.IsNested (literalText quote text ++ rest) ↔ n.IsNested rest) := by
  obtain ⟨paren, angle, state⟩ := n
  obtain rfl : state = .code := hn
  have hopening : next ⟨paren, angle, .code⟩ quote = ⟨paren, angle, .literal quote⟩ := by
    have hcovers : Lexical.code.covers quote = true := hquote
    rw [next_of_covers hcovers, Lexical.next_quote hquote]
  have hclosing : next ⟨paren, angle, .literal quote⟩ quote = ⟨paren, angle, .code⟩ := by
    rw [next_of_covers rfl, Lexical.next_closing hquote]
  have hinside : run ⟨paren, angle, .literal quote⟩ text = ⟨paren, angle, .literal quote⟩ := by
    rw [run_staysOpen hcontent.staysOpen, hcontent.run_eq]
  have hnested (hsound : IsSound ⟨paren, angle, .code⟩) :
      IsNested ⟨paren, angle, .literal quote⟩ text := fun u hu => by
    rw [run_staysOpen fun w hw => hcontent.staysOpen w (hw.trans hu)]
    exact hsound
  rw [literalText, List.cons_append, List.append_assoc, List.singleton_append]
  refine ⟨by rw [run_cons, hopening, run_append, hinside, run_cons, hclosing], ?_⟩
  rw [isNested_cons, hopening, isNested_append, hinside, isNested_cons, hclosing]
  exact ⟨fun h => h.2.2.2, fun h => ⟨h.isSound, hnested h.isSound, h.isSound, h⟩⟩

namespace Reworded

theorem run_eq (h : Reworded s s') (hn : n.state = .code) : n.run s = n.run s' := by
  induction h generalizing n with
  | nil => rfl
  | code hcode _ ih =>
    refine ih ?_
    rw [state_next, hn, Lexical.next_code hcode]
  | literal hquote hcontent hcontent' _ ih =>
    rw [(run_literalText_append hquote hcontent hn _).1,
      (run_literalText_append hquote hcontent' hn _).1, ih hn]
  | unclosed => rfl

theorem isNested_iff (h : Reworded s s') (hn : n.state = .code) :
    n.IsNested s ↔ n.IsNested s' := by
  induction h generalizing n with
  | nil => rfl
  | code hcode _ ih =>
    rw [isNested_cons, isNested_cons, ih]
    rw [state_next, hn, Lexical.next_code hcode]
  | literal hquote hcontent hcontent' _ ih =>
    rw [(run_literalText_append hquote hcontent hn _).2,
      (run_literalText_append hquote hcontent' hn _).2, ih hn]
  | unclosed => rfl

/-- A reworded text can be cut where code stands. -/
theorem split (h : Reworded (u ++ v) s') (hu : Lexical.code.run u = .code) :
    ∃ u' v', s' = u' ++ v' ∧ Reworded u u' ∧ Reworded v v' := by
  generalize hs : u ++ v = s at h
  induction h generalizing u with
  | nil =>
    obtain ⟨rfl, rfl⟩ := List.append_eq_nil_iff.1 hs
    exact ⟨[], [], rfl, .nil, .nil⟩
  | @code c s s' hcode h ih =>
    cases u with
    | nil =>
      rw [List.nil_append] at hs
      subst hs
      exact ⟨[], c :: s', rfl, .nil, .code hcode h⟩
    | cons d u =>
      obtain ⟨rfl, hrest⟩ : d = c ∧ u ++ v = s := List.cons.inj hs
      rw [Lexical.run_cons, Lexical.next_code hcode] at hu
      obtain ⟨u', v', rfl, hu', hv'⟩ := ih hu hrest
      exact ⟨d :: u', v', rfl, .code hcode hu', hv'⟩
  | @literal quote content content' s s' hquote hcontent hcontent' h ih =>
    rcases List.append_eq_append_iff.1 hs with ⟨w, hw, rfl⟩ | ⟨w, rfl, hw⟩
    · -- a scan has left the literal only where it ends
      rcases List.eq_nil_or_concat' u with rfl | ⟨u, d, rfl⟩
      · rw [List.nil_append] at hw
        subst hw
        exact ⟨[], literalText quote content' ++ s', rfl, .nil,
          .literal hquote hcontent hcontent' h⟩
      · rw [List.append_assoc, List.singleton_append] at hw
        obtain rfl := (run_literal hquote hcontent hw).2.1 hu
        refine ⟨literalText quote content', s', rfl, ?_, h⟩
        have hwhole := Reworded.literal hquote hcontent hcontent' .nil
        rwa [List.append_nil, List.append_nil, hw] at hwhole
    · rw [Lexical.run_append, run_literalText hquote hcontent] at hu
      obtain ⟨u', v', rfl, hu', hv'⟩ := ih hu hw.symm
      exact ⟨literalText quote content' ++ u', v', by rw [List.append_assoc],
        .literal hquote hcontent hcontent' hu', hv'⟩
  | @unclosed quote text hquote hopen =>
    cases u with
    | nil =>
      rw [List.nil_append] at hs
      subst hs
      exact ⟨[], quote :: text, rfl, .nil, .unclosed hquote hopen⟩
    | cons d u =>
      obtain ⟨rfl, rfl⟩ := List.cons.inj hs
      rw [Lexical.run_cons, Lexical.next_quote hquote] at hu
      exact absurd hu (hopen u (List.prefix_append u v))

theorem isClosed (h : Reworded s s') (hs : IsClosed s) : IsClosed s' where
  nested := (h.isNested_iff rfl).1 hs.nested
  ends := by rw [← h.run_eq rfl, hs.ends]
  noComma u v huv hu := by
    subst huv
    obtain ⟨w, x, rfl, hw, hx⟩ := h.symm.split (code_run_eq hu)
    obtain ⟨x', rfl, -⟩ := hx.of_cons (by decide)
    exact hs.noComma w x' rfl (by rw [← hw.run_eq rfl, hu])

/-- The last character is the same, or quotes. -/
theorem isBlank_getLast? (h : Reworded s s') (hs : ∀ c ∈ s.getLast?, isBlank c = false) :
    ∀ c ∈ s'.getLast?, isBlank c = false := by
  have hrest {u v : List Char} (hv : ∀ c ∈ (u ++ v).getLast?, isBlank c = false) :
      ∀ c ∈ v.getLast?, isBlank c = false := fun c hc =>
    hv c (by rw [List.getLast?_append, Option.mem_def.1 hc]; rfl)
  induction h with
  | nil => nofun
  | @code c s s' hcode h ih =>
    cases s' with
    | nil =>
      obtain rfl := List.head?_eq_none_iff.1 h.head?_eq
      exact hs
    | cons d s' =>
      rw [List.getLast?_cons_cons]
      exact ih (hrest (u := [c]) hs)
  | @literal quote content content' s s' hquote hcontent hcontent' h ih =>
    refine forall_mem_getLast?_append (fun c hc => ?_) (ih (hrest hs))
    rw [literalText, ← List.cons_append, List.getLast?_concat] at hc
    cases hc
    exact isBlank_of_isQuote hquote
  | unclosed => exact hs

theorem isTrimmed (h : Reworded s s') (hs : IsTrimmed s) : IsTrimmed s' where
  head := by
    rw [← h.head?_eq]
    exact hs.head
  last := h.isBlank_getLast? hs.last

/-- White space around a part stays as it is. -/
theorem of_pad (h : Reworded (u ++ text ++ v) s') (hu : IsBlankText u)
    (htext : IsClosed text) :
    ∃ text' v', s' = u ++ text' ++ v' ∧ Reworded text text' ∧ Reworded v v' := by
  rw [List.append_assoc] at h
  obtain ⟨t, rfl, ht⟩ := h.of_append (isCode_of_isBlankText hu)
  obtain ⟨text', v', rfl, htext', hv'⟩ := ht.split (code_run_eq htext.ends)
  exact ⟨text', v', by rw [List.append_assoc], htext', hv'⟩

theorem eq_of_isBlankText (h : Reworded s s') (hs : IsBlankText s) : s = s' :=
  h.eq_of_code (isCode_of_isBlankText hs)

theorem joined (hjoined : Joined parts s) (h : Reworded s s')
    (hparts : ∀ part ∈ parts, IsClosed part) :
    ∃ parts', Joined parts' s' ∧ List.Forall₂ Reworded parts parts' := by
  induction hjoined generalizing s' with
  | last part hu hv =>
    obtain ⟨part', v', rfl, hpart, hv'⟩ := h.of_pad hu (hparts part List.mem_cons_self)
    obtain rfl := hv'.eq_of_isBlankText hv
    exact ⟨[part'], .last part' hu hv, .cons hpart .nil⟩
  | @comma part u v list parts hu hv _ ih =>
    obtain ⟨hpart, hrest⟩ := List.forall_mem_cons.1 hparts
    rw [List.append_assoc _ v] at h
    obtain ⟨part', t, rfl, hpart', ht⟩ := h.of_pad hu hpart
    obtain ⟨t', rfl, ht'⟩ := ht.of_append (isCode_of_isBlankText hv)
    obtain ⟨list', rfl, hlist⟩ := ht'.of_cons (by decide)
    obtain ⟨parts', hjoined, hparts'⟩ := ih hlist hrest
    refine ⟨part' :: parts', ?_, .cons hpart' hparts'⟩
    have hcomma := Joined.comma part' hu hv hjoined
    rwa [List.append_assoc _ v] at hcomma

end Reworded

theorem forall_of_forall₂ {α β : Type} {R : α → β → Prop} {p : α → Prop} {q : β → Prop}
    {xs : List α} {ys : List β} (h : List.Forall₂ R xs ys) (hR : ∀ x y, R x y → p x → q y)
    (hxs : ∀ x ∈ xs, p x) : ∀ y ∈ ys, q y := by
  induction h with
  | nil => nofun
  | cons hxy _ ih =>
    obtain ⟨hx, hxs⟩ := List.forall_mem_cons.1 hxs
    exact List.forall_mem_cons.2 ⟨hR _ _ hxy hx, ih hxs⟩

/-- A reworded list is split at the same commas. -/
theorem parameterTexts_reworded (h : Reworded s s') :
    Together (List.Forall₂ Reworded) (parameterTexts s) (parameterTexts s') := by
  have hok {s s' : List Char} {parts : List (List Char)} (h : Reworded s s')
      (hs : parameterTexts s = .ok parts) :
      ∃ parts', parameterTexts s' = .ok parts' ∧ List.Forall₂ Reworded parts parts' := by
    rcases parameterTexts_eq_ok_iff.1 hs with ⟨rfl, hblank⟩ | ⟨hempty, hjoined, hparts⟩
    · obtain rfl := h.eq_of_isBlankText hblank
      exact ⟨[], hs, .nil⟩
    · obtain ⟨parts', hjoined', hrel⟩ := Reworded.joined hjoined h fun part hpart =>
        (hparts part hpart).1
      refine ⟨parts', parameterTexts_eq_ok_iff.2 (.inr ⟨?_, hjoined', ?_⟩), hrel⟩
      · rintro rfl
        cases hrel with
        | cons hpart hnil =>
          cases hnil
          exact hempty (by rw [hpart.symm.eq_of_code nofun])
      · exact forall_of_forall₂ hrel (fun part part' hpart h =>
          ⟨hpart.isClosed h.1, hpart.isTrimmed h.2⟩) hparts
  cases hs : parameterTexts s with
  | ok parts =>
    obtain ⟨parts', hs', hrel⟩ := hok h hs
    rw [hs']
    exact .ok hrel
  | error fault =>
    cases hs' : parameterTexts s' with
    | error fault' => exact .error fault fault'
    | ok parts' =>
      obtain ⟨parts, hparts, -⟩ := hok h.symm hs'
      rw [hs] at hparts
      cases hparts

/-! ## Modifiers -/

/-- What is left of a parameter is reworded as well. -/
inductive StrippedAlike : Stripped → Stripped → Prop
  | more {rest rest' : List Char} (h : Reworded rest rest') :
      StrippedAlike (.more rest) (.more rest')
  | done {rest rest' : List Char} (h : Reworded rest rest') :
      StrippedAlike (.done rest) (.done rest')

theorem stripStart?_reworded (h : Reworded s s') (hu : IsCode u) :
    Option.Rel Reworded (stripStart? u s) (stripStart? u s') := by
  unfold stripStart?
  rw [h.isPrefixOf_eq hu]
  split
  · rename_i hprefix
    rw [← h.isPrefixOf_eq hu] at hprefix
    obtain ⟨v, rfl⟩ := List.isPrefixOf_iff_prefix.1 hprefix
    obtain ⟨t, rfl, ht⟩ := h.of_append hu
    rw [List.drop_left, List.drop_left]
    exact .some ht
  · exact .none

theorem stripModifier_reworded (h : Reworded s s') :
    StrippedAlike (stripModifier s) (stripModifier s') := by
  have htrim := h.trimStart
  by_cases hsign : (trimStart s).head? = some '@'
  · obtain ⟨named, hnamed⟩ := List.head?_eq_some_iff.1 hsign
    obtain ⟨named', hnamed', hrest⟩ := Reworded.of_cons (hnamed ▸ htrim) (by decide)
    have hafter : Reworded (named.dropWhile isNameChar) (named'.dropWhile isNameChar) :=
      hrest.dropWhile fun _ hquote => eq_false_of_isQuote hquote (by decide) (by decide)
    have htrim := hafter.trimStart
    by_cases hopen : (trimStart (named.dropWhile isNameChar)).head? = some '('
    · obtain ⟨list, hlist⟩ := List.head?_eq_some_iff.1 hopen
      obtain ⟨list', hlist', hreworded⟩ := Reworded.of_cons (hlist ▸ htrim) (by decide)
      have hlists := hreworded.argumentList? 0
      rw [stripModifier_list hnamed hlist, stripModifier_list hnamed' hlist']
      generalize argumentList? 0 .code list = found at hlists ⊢
      generalize argumentList? 0 .code list' = found' at hlists ⊢
      cases hlists with
      | none => exact .done hafter
      | some hparts => exact .more hparts.2
    · rw [stripModifier_named hnamed hopen,
        stripModifier_named hnamed' (by rwa [← htrim.head?_eq])]
      exact .more hafter
  · rw [stripModifier_of_ne hsign, stripModifier_of_ne (by rwa [← htrim.head?_eq])]
    have hfinal := stripStart?_reworded (u := "final".toList) htrim (by decide)
    generalize stripStart? "final".toList (trimStart s) = rest at hfinal ⊢
    generalize stripStart? "final".toList (trimStart s') = rest' at hfinal ⊢
    cases hfinal with
    | none => exact .done htrim
    | @some rest rest' hrest =>
      have hhead := hrest.head?_eq
      cases rest with
      | nil =>
        obtain rfl := List.head?_eq_none_iff.1 hhead.symm
        exact .done htrim
      | cons c rest =>
        obtain ⟨rest', rfl⟩ := List.head?_eq_some_iff.1 hhead.symm
        dsimp only
        split
        · exact .more hrest
        · exact .done htrim

theorem stripModifiers_reworded (h : Reworded s s') :
    Reworded (stripModifiers s) (stripModifiers s') := by
  induction hlength : s.length using Nat.strongRecOn generalizing s s' with
  | _ length ih =>
    have hstep := stripModifier_reworded h
    generalize hs : stripModifier s = stripped at hstep
    generalize hs' : stripModifier s' = stripped' at hstep
    cases hstep with
    | more hrest =>
      rw [stripModifiers_of_more hs, stripModifiers_of_more hs']
      exact ih _ (by rw [← hlength]; exact stripModifier_length hs) hrest rfl
    | done hrest =>
      rw [stripModifiers_of_done hs, stripModifiers_of_done hs']
      exact hrest

/-! ## Signatures -/

/-- The declared parameters of a method, without their modifiers. -/
def bareParameters (source method : String) : Except SignatureError (List (List Char)) :=
  match parameterList? method.toList [] 0 source.toList with
  | .error e => .error e
  | .ok none => .ok []
  | .ok (some list) =>
    match parameterTexts list with
    | .error fault => .error ⟨method, fault, String.ofList list⟩
    | .ok parameters => .ok (parameters.map stripModifiers)

/-- The type of a parameter without modifiers. -/
def bareType (parameter : List Char) : List Char :=
  let parameter := trim parameter
  let type := match splitLast? 0 parameter with
    | some (before, name) => if (trim name).all isIdentifierChar then before else parameter
    | none => parameter
  qualifiedString (closeBrackets (trim type))

/-- The signature of a method with these parameters. -/
def signatureText (method : String) (parameters : List (List Char)) : String :=
  method ++ "(" ++ String.intercalate "," (parameters.map fun p => String.ofList (bareType p)) ++ ")"

/-- A signature has the name of the method and the types of its parameters, and nothing else. -/
theorem signatureOf_eq (source method : String) :
    signatureOf source method = (bareParameters source method).map (signatureText method) := by
  have htype (p : List Char) : parameterType p = bareType (stripModifiers p) := rfl
  unfold signatureOf bareParameters
  cases parameterList? method.toList [] 0 source.toList with
  | error e => rfl
  | ok found =>
    cases found with
    | none =>
      simp [signatureText, String.append_assoc, bind, Except.bind, pure, Except.pure, Except.map]
    | some list =>
      cases hparts : parameterTexts list with
      | error fault => simp [splitParameters, hparts, bind, Except.bind, Except.map]
      | ok parameters =>
        simp [splitParameters, hparts, signatureText, htype, Function.comp_def, bind, Except.bind,
          pure, Except.pure, Except.map]

/-- The parameters of a reworded source are the reworded parameters. -/
theorem bareParameters_reworded {source source' method : String} (hname : method ≠ "")
    (h : Reworded source.toList source'.toList)
    (hsource : CalledInCode method.toList [] source.toList)
    (hsource' : CalledInCode method.toList [] source'.toList) :
    Together (List.Forall₂ Reworded) (bareParameters source method)
      (bareParameters source' method) := by
  have hname' : method.toList ≠ [] := fun hnil => hname (String.toList_eq_nil_iff.1 hnil)
  have hfound := parameterList?_reworded hname' h hsource hsource' .nil
  unfold bareParameters
  generalize parameterList? method.toList [] 0 source.toList = found at hfound ⊢
  generalize parameterList? method.toList [] 0 source'.toList = found' at hfound ⊢
  cases hfound with
  | error e e' => exact .error e e'
  | ok hlist =>
    cases hlist with
    | none => exact .ok .nil
    | @some list list' hlist =>
      have hparts := parameterTexts_reworded hlist
      dsimp only
      generalize parameterTexts list = parts at hparts ⊢
      generalize parameterTexts list' = parts' at hparts ⊢
      cases hparts with
      | error fault fault' => exact .error _ _
      | ok hparts =>
        refine .ok (List.forall₂_map_left_iff.2 (List.forall₂_map_right_iff.2 ?_))
        exact hparts.imp fun _ _ => stripModifiers_reworded

theorem eq_of_forall₂_reworded {ps ps' : List (List Char)} (h : List.Forall₂ Reworded ps ps')
    (hcode : ∀ p ∈ ps, IsCode p) : ps = ps' := by
  induction h with
  | nil => rfl
  | cons hp _ ih =>
    obtain ⟨hcodep, hcodeps⟩ := List.forall_mem_cons.1 hcode
    rw [hp.eq_of_code hcodep, ih hcodeps]

/-- What literals hold does not matter to the signature of a method when calls of it stand in code
only: whether it fails does not change, and the signature does not change unless the type of a
parameter has a literal in it. -/
theorem signatureOf_reworded {source source' method : String} (hname : method ≠ "")
    (h : Reworded source.toList source'.toList)
    (hsource : CalledInCode method.toList [] source.toList)
    (hsource' : CalledInCode method.toList [] source'.toList) :
    ((∃ e, signatureOf source method = .error e) ↔ ∃ e, signatureOf source' method = .error e) ∧
    ((∀ parameters, bareParameters source method = .ok parameters →
        ∀ p ∈ parameters, IsCode p) →
      ∀ signature, signatureOf source method = .ok signature ↔
        signatureOf source' method = .ok signature) := by
  have hparameters := bareParameters_reworded hname h hsource hsource'
  rw [signatureOf_eq, signatureOf_eq]
  generalize bareParameters source method = found at hparameters ⊢
  generalize bareParameters source' method = found' at hparameters ⊢
  cases hparameters with
  | error e e' => exact ⟨iff_of_true ⟨e, rfl⟩ ⟨e', rfl⟩, fun _ _ => iff_of_false nofun nofun⟩
  | ok hrel =>
    refine ⟨iff_of_false nofun nofun, fun hcode signature => ?_⟩
    rw [eq_of_forall₂_reworded hrel (hcode _ rfl)]

theorem Reworded.append_left (hu : IsCode u) (h : Reworded s s') :
    Reworded (u ++ s) (u ++ s') := by
  induction u with
  | nil => exact h
  | cons c u ih =>
    obtain ⟨hc, hu⟩ := List.forall_mem_cons.1 hu
    exact .code hc (ih hu)

/-- A call of a method whose name ends in the name, in a literal before the declaration, and a
parenthesis in the arguments of an annotation. -/
theorem signatureOf_reworded_parenthesis :
    signatureOf "String s = \"gf(\"; void f(@A(\")\") int n) \x7b\x7d" "f" = .ok "f(int)" := by
  have hword {c : Char} (hquote : c ≠ '"') (hbackslash : c ≠ '\\') : IsContent '"' [c] :=
    .char hquote hbackslash .nil
  have hcall : IsContent '"' ['g', 'f', '('] :=
    .char (by decide) (by decide) (.char (by decide) (by decide) (hword (by decide) (by decide)))
  have hreworded : Reworded "String s = \"a\"; void f(@A(\"x\") int n) \x7b\x7d".toList
      "String s = \"gf(\"; void f(@A(\")\") int n) \x7b\x7d".toList :=
    .append_left (u := "String s = ".toList) (by decide)
      (.literal rfl (hword (by decide) (by decide)) hcall
        (.append_left (u := "; void f(@A(".toList) (by decide)
          (.literal rfl (hword (by decide) (by decide)) (hword (by decide) (by decide))
            (.refl _))))
  have hbare : bareParameters "String s = \"a\"; void f(@A(\"x\") int n) \x7b\x7d" "f" =
      .ok ["int n".toList] := by decide +kernel
  refine ((signatureOf_reworded (by decide) hreworded (by decide +kernel) (by decide +kernel)).2
    (fun parameters hparameters => ?_) _).1 (by decide +kernel)
  rw [hbare] at hparameters
  cases hparameters
  decide

/-! ## Comments -/

/-- A comment begins here. -/
def opensComment : List Char → Bool
  | '/' :: '/' :: _ => true
  | '/' :: '*' :: _ => true
  | _ => false

def isLineBreak (c : Char) : Bool := c == '\n' || c == '\r'

/-- The texts are the same but for what stands in literals and comments. -/
inductive SameCode : List Char → List Char → Prop
  | nil : SameCode [] []
  | code {c : Char} {s s' : List Char} (hcode : isQuote c = false)
      (hs : opensComment (c :: s) = false) (hs' : opensComment (c :: s') = false)
      (h : SameCode s s') : SameCode (c :: s) (c :: s')
  | literal {quote : Char} {content content' s s' : List Char} (hquote : isQuote quote = true)
      (hcontent : IsContent quote content) (hcontent' : IsContent quote content')
      (h : SameCode s s') :
      SameCode (literalText quote content ++ s) (literalText quote content' ++ s')
  | lineComment (comment comment' : List Char) {s s' : List Char}
      (hcomment : ∀ c ∈ comment, isLineBreak c = false)
      (hcomment' : ∀ c ∈ comment', isLineBreak c = false)
      (hs : ∀ c ∈ s.head?, isLineBreak c = true) (h : SameCode s s') :
      SameCode ('/' :: '/' :: (comment ++ s)) ('/' :: '/' :: (comment' ++ s'))
  | blockComment (comment comment' : List Char) {s s' : List Char}
      (hcomment : comment.IsChain fun c d => c = '*' → d ≠ '/')
      (hcomment' : comment'.IsChain fun c d => c = '*' → d ≠ '/')
      (h : SameCode s s') :
      SameCode ('/' :: '*' :: (comment ++ '*' :: '/' :: s))
        ('/' :: '*' :: (comment' ++ '*' :: '/' :: s'))

namespace SameCode

theorem append_left (hu : IsCode u) (hslash : '/' ∉ u) (h : SameCode s s') :
    SameCode (u ++ s) (u ++ s') := by
  induction u with
  | nil => exact h
  | cons c u ih =>
    obtain ⟨hc, hu⟩ := List.forall_mem_cons.1 hu
    obtain ⟨hslash, hrest⟩ := not_or.1 (mt List.mem_cons.2 hslash)
    have hopens (text : List Char) : opensComment (c :: text) = false := by
      unfold opensComment
      split
      · rename_i heq
        exact absurd (List.cons.inj heq).1.symm hslash
      · rename_i heq
        exact absurd (List.cons.inj heq).1.symm hslash
      · rfl
    exact .code hc (hopens _) (hopens _) (ih hu hrest)

theorem of_isCode (hs : IsCode s) (hslash : '/' ∉ s) : SameCode s s := by
  simpa using append_left hs hslash .nil

end SameCode

/-- Comments are read like code: a call in a comment is a list that is not closed, and a declaration
in a comment is the declaration of the method. Types are copied with the literals in them. -/
theorem signatureOf_sameCode_ne :
    (SameCode "/* f( */ void f() \x7b\x7d".toList "/* */ void f() \x7b\x7d".toList ∧
      (∃ e, signatureOf "/* f( */ void f() \x7b\x7d" "f" = .error e) ∧
      signatureOf "/* */ void f() \x7b\x7d" "f" = .ok "f()") ∧
    (SameCode "/* int f(int x) \x7b */ void f() \x7b\x7d".toList "/* */ void f() \x7b\x7d".toList ∧
      signatureOf "/* int f(int x) \x7b */ void f() \x7b\x7d" "f" = .ok "f(int)") ∧
    SameCode "void f(List<@A(\"x\") T> a) \x7b\x7d".toList
      "void f(List<@A(\"y\") T> a) \x7b\x7d".toList ∧
    signatureOf "void f(List<@A(\"x\") T> a) \x7b\x7d" "f" = .ok "f(List<@A(\"x\") T>)" ∧
    signatureOf "void f(List<@A(\"y\") T> a) \x7b\x7d" "f" = .ok "f(List<@A(\"y\") T>)" := by
  have hrest : SameCode " void f() \x7b\x7d".toList " void f() \x7b\x7d".toList :=
    .of_isCode (by decide) (by decide)
  have hword {c : Char} (hquote : c ≠ '"') (hbackslash : c ≠ '\\') : IsContent '"' [c] :=
    .char hquote hbackslash .nil
  have hliteral : SameCode "void f(List<@A(\"x\") T> a) \x7b\x7d".toList
      "void f(List<@A(\"y\") T> a) \x7b\x7d".toList :=
    .append_left (u := "void f(List<@A(".toList) (by decide) (by decide)
      (.literal rfl (hword (by decide) (by decide)) (hword (by decide) (by decide))
        (.of_isCode (by decide) (by decide)))
  refine ⟨⟨.blockComment " f( ".toList [' '] (by decide) (by decide) hrest,
      ⟨⟨"f", .unterminatedList, "f( */ void f() \x7b\x7d"⟩, by decide +kernel⟩, by decide +kernel⟩,
    ⟨.blockComment " int f(int x) \x7b ".toList [' '] (by decide) (by decide) hrest,
      by decide +kernel⟩,
    hliteral, by decide +kernel, by decide +kernel⟩

end ContractTests.Java
