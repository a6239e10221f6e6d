import ContractTests.Proofs.Expr.Copies
import ContractTests.Proofs.Java.Plain
import ContractTests.Proofs.Text.Fork

/-! # The sign of a zero in Java

Expressions that are the same differ at most in the signs of zeros (`Expr.eq_of_same`), and Java
writes the sign: where it does for one of them, their texts fork (`Expr.writtenAlike_of_same`). So
two expressions that are the same have one text only if they are one expression, or have no text
(`Expr.render_eq_iff_of_same`).
-/

set_option autoImplicit false

namespace ContractTests

open Text

/-! ## Zeros -/

namespace Double

theorem eq_of_isZero {x : Double} (h : x.isZero = true) : x = zero ∨ x = zero.negated := by
  have hmod : x.bits.toNat % 9223372036854775808 = 0 := beq_iff_eq.1 h
  have hlt := x.bits.toNat_lt
  have hbits : x.bits = 0 ∨ x.bits = 0x8000000000000000 := by
    rw [← UInt64.toNat_inj, ← UInt64.toNat_inj]
    change x.bits.toNat = 0 ∨ x.bits.toNat = 9223372036854775808
    omega
  exact hbits.imp (congrArg Double.mk) (congrArg Double.mk)

/-- Floats that are equal as numbers are one datum, or zeros of different signs. -/
theorem eq_or_zeros_of_same {x y : Double} (h : x.same y = true) :
    x = y ∨ x = zero ∧ y = zero.negated ∨ x = zero.negated ∧ y = zero := by
  simp only [same, Bool.and_eq_true, Bool.or_eq_true, beq_iff_eq] at h
  rcases h.2 with heq | ⟨hx, hy⟩
  · exact .inl heq
  · rcases eq_of_isZero hx with rfl | rfl <;> rcases eq_of_isZero hy with rfl | rfl <;> simp

end Double

/-! ## Both or none -/

/-- Both fail with one cause, or both succeed and the results are related. -/
inductive Alike {ε α β : Type} (R : α → β → Prop) : Except ε α → Except ε β → Prop
  | error (cause : ε) : Alike R (.error cause) (.error cause)
  | ok {a : α} {b : β} (h : R a b) : Alike R (.ok a) (.ok b)

namespace Alike

variable {ε α β γ δ : Type} {R S : α → β → Prop} {T : γ → δ → Prop}
  {x : Except ε α} {y : Except ε β}

theorem imp (hRS : ∀ a b, R a b → S a b) (h : Alike R x y) : Alike S x y := by
  cases h with
  | error cause => exact .error cause
  | ok h => exact .ok (hRS _ _ h)

theorem bind {f : α → Except ε γ} {g : β → Except ε δ} (h : Alike R x y)
    (hf : ∀ a b, R a b → Alike T (f a) (g b)) : Alike T (x >>= f) (y >>= g) := by
  cases h with
  | error cause => exact .error cause
  | ok h => exact hf _ _ h

theorem eq_error {cause : ε} (h : Alike R x (.error cause)) : x = .error cause := by
  cases h
  rfl

end Alike

/-! ## Collections -/

namespace Java

variable {p : Prop} {ss ts : List String}

/-- Lists between the same brackets. -/
theorem forkUnless_enclosed (h : ForkUnlessAll p ss ts) (before after : String) :
    ForkUnless p (before ++ commaSeparated ss ++ after) (before ++ commaSeparated ts ++ after) :=
  ((h.intercalate ", ").append_left before).append_right after

theorem forkUnless_newObject (h : ForkUnlessAll p ss ts) (type : String) :
    ForkUnless p (newObject type ss) (newObject type ts) := by
  unfold newObject
  rw [h.isEmpty_eq]
  split
  · exact forkUnless_enclosed h _ _
  · dsimp only
    split
    · exact forkUnless_enclosed h _ _
    · split
      · exact .of_holds (h.holds_of_isEmpty (h.isEmpty_eq.trans ‹_›)) _
      · split <;> exact forkUnless_enclosed h _ _

theorem forkUnless_newSet (h : ForkUnlessAll p ss ts) : ForkUnless p (newSet ss) (newSet ts) := by
  unfold newSet
  rw [h.isEmpty_eq]
  split
  · exact .of_holds (h.holds_of_isEmpty (h.isEmpty_eq.trans ‹_›)) _
  · exact forkUnless_enclosed h _ _

/-- The text of an entry. -/
def entryText (entry : String × String) : String := entry.1 ++ ", " ++ entry.2

theorem forkUnless_newMap {es es' : List (String × String)}
    (h : ForkUnlessAll p (es.map entryText) (es'.map entryText)) :
    ForkUnless p (newMap es) (newMap es') := by
  have hlength : es.length = es'.length := by simpa using h.length_eq
  have hempty : es.isEmpty = es'.isEmpty := by simpa using h.isEmpty_eq
  unfold newMap
  rw [hlength, hempty]
  dsimp only
  split
  · refine .of_holds (h.holds_of_isEmpty ?_) _
    rwa [List.isEmpty_map, hempty]
  · split
    · exact forkUnless_enclosed h _ _
    · exact forkUnless_enclosed
        (h.map fun h => (h.append_left "Map.entry(").append_right ")") _ _

end Java

namespace Expr

variable {e e' : Expr}

/-! ## Nodes -/

theorem forkUnless_parenthesized {q : Prop} {s t : String} (h : ForkUnless q s t) (p : Bool) :
    ForkUnless q (parenthesized p s) (parenthesized p t) := by
  cases p with
  | false => exact h
  | true => exact (h.append_left "(").append_right ")"

/-- The expressions are written alike, with texts that fork unless the expressions are one, also in
the place of an operand and of a receiver. -/
structure WrittenAlike (e e' : Expr) : Prop where
  text : Alike (ForkUnless (e = e')) e.render e'.render
  operand : Alike (fun s t => ForkUnless (e = e') (parenthesized e.needsParens s)
    (parenthesized e'.needsParens t)) e.render e'.render
  isUnary_eq : e.isUnary = e'.isUnary

theorem WrittenAlike.receiver (h : WrittenAlike e e') :
    Alike (fun s t => ForkUnless (e = e') (parenthesized e.isUnary s) (parenthesized e'.isUnary t))
      e.render e'.render := by
  rw [h.isUnary_eq]
  exact h.text.imp fun s t hst => forkUnless_parenthesized hst _

theorem alike_renderAll {es es' : List Expr} (h : List.Forall₂ WrittenAlike es es') :
    Alike (ForkUnlessAll (es = es')) (renderAll es) (renderAll es') := by
  induction h with
  | nil => exact .ok (by simpa using ForkUnlessAll.nil)
  | cons h _ ih =>
    refine h.text.bind fun s t hst => ih.bind fun ss ts hsts => .ok ?_
    rw [List.cons_eq_cons]
    exact .cons hst hsts

theorem alike_renderEntries {es es' : List (Expr × Expr)}
    (h : List.Forall₂ (fun p q => WrittenAlike p.1 q.1 ∧ WrittenAlike p.2 q.2) es es') :
    Alike (fun ss ts => ForkUnlessAll (es = es') (ss.map Java.entryText) (ts.map Java.entryText))
      (renderEntries es) (renderEntries es') := by
  induction h with
  | nil => exact .ok (by simpa using ForkUnlessAll.nil)
  | @cons p q _ _ h _ ih =>
    refine h.1.text.bind fun key key' hkey => h.2.text.bind fun value value' hvalue =>
      ih.bind fun ss ts hsts => .ok ?_
    rw [List.cons_eq_cons, Prod.ext_iff]
    exact .cons ((hkey.append_right ", ").append hvalue) hsts

/-- The same node around children that are written alike. -/
theorem Parallel.alike_render (h : Parallel WrittenAlike e e') :
    Alike (ForkUnless (e = e')) e.render e'.render := by
  cases h with
  | literal value => exact .ok (.of_holds rfl _)
  | var name => exact .ok (.of_holds rfl _)
  | postState name => exact .error _
  | self => exact .ok (.of_holds rfl _)
  | binary op ha hb =>
    refine ha.text.bind fun s s' hs => hb.text.bind fun t t' ht => .ok ?_
    have hleft := (((hs.append_left "(").append_right " ").append_right op.symbol).append_right " "
    exact ((hleft.append ht).append_right ")").imp fun h => by rw [h.1, h.2]
  | unary op ha =>
    refine ha.operand.bind fun s t hst => .ok ?_
    exact (hst.append_left op.symbol).imp (congrArg _)
  | field ha name =>
    refine ha.receiver.bind fun s t hst => .ok ?_
    exact ((hst.append_right ".").append_right name).imp fun ha => by rw [ha]
  | index ha hb =>
    refine ha.receiver.bind fun s s' hs => hb.text.bind fun t t' ht => .ok ?_
    have hposition := (hs.append_right "[").append ht
    exact (hposition.append_right "]").imp fun h => by rw [h.1, h.2]
  | call name hes =>
    rw [render, render, hes.length_eq]
    split
    · exact .error _
    · refine (alike_renderAll hes).bind fun ss ts hst => .ok ?_
      exact (Java.forkUnless_enclosed hst (name ++ "(") ")").imp (congrArg _)
  | send ha name hes =>
    refine (alike_renderAll hes).bind fun ss ts hst => ha.receiver.bind fun s t hs => .ok ?_
    have hcall := ((hs.append_right ".").append_right name).append_right "("
    exact ((hcall.append (hst.intercalate ", ")).append_right ")").imp fun h => by rw [h.1, h.2]
  | create type hes =>
    refine (alike_renderAll hes).bind fun ss ts hst => .ok ?_
    exact (Java.forkUnless_newObject hst type).imp (congrArg _)
  | set hes =>
    refine (alike_renderAll hes).bind fun ss ts hst => .ok ?_
    exact (Java.forkUnless_newSet hst).imp (congrArg _)
  | map hes =>
    refine (alike_renderEntries hes).bind fun ss ts hst => .ok ?_
    exact (Java.forkUnless_newMap hst).imp (congrArg _)
  | tuple hes =>
    refine (alike_renderAll hes).bind fun ss ts hst => .ok ?_
    exact (Java.forkUnless_enclosed hst "Arrays.asList(" ")").imp (congrArg _)
  | conditional ha hb hc =>
    refine ha.text.bind fun s s' hs => hb.text.bind fun t t' ht =>
      hc.text.bind fun u u' hu => .ok ?_
    have hyes := ((hs.append_left "(").append_right " ? ").append ht
    have hno := (hyes.append_right " : ").append hu
    exact (hno.append_right ")").imp fun h => by rw [h.1.1, h.1.2, h.2]
  | cast type ha =>
    refine ha.text.bind fun s t hst => .ok ?_
    have hbefore := hst.append_left ("((" ++ type ++ ") ")
    exact (hbefore.append_right ")").imp (congrArg _)

theorem Parallel.needsParens_eq {R : Expr → Expr → Prop} (h : Parallel R e e') :
    e.needsParens = e'.needsParens := by cases h <;> rfl

theorem Parallel.isUnary_eq {R : Expr → Expr → Prop} (h : Parallel R e e') :
    e.isUnary = e'.isUnary := by cases h <;> rfl

theorem Parallel.writtenAlike (h : Parallel WrittenAlike e e') : WrittenAlike e e' where
  text := h.alike_render
  operand := by
    rw [h.needsParens_eq]
    exact h.alike_render.imp fun s t hst => forkUnless_parenthesized hst _
  isUnary_eq := h.isUnary_eq

theorem java_zero : (Literal.float .zero).java = "0.0" := by decide +kernel

theorem java_negated_zero : (Literal.float Double.zero.negated).java = "-0.0" := by decide +kernel

theorem writtenAlike_zeros {x y : Double}
    (h : x = .zero ∧ y = Double.zero.negated ∨ x = Double.zero.negated ∧ y = .zero) :
    WrittenAlike (.literal (.float x)) (.literal (.float y)) := by
  -- where one of them has a digit, the other one has a sign or a parenthesis
  rcases h with ⟨rfl, rfl⟩ | ⟨rfl, rfl⟩
  all_goals
    refine ⟨?_, ?_, rfl⟩ <;> rw [render, render, java_zero, java_negated_zero] <;>
      exact .ok (.inr (.here (by decide) _ _))

theorem writtenAlike_literal (value : Literal) :
    WrittenAlike (.literal value) (.literal value) :=
  Parallel.writtenAlike (.literal value)

/-- Expressions that are the same are written alike. -/
theorem writtenAlike_of_same (h : e.same e' = true) : WrittenAlike e e' := by
  induction e using children_induction generalizing e' with
  | node e ih =>
    rcases parallel_of_same h with ⟨x, y, rfl, rfl, hxy⟩ | hp
    · rcases literal_eq_of_same hxy with rfl | ⟨a, b, rfl, rfl, hab⟩
      · exact writtenAlike_literal x
      · rcases Double.eq_or_zeros_of_same hab with rfl | hzeros
        · exact writtenAlike_literal _
        · exact writtenAlike_zeros hzeros
    · exact (hp.imp fun c hc c' _ hcc' => ih c hc hcc').writtenAlike

/-! ## Texts -/

/-- Expressions that are the same have one text when they are one expression or have no text. -/
theorem render_eq_iff_of_same (h : e.same e' = true) :
    e.render = e'.render ↔ (e'.IsPlain → e = e') := by
  have halike := (writtenAlike_of_same h).text
  constructor
  · intro heq hplain
    obtain ⟨text, htext⟩ := (exists_render_iff e').2 hplain
    rw [heq, htext] at halike
    cases halike with
    | ok hfork => exact hfork.holds_of_eq rfl
  · intro hone
    cases htext : e'.render with
    | ok text => rw [hone ((exists_render_iff e').1 ⟨text, htext⟩), htext]
    | error cause => exact (htext ▸ halike).eq_error

/-- Expressions that are the same are one expression, unless they have zeros of different signs. -/
theorem eq_of_same (h : e.same e' = true)
    (hfloats : ∀ x y, .literal (.float x) ∈ e.subterms → .literal (.float y) ∈ e'.subterms →
      x.same y = true → x = y) : e = e' := by
  induction e using children_induction generalizing e' with
  | node e ih =>
    rcases parallel_of_same h with ⟨x, y, rfl, rfl, hxy⟩ | hp
    · rcases literal_eq_of_same hxy with rfl | ⟨a, b, rfl, rfl, hab⟩
      · rfl
      · rw [hfloats a b (self_mem_subterms _) (self_mem_subterms _) hab]
    · refine Parallel.eq (hp.imp fun c hc c' hc' hcc' => ih c hc hcc' fun x y hx hy => ?_)
      exact hfloats x y (mem_subterms_of_mem_children hc hx) (mem_subterms_of_mem_children hc' hy)

end Expr

end ContractTests
