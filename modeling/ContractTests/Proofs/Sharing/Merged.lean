import ContractTests.Proofs.Java.Zeros
import ContractTests.Proofs.Sharing.Fixpoint
import ContractTests.Proofs.Sharing.Outcome

/-! # The texts of merged calls

A round puts one variable in the place of all occurrences of a call. Occurrences that are recognised
by their text have the text of the declared call. Those recognised by structure have it too, unless
they differ from the call in the sign of a zero (`Expr.render_eq_iff_of_isAt`): floats are compared
as numbers, and NaN, which is not the same as itself, is left to the text.
-/

set_option autoImplicit false

namespace ContractTests

namespace Expr

variable {condition call result a : Expr} {o : Occurrence} {taken : List String}
  {rounds : List Round}

/-- An occurrence of a call has its text when it is the call, where both are the same by structure,
or when the call has no text. -/
theorem render_eq_iff_of_isAt (hof : o.IsOf call) (hat : o.isAt a = true) :
    a.render = call.render ↔ (call.IsPlain → a.same call = true → a = call) := by
  cases hof with
  | structural =>
    have hsame : a.same call = true := hat
    rw [render_eq_iff_of_same hsame]
    exact ⟨fun hone hplain _ => hone hplain, fun hone hplain => hone hplain hsame⟩
  | textual _ htext =>
    have heq : a.render = call.render := (Occurrence.isAt_textual_iff.1 hat).2.trans htext.symm
    exact iff_of_true heq fun hplain hsame => (render_eq_iff_of_same hsame).1 heq hplain

theorem Rounds.isOf (h : Rounds condition taken rounds result) :
    ∀ r ∈ rounds, r.occurrence.IsOf r.call ∧ r.call ∈ r.condition.subterms := by
  induction h with
  | done => exact List.forall_mem_nil _
  | round found _ ih =>
    refine List.forall_mem_cons.2 ⟨⟨isOf_of_repeatedCall found, ?_⟩, ih⟩
    exact (mem_calls_iff.1 (mem_calls_of_repeatedCall found)).1

/-- The floats of a round are floats of the condition. -/
theorem Rounds.mem_of_float (h : Rounds condition taken rounds result) {x : Double} :
    ∀ r ∈ rounds, .literal (.float x) ∈ r.condition.subterms →
      .literal (.float x) ∈ condition.subterms := by
  induction h with
  | done => exact List.forall_mem_nil _
  | round _ _ ih =>
    refine List.forall_mem_cons.2 ⟨id, fun r hr hx => ?_⟩
    exact (Occurrence.mem_subterms_of_named (ih r hr hx) rfl).resolve_left nofun

/-- Zeros of both signs are in the expression. -/
def HasBothZeros (e : Expr) : Prop :=
  .literal (.float .zero) ∈ e.subterms ∧ .literal (.float Double.zero.negated) ∈ e.subterms

/-- All occurrences that the round merges have the text of the declared call. -/
def Round.OneText (r : Round) : Prop :=
  ∀ a ∈ r.condition.subterms, r.occurrence.isAt a = true → a.render = r.call.render

theorem Rounds.oneText (h : Rounds condition taken rounds result)
    (hzeros : ¬condition.HasBothZeros) : ∀ r ∈ rounds, r.OneText := by
  intro r hr a ha hat
  obtain ⟨hof, hcall⟩ := h.isOf r hr
  refine (render_eq_iff_of_isAt hof hat).2 fun _ hsame => eq_of_same hsame fun x y hx hy hxy => ?_
  have hx := h.mem_of_float r hr (subterms_trans hx ha)
  have hy := h.mem_of_float r hr (subterms_trans hy hcall)
  rcases Double.eq_or_zeros_of_same hxy with heq | ⟨rfl, rfl⟩ | ⟨rfl, rfl⟩
  · exact heq
  · exact absurd ⟨hx, hy⟩ hzeros
  · exact absurd ⟨hy, hx⟩ hzeros

/-- An occurrence that the round merges has the text of the declared call exactly when it is that
call, where both are the same by structure. A call without text has occurrences without text. -/
def Round.TextsTell (r : Round) : Prop :=
  ∀ a ∈ r.condition.subterms, r.occurrence.isAt a = true →
    (a.render = r.call.render ↔ (r.call.IsPlain → a.same r.call = true → a = r.call))

/-- In every round the texts tell which occurrences are the declared call, and they are all one text
when the condition does not have zeros of both signs. -/
def MergesTexts (condition : Expr) (declarations : List Stmt) (condition' : Expr) : Prop :=
  ∃ taken rounds, Rounds condition taken rounds condition' ∧
    declarations = rounds.map Round.declaration ∧
    ∀ r ∈ rounds, r.TextsTell ∧ (¬condition.HasBothZeros → r.OneText)

/-- The first round of an assertion. -/
theorem MergesTexts.first {condition' init : Expr} {type name : String}
    (h : Stmt.Rewrites MergesTexts [.assert condition]
      [.declare type name init, .assert condition'])
    (hfound : condition.repeatedCall = .ok (some (call, o))) :
    Round.TextsTell ⟨condition, call, o, name⟩ ∧
      (¬condition.HasBothZeros → Round.OneText ⟨condition, call, o, name⟩) := by
  obtain ⟨taken, rounds, hrounds, hdeclaration, htexts⟩ := h.of_declaration
  obtain ⟨rest, rfl, -, -⟩ := hrounds.of_repeatedCall hfound hdeclaration
  exact htexts _ List.mem_cons_self

end Expr

namespace Stmt

/-- Sharing merges only calls with one text, apart from calls that differ in the sign of a zero. -/
theorem shareCalls_mergesTexts {body shared : List Stmt} (h : shareCalls body = .ok shared) :
    Rewrites Expr.MergesTexts body shared := by
  refine (rewrites_of_shareCalls h).imp fun condition declarations condition' hshares => ?_
  obtain ⟨taken, rounds, hrounds, hdeclarations, -⟩ := hshares.exists_rounds
  refine ⟨taken, rounds, hrounds, hdeclarations, fun r hr => ⟨fun a _ hat => ?_, fun hzeros => ?_⟩⟩
  · exact Expr.render_eq_iff_of_isAt (hrounds.isOf r hr).1 hat
  · exact hrounds.oneText hzeros r hr

end Stmt

/-- The condition `f(NaN) == f(NaN)` with different data for NaN. -/
def callsOfNaNs : Expr := .binary .equal (callOf .nan) (callOf ⟨0x7ff8000000000001⟩)

/-- The assertion that both results are one. -/
def resultsAgree : Stmt := .assert (.binary .equal (.var "f_result") (.var "f_result"))

/-- Calls of different NaNs are merged by their text, and calls of zeros with different signs in
spite of theirs. -/
theorem callsOfNaNs_oneText_callsOfZeros_not :
    (∃ r : Expr.Round, r.OneText ∧ r.occurrence.isAt (callOf ⟨0x7ff8000000000001⟩) = true ∧
      Stmt.shareCalls [.assert callsOfNaNs] = .ok [r.declaration, resultsAgree]) ∧
    ∃ r : Expr.Round, (callOf Double.zero.negated).render ≠ r.call.render ∧
      r.occurrence.isAt (callOf Double.zero.negated) = true ∧
      Stmt.shareCalls [.assert callsOfZeros] = .ok [r.declaration, resultsAgree] := by
  have hnans : Stmt.shareCalls [.assert callsOfNaNs] =
      .ok [.declare "var" "f_result" (callOf .nan), resultsAgree] := rfl
  have hzeros : Stmt.shareCalls [.assert callsOfZeros] =
      .ok [.declare "var" "f_result" (callOf .zero), resultsAgree] := rfl
  refine ⟨⟨⟨callsOfNaNs, callOf .nan, .textual "f(Double.NaN)", "f_result"⟩, ?nans, rfl, hnans⟩,
    ⟨callsOfZeros, callOf .zero, .structural (callOf .zero), "f_result"⟩, ?zeros, rfl, hzeros⟩
  case nans =>
    have hnone : ¬callsOfNaNs.HasBothZeros := by
      rintro ⟨h, -⟩
      simp [callsOfNaNs, callOf, Expr.subterms, Expr.subtermsAll, Double.zero, Double.nan] at h
    exact (Expr.MergesTexts.first (Stmt.shareCalls_mergesTexts hnans) rfl).2 hnone
  case zeros =>
    intro heq
    have hmem : callOf Double.zero.negated ∈ callsOfZeros.subterms := by
      simp [callsOfZeros, callOf, Expr.subterms, Expr.subtermsAll]
    have htexts := (Expr.MergesTexts.first (Stmt.shareCalls_mergesTexts hzeros) rfl).1 _ hmem rfl
    have hone : callOf Double.zero.negated = callOf .zero := htexts.1 heq (by decide) rfl
    simp [callOf, Double.zero, Double.negated] at hone

end ContractTests
