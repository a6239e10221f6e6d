import ContractTests.Proofs.TestClass.Sequence
import ContractTests.Proofs.TestMethod.Failure

/-! # Calls without a contract

Skipping the calls that have no contract gives what is built for the other calls alone, where no
call is without one. If such calls are errors, one of them is reported exactly when nothing before
it fails (`TestClass.build_skip_and_unmatched`).
-/

set_option autoImplicit false

namespace ContractTests

theorem eraseDups_filter {α : Type} [BEq α] [LawfulBEq α] (p : α → Bool) (xs : List α) :
    (xs.filter p).eraseDups = xs.eraseDups.filter p := by
  induction hlength : xs.length using Nat.strongRecOn generalizing xs with
  | _ length ih =>
    cases xs with
    | nil => rfl
    | cons first rest =>
      have hshorter := List.length_filter_le (fun other => !other == first) rest
      rw [List.length_cons] at hlength
      have hrest := ih _ (by omega) (rest.filter fun other => !other == first) rfl
      rw [List.eraseDups_cons]
      by_cases hfirst : p first = true
      · rw [List.filter_cons_of_pos hfirst, List.filter_cons_of_pos hfirst, List.eraseDups_cons,
          ← hrest, List.filter_filter, List.filter_filter]
        simp only [Bool.and_comm]
      · rw [List.filter_cons_of_neg hfirst, List.filter_cons_of_neg hfirst, ← hrest,
          List.filter_filter]
        -- what is filtered out with the repetitions of the first is not kept either
        refine congrArg _ (List.filter_congr fun other _ => ?_)
        by_cases hother : other = first
        · subst hother; simp [hfirst]
        · simp [hother]

namespace TestClass

open CallSequence (distinct)

variable {options : ClassOptions} {table other : ContractTable} {calls : CallSequence}

/-! ## Skipped calls -/

theorem contains_congr {name : String} (h : other.get? name = table.get? name) :
    other.contains name = table.contains name := by
  rw [other.contains_eq_isSome_get?, table.contains_eq_isSome_get?, h]

/-- The methods that are left when names are skipped are those of the names with a contract. -/
theorem methodsFor_skip {names : List String}
    (h : ∀ name ∈ names, other.get? name = table.get? name) :
    methodsFor { options with unmatchedCalls := .skip } table names =
      methodsFor { options with unmatchedCalls := .error } other (names.filter table.contains) := by
  induction names with
  | nil => rfl
  | cons name rest ih =>
    obtain ⟨hname, hrest⟩ := List.forall_mem_cons.1 h
    rw [methodsFor, ih hrest]
    cases hfound : table.get? name with
    | none =>
      rw [List.filter_cons_of_neg (by rw [table.contains_eq_isSome_get?, hfound]; decide)]
    | some contract =>
      rw [List.filter_cons_of_pos (by rw [table.contains_eq_isSome_get?, hfound]; rfl), methodsFor,
        hname, hfound]
      rfl

theorem mainFor_skip (h : ∀ name ∈ calls, other.get? name = table.get? name) :
    mainFor { options with unmatchedCalls := .skip } table calls =
      mainFor { options with unmatchedCalls := .error } other (calls.filter table.contains) := by
  have hkept : (calls.filter table.contains).filter other.contains =
      calls.filter table.contains := by
    rw [List.filter_eq_self]
    intro name hname
    obtain ⟨hcall, hcontains⟩ := List.mem_filter.1 hname
    rw [contains_congr (h name hcall), hcontains]
  rw [mainFor, mainFor, hkept]

theorem build_skip (h : ∀ name ∈ calls, other.get? name = table.get? name) :
    build { options with unmatchedCalls := .skip } table calls =
      build { options with unmatchedCalls := .error } other (calls.filter table.contains) := by
  have hdistinct : ∀ name ∈ distinct calls, other.get? name = table.get? name :=
    fun name hname => h name (List.mem_eraseDups.1 hname)
  rw [build, build, methodsFor_skip hdistinct, mainFor_skip h, distinct, distinct, eraseDups_filter]
  rfl

/-! ## Unmatched calls as errors -/

theorem methodsFor_cons_eq_unmatched_iff {name first : String} {rest : List String}
    {contract : Contract} (hfound : table.get? first = some contract) :
    methodsFor options table (first :: rest) = .error (.unmatched name) ↔
      (∃ m, IsTestFor options table m first) ∧
        methodsFor options table rest = .error (.unmatched name) := by
  have htest : (∃ m, IsTestFor options table m first) ↔
      ∃ m, contract.testMethod options = .ok m := by
    simp [IsTestFor, hfound]
  have hmatched : contract.testMethod options ≠ .error (.unmatched name) :=
    Contract.testMethod_ne_unmatched name
  simp only [methodsFor, hfound, htest]
  cases hmethod : contract.testMethod options with
  | error cause =>
    rw [hmethod] at hmatched
    simpa [bind, Except.bind] using hmatched
  | ok method =>
    cases methodsFor options table rest <;> simp [bind, Except.bind, pure, Except.pure]

/-- A name without a contract is reported when there is a test for every name before it. -/
theorem methodsFor_eq_unmatched_iff (herror : options.unmatchedCalls = .error)
    {names : List String} {name : String} :
    methodsFor options table names = .error (.unmatched name) ↔ ∃ before after,
      names = before ++ name :: after ∧ table.get? name = none ∧
        ∀ earlier ∈ before, ∃ m, IsTestFor options table m earlier := by
  induction names with
  | nil => simp [methodsFor]
  | cons first rest ih =>
    cases hfound : table.get? first with
    | none =>
      rw [methodsFor, hfound, herror]
      constructor
      · intro h
        cases h
        exact ⟨[], rest, rfl, hfound, List.forall_mem_nil _⟩
      · rintro ⟨before, after, hsplit, -, hbefore⟩
        cases before with
        | nil => cases hsplit; rfl
        | cons earlier before =>
          cases hsplit
          obtain ⟨m, contract, hcontract, -⟩ := hbefore _ List.mem_cons_self
          rw [hfound] at hcontract
          cases hcontract
    | some contract =>
      rw [methodsFor_cons_eq_unmatched_iff hfound, ih]
      constructor
      · rintro ⟨hfirst, before, after, rfl, hnone, hbefore⟩
        exact ⟨first :: before, after, rfl, hnone, List.forall_mem_cons.2 ⟨hfirst, hbefore⟩⟩
      · rintro ⟨before, after, hsplit, hnone, hbefore⟩
        cases before with
        | nil =>
          cases hsplit
          rw [hfound] at hnone
          cases hnone
        | cons earlier before =>
          cases hsplit
          obtain ⟨hfirst, hbefore⟩ := List.forall_mem_cons.1 hbefore
          exact ⟨hfirst, before, after, rfl, hnone, hbefore⟩

theorem build_eq_error_iff {failure : BuildError} : build options table calls = .error failure ↔
    methodsFor options table (distinct calls) = .error failure := by
  unfold build
  cases methodsFor options table (distinct calls) <;> simp [bind, Except.bind, pure, Except.pure]

/-- If calls without a contract are skipped, the result is that for the calls with a contract alone
and any table that has the same contracts for the calls. If they are errors, a call without a
contract is reported exactly when it is the first of the called functions that has no test
method. -/
theorem build_skip_and_unmatched (h : ∀ name ∈ calls, other.get? name = table.get? name) :
    build { options with unmatchedCalls := .skip } table calls =
        build { options with unmatchedCalls := .error } other (calls.filter table.contains) ∧
      ∀ name, build { options with unmatchedCalls := .error } table calls =
          .error (.unmatched name) ↔
        ∃ before after, distinct calls = before ++ name :: after ∧ table.get? name = none ∧
          ∀ earlier ∈ before, ∃ m, IsTestFor options table m earlier :=
  ⟨build_skip h, fun _ => build_eq_error_iff.trans (methodsFor_eq_unmatched_iff rfl)⟩

theorem size_build_skip_and_unmatched :
    (∀ name ∈ ["size", "clear", "grow", "size"],
      ContractTable.get? ⟨[Contract.grow, size]⟩ name =
        ContractTable.get? ⟨[size, Contract.grow]⟩ name) ∧
    build { unmatchedCalls := .skip } ⟨[size, Contract.grow]⟩ ["size", "clear", "grow", "size"] =
      build {} ⟨[Contract.grow, size]⟩ ["size", "grow", "size"] ∧
    build {} ⟨[size, Contract.grow]⟩ ["size", "clear", "grow", "size"] =
      .error (.unmatched "clear") := by
  have hsame : ∀ name ∈ ["size", "clear", "grow", "size"],
      ContractTable.get? ⟨[Contract.grow, size]⟩ name =
        ContractTable.get? ⟨[size, Contract.grow]⟩ name := by
    simp [ContractTable.get?, size, Contract.grow]
  obtain ⟨hskip, hunmatched⟩ := @build_skip_and_unmatched {} _ _ _ hsame
  refine ⟨hsame, hskip, (hunmatched "clear").2 ⟨["size"], ["grow"], rfl, rfl, ?_⟩⟩
  intro earlier hearlier
  rw [List.mem_singleton.1 hearlier]
  exact ⟨_, size, rfl, rfl⟩

end TestClass

end ContractTests
