import ContractTests.Proofs.Contract.Table
import ContractTests.Proofs.TestRun.Law
import ContractTests.TestClass.Build
import Mathlib.Data.List.Forall2

/-! # The methods of a class that is built

A class that is built has one method for every called function that has a contract, in the order of
the first calls (`TestClass.forall₂_methodsFor`, `TestClass.names_of_build`).
-/

set_option autoImplicit false

namespace ContractTests

theorem TestMethod.nameFor_injective : Function.Injective TestMethod.nameFor :=
  fun _ _ h => (String.append_left_inj _).1 h

theorem CallSequence.nodup_distinct (calls : CallSequence) : (distinct calls).Nodup :=
  nodup_eraseDups calls

namespace TestClass

variable {options : ClassOptions} {table : ContractTable} {calls : CallSequence} {c : TestClass}

/-- The method is the test method of the contract of that name. -/
def IsTestFor (options : ClassOptions) (table : ContractTable) (m : TestMethod) (name : String) :
    Prop :=
  ∃ contract, table.get? name = some contract ∧ contract.testMethod options = .ok m

/-- There is one method for every name that has a contract, in the order of the names. -/
theorem forall₂_methodsFor {names : List String} {methods : List TestMethod}
    (h : methodsFor options table names = .ok methods) :
    List.Forall₂ (IsTestFor options table) methods (names.filter table.contains) := by
  induction names generalizing methods with
  | nil => cases h; exact .nil
  | cons name rest ih =>
    rw [methodsFor] at h
    split at h
    · rename_i contract hcontract
      obtain ⟨method, hmethod, h⟩ := bind_eq_ok_iff.1 h
      obtain ⟨others, hothers, h⟩ := bind_eq_ok_iff.1 h
      cases h
      rw [List.filter_cons_of_pos (by rw [table.contains_eq_isSome_get?, hcontract]; rfl)]
      exact .cons ⟨contract, hcontract, hmethod⟩ (ih hothers)
    · rename_i hnone
      rw [List.filter_cons_of_neg (by rw [table.contains_eq_isSome_get?, hnone]; decide)]
      split at h
      · cases h
      · exact ih h

/-- Every method of the class is the test method of a called function's contract. -/
theorem exists_isTestFor (h : build options table calls = .ok c) :
    ∀ m ∈ c.methods, ∃ name ∈ calls, IsTestFor options table m name := by
  obtain ⟨methods, hmethods, h⟩ := bind_eq_ok_iff.1 h
  cases h
  intro m hm
  obtain ⟨i, hi, rfl⟩ := List.getElem_of_mem hm
  have hall := forall₂_methodsFor hmethods
  have hname := List.getElem_mem (hall.length_eq ▸ hi)
  exact ⟨_, List.mem_eraseDups.1 (List.mem_of_mem_filter hname), hall.get hi (hall.length_eq ▸ hi)⟩

theorem IsTestFor.name_eq {m : TestMethod} {function : String}
    (h : IsTestFor options table m function) : m.name = TestMethod.nameFor function := by
  obtain ⟨contract, hcontract, htest⟩ := h
  obtain ⟨assumption, -, htest⟩ := bind_eq_ok_iff.1 htest
  obtain ⟨checks, -, htest⟩ := bind_eq_ok_iff.1 htest
  cases htest
  have hfound : table.contracts.find? (·.name == function) = some contract := hcontract
  have hname := List.find?_some hfound
  exact congrArg TestMethod.nameFor (beq_iff_eq.1 hname)

/-- The methods of the class are named for the functions that have contracts, each of them once and
in the order of the calls. -/
theorem names_of_build (h : build options table calls = .ok c) :
    c.methods.map (·.name) =
      ((CallSequence.distinct calls).filter table.contains).map TestMethod.nameFor := by
  obtain ⟨methods, hmethods, h⟩ := bind_eq_ok_iff.1 h
  cases h
  rw [← List.forall₂_eq_eq_eq, List.forall₂_map_left_iff, List.forall₂_map_right_iff]
  exact (forall₂_methodsFor hmethods).imp fun _ _ => IsTestFor.name_eq

/-- The methods of the class have different names. -/
theorem nodup_names_of_build (h : build options table calls = .ok c) :
    (c.methods.map (·.name)).Nodup := by
  rw [names_of_build h]
  exact ((CallSequence.nodup_distinct calls).filter _).map TestMethod.nameFor_injective

end TestClass

end ContractTests
