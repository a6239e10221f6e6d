import ContractTests.Proofs.Java.Lines
import ContractTests.Proofs.TestClass.Written

/-! # Settled test classes

What the conditions of a contract with bare names and settled conditions are translated to is
settled (`Contract.IsSettled.ofVocabulary`), and so is a class that is built from such contracts, in
its own form and in its symbolic form (`TestClass.Unambiguous.isSettled`,
`TestClass.IsSettled.symbolic`).
-/

set_option autoImplicit false

namespace ContractTests

open Java Text

/-! ## Conditions -/

namespace Expr

variable {name : List Char} {params : List Parameter} {e e' : Expr}

theorem isSettled_of_asAssumption {pre : Expr} (h : pre.asAssumption params = .ok e')
    (hpre : pre.IsSettled name) : e'.IsSettled name :=
  Everywhere.asAssumption (ignoresChildren_isSettledNode name) h hpre

theorem isSettled_of_asAssertion {post : Expr} {binding : Option String} {snapshots : Snapshots}
    (h : post.asAssertion binding snapshots params = .ok e') (hpost : post.IsSettled name)
    (hbinding : ∀ written ∈ binding, IsBare written)
    (hsnapshots : ∀ n written, snapshots.lookup n = some written → IsBare written) :
    e'.IsSettled name := by
  have hvar {written : String} (hbare : IsBare written) : (var written).IsSettledNode name :=
    ⟨fun _ h => Option.mem_some.1 h ▸ hbare, nofun⟩
  refine Everywhere.asAssertion (ignoresChildren_isSettledNode name) h hpost
    (fun written hnode => hvar ?plain) (fun written hnode => hvar ?live)
  case plain =>
    cases hs : snapshots.lookup written with
    | none => exact hnode.bare written rfl
    | some snapshot => exact hsnapshots written snapshot hs
  case live =>
    cases binding with
    | none => exact hnode.bare written rfl
    | some bound => exact hbinding bound rfl

end Expr

/-! ## Contracts -/

namespace ClassOptions

/-- The names in the options are bare. -/
structure AreBare (o : ClassOptions) : Prop where
  package : IsBare o.package
  className : IsBare o.className
  targetClass : IsBare o.targetClass
  imports : ∀ i ∈ o.imports, IsBare i

end ClassOptions

namespace Contract

/-- The names and types of the signature are bare, and the conditions are settled. -/
structure IsSettled (name : List Char) (c : Contract) : Prop where
  function : IsBare c.signature.name
  returnType : IsBare c.signature.returnType
  parameters : ∀ p ∈ c.parameters, IsBare p.name ∧ IsBare p.type
  precondition : ∀ e ∈ c.precondition, e.IsSettled name
  postcondition : ∀ e ∈ c.postcondition, e.IsSettled name

variable {name : List Char} {c : Contract}

/-- What the conditions of a settled contract are translated to is settled. -/
theorem IsSettled.ofVocabulary (h : c.IsSettled name) : c.OfVocabulary (.settled name) where
  function := h.function
  returnType := h.returnType
  parameters := h.parameters
  precondition pre hpre _ hout := Expr.isSettled_of_asAssumption hout (h.precondition pre hpre)
  postcondition post hpost binding _ hbinding hout := by
    refine Expr.isSettled_of_asAssertion hout (h.postcondition post hpost) hbinding
      fun n written hn => ?_
    obtain ⟨p, hp, -, rfl⟩ := exists_of_lookup_snapshots hn
    exact name_snapshotName (Vocabulary.lawful_settled name)
      (h.parameters p (mem_parameters_of_mem_snapshotted hp)).1

end Contract

/-! ## Test classes -/

theorem isBare_of_identifier {written : String}
    (h : ∀ ch ∈ written.toList, isIdentifierChar ch = true) : IsBare written := by
  intro ch hch
  have hword := h ch hch
  simp only [isBareChar, isQuote, Bool.and_eq_true, Bool.not_eq_true', Bool.or_eq_false_iff,
    bne_iff_ne, beq_eq_false_iff_ne]
  refine ⟨⟨⟨?_, ?_⟩, ?_⟩, ?_⟩ <;> rintro rfl <;> exact absurd hword (by decide)

namespace TestMethod

variable {function : String}

/-- The test method of a function that is an identifier. -/
theorem isHelperName_nameFor (h : ∀ ch ∈ function.toList, isIdentifierChar ch = true) :
    IsHelperName (nameFor function).toList where
  nonempty := by simp [nameFor]
  chars := by
    rw [nameFor, String.toList_append, List.forall_mem_append]
    exact ⟨h, List.all_eq_true.1 (by decide)⟩
  underscore := by simp [nameFor]

end TestMethod

namespace TestClass

/-- What a class is built from: the names in it are bare, and no string literal in the contracts of
the called functions looks like a call of one of the test methods. -/
structure Unambiguous (options : ClassOptions) (table : ContractTable) (calls : CallSequence) :
    Prop where
  options : options.AreBare
  identifiers : ∀ function ∈ calls, ∀ ch ∈ function.toList, isIdentifierChar ch = true
  contracts : ∀ function ∈ calls, ∀ contract ∈ table.get? function, ∀ other ∈ calls,
    contract.IsSettled (TestMethod.nameFor other).toList

variable {options : ClassOptions} {table : ContractTable} {calls : CallSequence} {c : TestClass}

namespace Unambiguous

theorem isHelperName (hu : Unambiguous options table calls) (h : build options table calls = .ok c)
    {m : TestMethod} (hm : m ∈ c.methods) : IsHelperName m.name.toList := by
  obtain ⟨function, hfunction, htest⟩ := exists_isTestFor h m hm
  rw [htest.name_eq]
  exact TestMethod.isHelperName_nameFor (hu.identifiers function hfunction)

theorem imports (hu : Unambiguous options table calls) (methods : List TestMethod) :
    ∀ i ∈ importsFor options methods, IsBare i := by
  have hstatic : IsBare (staticImport options) := by
    have hwritten : IsBare "static " ∧ IsBare "." ∧ IsBare ".*" := by decide
    simp [staticImport, hwritten, hu.options.package, hu.options.targetClass]
  intro i hi
  rw [importsFor, List.mem_eraseDups, List.mem_append] at hi
  rcases hi with hi | hi
  · exact hu.options.imports i hi
  · split at hi
    · rwa [List.mem_singleton.1 hi]
    · cases hi

theorem builtFrom (hu : Unambiguous options table calls) {function : String}
    (hfunction : function ∈ calls) :
    BuiltFrom (.settled (TestMethod.nameFor function).toList) options table calls where
  className := hu.options.className
  targetClass := hu.options.targetClass
  functions called hcalled := isBare_of_identifier (hu.identifiers called hcalled)
  contracts called hcalled contract hcontract :=
    (hu.contracts called hcalled contract hcontract function hfunction).ofVocabulary

/-- A class that is built from unambiguous contracts is settled for each of its methods. -/
theorem isSettled (hu : Unambiguous options table calls) (h : build options table calls = .ok c)
    {m : TestMethod} (hm : m ∈ c.methods) : c.IsSettled m.name.toList := by
  obtain ⟨function, hfunction, htest⟩ := exists_isTestFor h m hm
  obtain ⟨hmethods, hmain⟩ :=
    ofBlock_of_build (Vocabulary.lawful_settled _) (hu.builtFrom hfunction) h
  have hidentifiers : ∀ other ∈ c.methods, ∀ ch ∈ other.name.toList, isIdentifierChar ch = true :=
    fun other hother => (hu.isHelperName h hother).chars
  rw [htest.name_eq]
  obtain ⟨methods, -, h⟩ := bind_eq_ok_iff.1 h
  cases h
  exact {
    package := hu.options.package
    className := hu.options.className
    imports := hu.imports methods
    identifiers := hidentifiers
    methods := hmethods
    main := hmain }

end Unambiguous

/-- The symbolic form of a settled class. -/
theorem IsSettled.symbolic {name : List Char} (h : c.IsSettled name) :
    c.symbolic.IsSettled name where
  package := h.package
  className := h.className
  imports := by
    simp only [TestClass.symbolic]
    split
    · exact h.imports
    · exact List.forall_mem_append.2 ⟨h.imports, List.forall_mem_singleton.2 (by decide)⟩
  identifiers := List.forall_mem_map.2 h.identifiers
  methods := List.forall_mem_map.2 fun m hm =>
    (Vocabulary.lawful_settled name).symbolicAll (h.methods m hm)
  main := (Vocabulary.lawful_settled name).symbolicAll h.main

end TestClass

end ContractTests
