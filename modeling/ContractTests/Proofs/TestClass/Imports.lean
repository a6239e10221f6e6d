import ContractTests.Proofs.TestClass.Rendered
import ContractTests.Proofs.TestClass.Sequence

/-! # The imports of a class that is built

A class imports the configured names, each once and in the order in which they are configured. After
them it imports at most the members of the target class, when a condition calls a function without a
receiver (`TestClass.HasImports`). The import of the members is spelled with the package and a point
before the name of the target class. With a package this is the qualified name of that class;
without one there is a point too many (`TestClass.build_imports`).
-/

set_option autoImplicit false

namespace ContractTests

/-! ## Calls without a receiver -/

theorem Expr.any_isBareCall_iff {e : Expr} :
    e.subterms.any isBareCall = true ↔ ∃ name args, .call name args ∈ e.subterms := by
  rw [List.any_eq_true]
  constructor
  · rintro ⟨x, hx, hbare⟩
    cases x with
    | call name args => exact ⟨name, args, hx⟩
    | _ => cases hbare
  · rintro ⟨name, args, hx⟩
    exact ⟨_, hx, rfl⟩

namespace Stmt

/-- The statement assumes or asserts a condition with a call without a receiver in it. -/
def CallsMember (s : Stmt) : Prop :=
  ∃ condition, (s = .assume condition ∨ s = .assert condition) ∧
    ∃ name args, .call name args ∈ condition.subterms

theorem checked?_eq_some_iff {s : Stmt} {condition : Expr} :
    s.checked? = some condition ↔ s = .assume condition ∨ s = .assert condition := by
  cases s <;> simp [checked?]

end Stmt

namespace TestClass

variable {options : ClassOptions} {table : ContractTable} {calls : CallSequence} {c : TestClass}

/-! ## Adding imports -/

theorem imports_addImport (c : TestClass) (name : String) :
    (c.addImport name).imports = if name ∈ c.imports then c.imports else c.imports ++ [name] := by
  unfold addImport hasImport
  by_cases h : name ∈ c.imports
  · rw [if_pos (List.contains_iff_mem.2 h), if_pos h]
  · rw [if_neg (mt List.contains_iff_mem.1 h), if_neg h]

/-- Names that are added one by one are imported in the order of first occurrences. -/
theorem imports_foldl_addImport (package name : String) (names : List String) :
    (names.foldl addImport (empty package name)).imports = names.eraseDups := by
  -- From the end of the list, since each name is compared with those before it.
  induction names using List.reverseRecOn with
  | nil => rfl
  | append_singleton names last ih =>
    rw [List.foldl_append, List.foldl_cons, List.foldl_nil, imports_addImport, ih,
      eraseDups_append_singleton]
    simp only [List.mem_eraseDups]

/-! ## The members of the target class -/

/-- A statement of a method, at any depth, calls a function without a receiver where it checks
something. -/
def CallsMembers (methods : List TestMethod) : Prop :=
  ∃ m ∈ methods, ∃ s ∈ m.statements, s.CallsMember

theorem any_hasBareCall_iff {methods : List TestMethod} :
    methods.any hasBareCall = true ↔ CallsMembers methods := by
  have hmethod (m : TestMethod) : hasBareCall m = true ↔ ∃ s ∈ m.statements, s.CallsMember := by
    unfold hasBareCall
    rw [List.any_eq_true]
    simp only [List.mem_filterMap, Stmt.checked?_eq_some_iff, Expr.any_isBareCall_iff]
    constructor
    · rintro ⟨condition, ⟨s, hs, hchecked⟩, hcall⟩
      exact ⟨s, hs, condition, hchecked, hcall⟩
    · rintro ⟨s, hs, condition, hchecked, hcall⟩
      exact ⟨condition, ⟨s, hs, hchecked⟩, hcall⟩
  simp only [List.any_eq_true, hmethod]
  rfl

/-- The import of all members of a class. -/
def membersOf (name : String) : String := "static " ++ name ++ ".*"

theorem membersOf_injective : Function.Injective membersOf := fun _ _ h =>
  (String.append_right_inj _).1 ((String.append_left_inj _).1 h)

/-- The target class is qualified as a test class is. -/
def qualifiedTarget (options : ClassOptions) : String :=
  (empty options.package options.targetClass).qualifiedName

theorem qualifiedTarget_of_package_eq (hpackage : options.package = "") :
    qualifiedTarget options = options.targetClass := if_pos (by simp [empty, hpackage])

theorem staticImport_eq (hpackage : options.package ≠ "") :
    staticImport options = membersOf (qualifiedTarget options) := by
  have hqualified : qualifiedTarget options = options.package ++ "." ++ options.targetClass :=
    if_neg (by simpa [empty] using hpackage)
  rw [staticImport, membersOf, hqualified]
  simp only [String.append_assoc]

/-- Without a package there is a point too many. -/
theorem staticImport_of_package_eq (hpackage : options.package = "") :
    staticImport options = membersOf ("." ++ options.targetClass) := by
  rw [staticImport, membersOf, hpackage]
  simp only [String.append_empty, String.append_assoc]

theorem point_append_ne (name : String) : "." ++ name ≠ name := by
  intro h
  have hlength := congrArg String.length h
  rw [String.length_append] at hlength
  simp at hlength

/-! ## What is imported -/

/-- The class imports the configured names, each once and in the order in which they are configured,
and after them at most `members`, which it imports when a condition needs them or they are
configured. -/
structure HasImports (configured : List String) (members : String) (c : TestClass) : Prop where
  nodup : c.imports.Nodup
  start : ∃ first, FirstsOf first configured ∧ (c.imports = first ∨ c.imports = first ++ [members])
  members_iff : members ∈ c.imports ↔ CallsMembers c.methods ∨ members ∈ configured

theorem imports_of_build (h : build options table calls = .ok c) :
    c.imports = (options.imports ++
      if c.methods.any hasBareCall then [staticImport options] else []).eraseDups := by
  obtain ⟨methods, -, h⟩ := bind_eq_ok_iff.1 h
  cases h
  rfl

theorem hasImports_of_build (h : build options table calls = .ok c) :
    c.HasImports options.imports (staticImport options) := by
  have himports := imports_of_build h
  refine ⟨?nodup, ⟨options.imports.eraseDups, firstsOf_eraseDups _, ?start⟩, ?members_iff⟩
  case nodup =>
    rw [himports]
    exact nodup_eraseDups _
  case start =>
    rw [himports]
    split
    · rw [eraseDups_append_singleton]
      split
      · exact .inl rfl
      · exact .inr rfl
    · exact .inl (by rw [List.append_nil])
  case members_iff =>
    rw [himports, List.mem_eraseDups, List.mem_append, ← any_hasBareCall_iff, or_comm]
    refine or_congr_left ?_
    split <;> simp [*]

/-- What a class imports besides the configured names is the import of the members. -/
theorem HasImports.mem_iff_of_ne {configured : List String} {members name : String}
    (h : c.HasImports configured members) (hne : name ≠ members) :
    name ∈ c.imports ↔ name ∈ configured := by
  obtain ⟨first, hfirst, himports⟩ := h.start
  rw [← hfirst.mem_iff]
  rcases himports with himports | himports
  · rw [himports]
  · rw [himports, List.mem_append, List.mem_singleton, or_iff_left hne]

/-- The imports of a class that is built are those that adding one by one gives, and they are as
they should be when there is a package. Without a package the name of the target class is the
qualified one; but a name with a point before it is imported in its place, and it is imported only
if it is configured. -/
theorem build_imports (h : build options table calls = .ok c) :
    c.imports = ((options.imports ++
        if c.methods.any hasBareCall then [staticImport options] else []).foldl addImport
          (empty options.package options.className)).imports ∧
      (options.package ≠ "" → c.HasImports options.imports (membersOf (qualifiedTarget options))) ∧
      (options.package = "" → qualifiedTarget options = options.targetClass ∧
        c.HasImports options.imports (membersOf ("." ++ options.targetClass)) ∧
        (membersOf options.targetClass ∈ c.imports ↔
          membersOf options.targetClass ∈ options.imports)) := by
  have hbuilt := hasImports_of_build h
  refine ⟨?_, fun hpackage => ?_, fun hpackage => ?_⟩
  · rw [imports_foldl_addImport]
    exact imports_of_build h
  · rwa [← staticImport_eq hpackage]
  · rw [staticImport_of_package_eq hpackage] at hbuilt
    refine ⟨qualifiedTarget_of_package_eq hpackage, hbuilt, hbuilt.mem_iff_of_ne ?_⟩
    exact membersOf_injective.ne (point_append_ne options.targetClass).symm

/-- The contract of `int half(int x)` with the precondition `even(x)`. -/
def half : Contract where
  name := "half"
  signature := ⟨"half", [⟨"x", "int"⟩], "int"⟩
  precondition := some (.call "even" [.var "x"])
  postcondition := none

/-- A package, and names of which one is configured twice. -/
def inPackage : ClassOptions :=
  { package := "demo", imports := ["org.junit.Test", "java.util.*", "org.junit.Test"] }

theorem half_imports :
    (∃ c, build inPackage ⟨[half]⟩ ["half", "half"] = .ok c ∧ inPackage.package ≠ "" ∧
      c.HasImports inPackage.imports (membersOf "demo.Helper")) ∧
    ∃ c, build { package := "" } ⟨[half]⟩ ["half"] = .ok c ∧
      c.imports = ["org.junit.Test", "java.util.*", "static .Helper.*"] ∧
      membersOf "Helper" ∉ c.imports := by
  constructor
  · obtain ⟨c, h⟩ : ∃ c, build inPackage ⟨[half]⟩ ["half", "half"] = .ok c := ⟨_, rfl⟩
    exact ⟨c, h, by decide, (build_imports h).2.1 (by decide)⟩
  · obtain ⟨c, h⟩ : ∃ c, build { package := "" } ⟨[half]⟩ ["half"] = .ok c := ⟨_, rfl⟩
    refine ⟨c, h, ?_, fun hmem => ?_⟩
    · cases h
      decide
    · exact absurd (((build_imports h).2.2 rfl).2.2.1 hmem) (by decide)

end TestClass

end ContractTests
