import ContractTests.Proofs.Java.TypeName
import ContractTests.Proofs.TestRun.Law
import ContractTests.TestClass.Symbolic

/-! # Copies and seeds of collections

A snapshot of a collection is made by a class that copies its argument, and a symbolic collection
starts from an empty object of the same class (`Contract.snapshot_and_seed_of_collection`), however
the type is spelled. An array has no such class, and is shared instead, but an array of a collection
with generic arguments is treated like the collection (`Contract.snapshot_and_seed_of_array`).
-/

set_option autoImplicit false

namespace ContractTests

/-- The copy of a variable: null if it is null, and else a new object that is made from it. -/
def copyUnlessNull (name target : String) : Expr :=
  .conditional (.binary .equal (.var name) .null) .null (.create target [.var name])

/-! ## Symbolic values of objects -/

/-- The types that have a symbolic function of their own. -/
def symbolicScalars : List String := JavaType.primitives ++ ["String", "java.lang.String"]

section

variable {type : String}

theorem symbolicFunction?_eq_none (h : type ∉ symbolicScalars) : symbolicFunction? type = none := by
  unfold symbolicFunction?
  split <;> first | rfl | exact absurd (by decide) h

theorem symbolicValue_of_not_mem (name : String) (h : Text.trimmed type ∉ symbolicScalars) :
    symbolicValue type name = .cast (Text.trimmed type)
      (debugCall "makeSymbolicRef" [.string name, symbolicSeed type]) := by
  have hne (scalar : String) (hscalar : scalar ∈ symbolicScalars) :
      (Text.trimmed type == scalar) = false := beq_eq_false_iff_ne.2 fun heq => h (heq ▸ hscalar)
  unfold symbolicValue
  simp only [symbolicFunction?_eq_none h, hne "float" (by decide), hne "Float" (by decide),
    hne "boolean" (by decide), hne "Boolean" (by decide), Bool.or_false, Bool.false_eq_true,
    if_false]

theorem trimmed_collection_not_mem (h : JavaType.category type = .collection) :
    Text.trimmed type ∉ symbolicScalars := fun hmem => by
  have hscalars : ∀ scalar ∈ symbolicScalars, JavaType.base scalar ∉ JavaType.collections := by
    decide
  have hbase := hscalars _ hmem
  rw [JavaType.base_trimmed] at hbase
  exact hbase (JavaType.category_eq_collection_iff.1 h)

theorem trimmed_brackets_not_mem (type : String) :
    Text.trimmed (type ++ "[]") ∉ symbolicScalars := fun hmem => by
  have hscalars : ∀ scalar ∈ symbolicScalars, ']' ∉ scalar.toList := by decide
  exact hscalars _ hmem (JavaType.mem_trimmed_brackets type)

theorem symbolicSeed_of_collection (h : JavaType.category type = .collection) :
    symbolicSeed type = .create (JavaType.implementation type ++ "<>") [] := by
  simp only [symbolicSeed, h, JavaType.implementation_base h]

theorem symbolicSeed_of_reference (h : JavaType.category type = .reference) :
    symbolicSeed type = .null := by
  rw [symbolicSeed, h]

end

namespace Contract

variable {c : Contract} {p : Parameter}

/-! ## Snapshots -/

theorem snapshotValue_of_collection (h : p.category = .collection) :
    snapshotValue p = copyUnlessNull p.name (JavaType.implementation p.type ++ "<>") := by
  rw [snapshotValue, h, copyUnlessNull]

theorem snapshotValue_of_reference (h : p.category = .reference) :
    snapshotValue p = .var p.name := by
  rw [snapshotValue, h]

/-- The snapshots that are declared in a test method. -/
theorem snapshotDeclaration_mem {options : ClassOptions} {test : TestMethod}
    (h : c.testMethod options = .ok test) (hp : p ∈ c.snapshotted) :
    .declare p.type (snapshotName p.name) (snapshotValue p) ∈ test.body := by
  obtain ⟨assumption, checks, -, -, hbody⟩ := testMethod_eq_ok h
  rw [hbody]
  refine List.mem_append_right _ (List.mem_cons_of_mem _ (List.mem_append_left _ ?_))
  exact List.mem_map_of_mem hp

/-! ## Arrays -/

open JavaType

/-- An array is a reference, which its snapshot shares and whose symbolic value starts from null,
unless its elements are collections with generic arguments: then it is taken for the collection. -/
theorem snapshot_and_seed_of_array (name type : String) (n : Nat) :
    let p : Parameter := ⟨name, withDimensions type (n + 1)⟩
    let target := implementation type ++ "<>"
    p.category = (if IsGenericCollection type then .collection else .reference) ∧
      (∀ c options test, testMethod options c = .ok test → p ∈ c.snapshotted →
        .declare p.type (snapshotName p.name) (snapshotValue p) ∈ test.body) ∧
      snapshotValue p =
        (if IsGenericCollection type then copyUnlessNull name target else .var name) ∧
      symbolicValue p.type name = .cast (Text.trimmed p.type) (debugCall "makeSymbolicRef"
        [.string name, if IsGenericCollection type then .create target [] else .null]) := by
  intro p target
  have hcategory : p.category = if IsGenericCollection type then .collection else .reference :=
    category_withDimensions type n
  have hvalue : symbolicValue p.type name = _ :=
    symbolicValue_of_not_mem name (trimmed_brackets_not_mem _)
  refine ⟨hcategory, fun _ _ _ htest => snapshotDeclaration_mem htest, ?_⟩
  rw [hvalue]
  by_cases h : IsGenericCollection type
  · rw [if_pos h] at hcategory
    rw [if_pos h, if_pos h, snapshotValue_of_collection hcategory,
      symbolicSeed_of_collection hcategory, implementation_withDimensions h]
    exact ⟨rfl, rfl⟩
  · rw [if_neg h] at hcategory
    rw [if_neg h, if_neg h, snapshotValue_of_reference hcategory,
      symbolicSeed_of_reference hcategory]
    exact ⟨rfl, rfl⟩

/-! ## Collections -/

theorem render_copyUnlessNull (name target : String) :
    (copyUnlessNull name target).render = .ok ("((" ++ name ++ " == null) ? null : " ++
      Java.newObject target [name] ++ ")") := by
  have htext : (copyUnlessNull name target).render = .ok ("(" ++ ("(" ++ name ++ " " ++ "==" ++
    " " ++ "null" ++ ")") ++ " ? " ++ "null" ++ " : " ++ Java.newObject target [name] ++ ")") := rfl
  rw [htext]
  simp [← String.toList_inj]

theorem render_makeSymbolicRef (type name target : String) :
    (Expr.cast type (debugCall "makeSymbolicRef" [.string name, .create target []])).render =
      .ok ("((" ++ type ++ ") Debug.makeSymbolicRef(" ++ Text.javaLiteral name ++ ", " ++
        Java.newObject target [] ++ "))") := by
  have htext : (Expr.cast type (debugCall "makeSymbolicRef"
      [.string name, .create target []])).render = .ok ("((" ++ type ++ ") " ++ ("Debug" ++ "." ++
        "makeSymbolicRef" ++ "(" ++ Java.commaSeparated [Text.javaLiteral name,
          Java.newObject target []] ++ ")") ++ ")") := rfl
  rw [htext]
  simp [← String.toList_inj, Java.commaSeparated, String.intercalate_cons_cons]

/-- However its type is spelled, a collection is copied by the class that `copyClasses` has for its
name, a collection class that is its own implementation and takes the collection as it is, and a
symbolic value starts from an empty object of that class. -/
theorem snapshot_and_seed_of_collection (h : p.category = .collection) :
    let copyClass := implementation p.type
    (base p.type, copyClass) ∈ copyClasses ∧
      category copyClass = .collection ∧ implementation copyClass = copyClass ∧
      (∀ c options test, testMethod options c = .ok test → p ∈ c.snapshotted →
        .declare p.type (snapshotName p.name) (snapshotValue p) ∈ test.body) ∧
      (snapshotValue p).render = .ok ("((" ++ p.name ++ " == null) ? null : new " ++ copyClass ++
        "<>(" ++ p.name ++ "))") ∧
      (symbolicValue p.type p.name).render = .ok ("((" ++ Text.trimmed p.type ++
        ") Debug.makeSymbolicRef(" ++ Text.javaLiteral p.name ++ ", new " ++ copyClass ++
        "<>()))") ∧
      Java.isInterface (copyClass ++ "<>") = false ∧
      ∀ args, Java.newObject (copyClass ++ "<>") args =
        "new " ++ copyClass ++ "<>(" ++ Java.commaSeparated args ++ ")" := by
  intro copyClass
  have hclass : IsCopyClass copyClass := .of_collection h
  refine ⟨mem_copyClasses h, hclass.category, hclass.implementation, fun _ _ _ htest =>
    snapshotDeclaration_mem htest, ?snapshot, ?symbolic, hclass.notInterface, hclass.newObject⟩
  case snapshot =>
    rw [snapshotValue_of_collection h, render_copyUnlessNull, hclass.newObject]
    simp [← String.toList_inj, Java.commaSeparated]
  case symbolic =>
    rw [symbolicValue_of_not_mem p.name (trimmed_collection_not_mem h),
      symbolicSeed_of_collection h, render_makeSymbolicRef, hclass.newObject]
    simp [← String.toList_inj, Java.commaSeparated]

/-- A map, spelled with its package, with type arguments and with white space. -/
def spelledMap : Parameter := ⟨"m", " java.util.Map <K, V> "⟩

theorem spelledMap_snapshot_and_seed : spelledMap.category = .collection ∧
    (snapshotValue spelledMap).render = .ok "((m == null) ? null : new HashMap<>(m))" ∧
    (symbolicValue spelledMap.type "m").render =
      .ok "((java.util.Map <K, V>) Debug.makeSymbolicRef(\"m\", new HashMap<>()))" := by
  have hcollection : spelledMap.category = .collection := by decide
  have hclass : implementation spelledMap.type = "HashMap" := by decide
  obtain ⟨-, -, -, -, hsnapshot, hsymbolic, -⟩ := snapshot_and_seed_of_collection hcollection
  rw [hclass] at hsnapshot hsymbolic
  exact ⟨hcollection, hsnapshot, hsymbolic⟩

end Contract

end ContractTests
