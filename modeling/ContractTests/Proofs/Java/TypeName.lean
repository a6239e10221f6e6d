import ContractTests.Java.Expression
import ContractTests.Proofs.Text.Trim
import Mathlib.Data.List.TakeWhile

/-! # Type names

A type name is a collection's if its base name is one of the known names
(`category_eq_collection_iff`). The class that it is copied into is found in a table
(`mem_copyClasses`) and is a collection of its own (`IsCopyClass.of_collection`). Square brackets
after a name make it the name of an array. They are seen only in a name without generic arguments:
the base name ends at the first angle bracket, and so an array of a generic collection is taken for
the collection (`category_withDimensions`).
-/

set_option autoImplicit false

namespace ContractTests.JavaType

variable {type : String} {cs : List Char}

/-! ## Base names -/

theorem baseChars_trim (cs : List Char) : baseChars (Text.trim cs) = baseChars cs := by
  rw [baseChars, Text.trim_trim, baseChars]

theorem base_trimmed (type : String) : base (Text.trimmed type) = base type := by
  rw [base, Text.trimmed, String.toList_ofList, baseChars_trim, base]

theorem category_eq_collection_iff : category type = .collection ↔ base type ∈ collections := by
  have hprimitives : ∀ name ∈ primitives, base name ∉ collections := by decide
  unfold category
  split
  · rename_i hprimitive
    have hnot := hprimitives _ (List.contains_iff_mem.1 hprimitive)
    rw [base_trimmed] at hnot
    simpa using hnot
  · split
    · rename_i hcollection
      simpa using List.contains_iff_mem.1 hcollection
    · rename_i hcollection
      simpa using mt List.contains_iff_mem.2 hcollection

theorem implementation_congr {s t : String} (h : base s = base t) :
    implementation s = implementation t := by
  rw [implementation, h, ← implementation]

/-! ## Classes of copies -/

/-- A collection type that is its own implementation, also in the form with a diamond, in which no
interface and no array is seen. -/
structure IsCopyClass (name : String) : Prop where
  category : category name = .collection
  implementation : implementation name = name
  notInterface : Java.isInterface (name ++ "<>") = false
  notArray : Text.stripEnd? ['[', ']'] (name ++ "<>").toList = none

theorem implementation_base (h : category type = .collection) :
    implementation (base type) = implementation type := by
  have hbase : ∀ name ∈ collections, base name = name := by decide
  exact implementation_congr (hbase _ (category_eq_collection_iff.1 h))

/-- The class that each collection is copied into. -/
def copyClasses : List (String × String) :=
  [("Set", "HashSet"), ("Map", "HashMap"), ("List", "ArrayList"), ("Collection", "ArrayList"),
   ("Queue", "LinkedList"), ("Deque", "LinkedList"), ("HashSet", "HashSet"), ("HashMap", "HashMap"),
   ("ArrayList", "ArrayList"), ("LinkedList", "LinkedList"), ("TreeSet", "TreeSet"),
   ("TreeMap", "TreeMap"), ("LinkedHashSet", "LinkedHashSet"), ("LinkedHashMap", "LinkedHashMap"),
   ("ArrayDeque", "ArrayDeque")]

theorem mem_copyClasses (h : category type = .collection) :
    (base type, implementation type) ∈ copyClasses := by
  have hall : ∀ name ∈ collections, (name, implementation name) ∈ copyClasses := by decide
  have hmem := hall _ (category_eq_collection_iff.1 h)
  rwa [implementation_base h] at hmem

theorem IsCopyClass.of_collection (h : JavaType.category type = .collection) :
    IsCopyClass (JavaType.implementation type) := by
  have hall : ∀ name ∈ collections,
      let c := JavaType.implementation name
      JavaType.category c = .collection ∧ JavaType.implementation c = c ∧
        Java.isInterface (c ++ "<>") = false ∧
        Text.stripEnd? ['[', ']'] (c ++ "<>").toList = none := by decide +kernel
  obtain ⟨hcategory, himplementation, hinterface, harray⟩ :=
    hall _ (category_eq_collection_iff.1 h)
  rw [implementation_base h] at hcategory himplementation hinterface harray
  exact ⟨hcategory, himplementation, hinterface, harray⟩

theorem IsCopyClass.newObject {name : String} (h : IsCopyClass name) (args : List String) :
    Java.newObject (name ++ "<>") args =
      "new " ++ name ++ "<>(" ++ Java.commaSeparated args ++ ")" := by
  unfold Java.newObject
  rw [h.notArray]
  simp [h.notInterface, String.append_assoc]

/-! ## Array types -/

/-- The name of the arrays of a type with the given number of dimensions. -/
def withDimensions (type : String) : Nat → String
  | 0 => type
  | n + 1 => withDimensions type n ++ "[]"

/-- A collection type that is written with generic arguments. -/
def IsGenericCollection (type : String) : Prop :=
  '<' ∈ type.toList ∧ category type = .collection

instance : DecidablePred IsGenericCollection := fun _ => inferInstanceAs (Decidable (_ ∧ _))

theorem mem_toList_brackets (type : String) : ']' ∈ (type ++ "[]").toList := by
  rw [String.toList_append]
  exact List.mem_append_right _ (by decide)

theorem mem_trimmed_brackets (type : String) : ']' ∈ (Text.trimmed (type ++ "[]")).toList := by
  rw [Text.trimmed, String.toList_ofList]
  exact (Text.mem_trim_iff rfl).2 (mem_toList_brackets type)

/-- Without angle brackets a base name has all characters but white space and the package. -/
theorem mem_baseChars {c : Char} (hangle : '<' ∉ cs) (hblank : Text.isBlank c = false)
    (hpackage : c ∉ utilPackage) (h : c ∈ cs) : c ∈ baseChars cs := by
  have hwhole : (Text.trim cs).takeWhile (· != '<') = Text.trim cs := by
    refine List.takeWhile_eq_self_iff.2 fun d hd => bne_iff_ne.2 fun heq => ?_
    exact hangle ((Text.mem_trim_iff rfl).1 (heq ▸ hd))
  have hraw : c ∈ Text.trimEnd (Text.trim cs) :=
    (Text.mem_trimEnd_iff hblank).2 ((Text.mem_trim_iff hblank).2 h)
  unfold baseChars
  dsimp only
  rw [hwhole]
  split
  · rename_i hprefix
    obtain ⟨rest, hrest⟩ := List.isPrefixOf_iff_prefix.1 hprefix
    rw [← hrest, List.drop_left]
    rw [← hrest] at hraw
    exact (List.mem_append.1 hraw).resolve_left hpackage
  · exact hraw

/-- What follows the first angle bracket is not in the base name. -/
theorem baseChars_append {rest : List Char} (hangle : '<' ∈ cs) (hrest : Text.IsTrimmed rest)
    (hne : rest ≠ []) : baseChars (cs ++ rest) = baseChars cs := by
  obtain ⟨⟨u, v, hu, -, hsplit⟩, htrimmed⟩ := Text.exists_trim cs
  have hmem : '<' ∈ Text.trim cs := (Text.mem_trim_iff rfl).2 hangle
  have htrim : Text.trim (cs ++ rest) = Text.trim cs ++ (v ++ rest) := by
    have hends : Text.IsTrimmed (Text.trim cs ++ (v ++ rest)) := by
      refine ⟨?_, ?_⟩
      · rw [List.head?_append_of_ne_nil _ (List.ne_nil_of_mem hmem)]
        exact htrimmed.head
      · rw [← List.append_assoc, List.getLast?_append_of_ne_nil _ hne]
        exact hrest.last
    have hpad := Text.trim_pad hends hu Text.isBlankText_nil
    rwa [List.append_nil, ← List.append_assoc, ← List.append_assoc, ← hsplit] at hpad
  have hcut : (Text.trim cs ++ (v ++ rest)).takeWhile (· != '<') =
      (Text.trim cs).takeWhile (· != '<') := by
    rw [List.takeWhile_append, if_neg]
    intro hlength
    have hwhole := (List.takeWhile_sublist _).eq_of_length hlength
    exact absurd (List.takeWhile_eq_self_iff.1 hwhole _ hmem) (by decide)
  rw [baseChars, htrim, hcut, ← baseChars]

theorem base_brackets (h : '<' ∈ type.toList) : base (type ++ "[]") = base type := by
  rw [base, String.toList_append, baseChars_append h (by decide) (by decide), ← base]

/-- One more dimension: a generic collection stays one, and any other name becomes a reference. -/
theorem category_brackets (type : String) :
    category (type ++ "[]") = if IsGenericCollection type then .collection else .reference := by
  have hprimitives : ∀ name ∈ primitives, ']' ∉ name.toList := by decide
  have hnot : Text.trimmed (type ++ "[]") ∉ primitives := fun hmem =>
    hprimitives _ hmem (mem_trimmed_brackets type)
  have hcollection : base (type ++ "[]") ∈ collections ↔ IsGenericCollection type := by
    by_cases hangle : '<' ∈ type.toList
    · rw [base_brackets hangle, ← category_eq_collection_iff]
      exact (and_iff_right hangle).symm
    · have hcollections : ∀ name ∈ collections, ']' ∉ name.toList := by decide
      refine iff_of_false (fun hmem => hcollections _ hmem ?_) (mt And.left hangle)
      rw [base, String.toList_ofList]
      refine mem_baseChars ?_ rfl (by decide) (mem_toList_brackets type)
      simpa using hangle
  rw [category, if_neg (mt List.contains_iff_mem.1 hnot)]
  simp only [List.contains_iff_mem, hcollection]

theorem isGenericCollection_brackets :
    IsGenericCollection (type ++ "[]") ↔ IsGenericCollection type := by
  rw [IsGenericCollection, category_brackets]
  by_cases h : IsGenericCollection type
  · simp [h, h.1]
  · simp [h]

theorem isGenericCollection_withDimensions (type : String) (n : Nat) :
    IsGenericCollection (withDimensions type n) ↔ IsGenericCollection type := by
  induction n with
  | zero => rfl
  | succ n ih => rw [withDimensions, isGenericCollection_brackets, ih]

theorem category_withDimensions (type : String) (n : Nat) :
    category (withDimensions type (n + 1)) =
      if IsGenericCollection type then .collection else .reference := by
  rw [withDimensions, category_brackets]
  simp only [isGenericCollection_withDimensions]

example : category "Set<Integer>[]" = .collection ∧ category "Set[]" = .reference := by decide

theorem implementation_withDimensions (h : IsGenericCollection type) (n : Nat) :
    implementation (withDimensions type n) = implementation type := by
  induction n with
  | zero => rfl
  | succ n ih =>
    have hgeneric := (isGenericCollection_withDimensions type n).2 h
    rw [withDimensions, implementation_congr (base_brackets hgeneric.1), ih]

end ContractTests.JavaType
