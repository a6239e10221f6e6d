import ContractTests.Artifacts
import ContractTests.Proofs.TestClass.Rendered
import ContractTests.Proofs.TestClass.Settled

/-! # The search documents of a class that is built

The documents of the test methods are named for the signatures that the symbolic source declares.
For a class that is built from unambiguous contracts these are the names of the methods without
parameters, so that there is a document for each of its methods (`TestClass.artifacts_of_build`).
-/

set_option autoImplicit false

namespace ContractTests

namespace SearchSettings

/-- The document of a method names it by its signature. -/
theorem get?_methodDocument (s : SearchSettings) (target signature : String) :
    (s.methodDocument target signature).get? "symbolic.method" =
      some (target ++ "." ++ signature) := rfl

theorem fileName_injective (className : String) : Function.Injective (fileName className) :=
  fun _ _ h => (String.append_right_inj _).1 ((String.append_left_inj _).1 h)

/-- The documents of a class whose methods are named without parameters. -/
def plainDocuments (s : SearchSettings) (c : TestClass) : List (String × Properties) :=
  (fileName c.name "main", s.programDocument c.qualifiedName) :: c.methods.map fun m =>
    (fileName c.name m.name, s.methodDocument c.qualifiedName (m.name ++ "()"))

theorem methodDocuments_eq_ok (s : SearchSettings) (c : TestClass) {source : String}
    {methods : List TestMethod}
    (h : ∀ m ∈ methods, Java.signatureOf source m.name = .ok (m.name ++ "()")) :
    s.methodDocuments c source methods = .ok (methods.map fun m =>
      (fileName c.name m.name, s.methodDocument c.qualifiedName (m.name ++ "()"))) := by
  induction methods with
  | nil => rfl
  | cons m rest ih =>
    obtain ⟨hm, hrest⟩ := List.forall_mem_cons.1 h
    rw [methodDocuments, hm, ih hrest]
    rfl

theorem documents_eq_ok (s : SearchSettings) (c : TestClass) {source : String}
    (h : ∀ m ∈ c.methods, Java.signatureOf source m.name = .ok (m.name ++ "()")) :
    s.documents c source = .ok (s.plainDocuments c) := by
  rw [documents, methodDocuments_eq_ok s c h]
  rfl

/-- The symbolic form of a class has the documents of the class. -/
theorem plainDocuments_symbolic (s : SearchSettings) (c : TestClass) :
    s.plainDocuments c.symbolic = s.plainDocuments c := by
  rw [plainDocuments, TestClass.symbolic, List.map_map]
  rfl

end SearchSettings

namespace TestClass

open SearchSettings

variable {options : ClassOptions} {table : ContractTable} {calls : CallSequence} {c : TestClass}

/-- A document for the program and then one for each method, in the order of the methods. That of a
method names it without parameters, and the file names differ. -/
structure Documented (settings : SearchSettings) (c : TestClass)
    (documents : List (String × Properties)) : Prop where
  files : documents.map Prod.fst =
    fileName c.name "main" :: c.methods.map fun m => fileName c.name m.name
  nodup : (documents.map Prod.fst).Nodup
  program : documents.lookup (fileName c.name "main") =
    some (settings.programDocument c.qualifiedName)
  method : ∀ m ∈ c.methods, ∃ document : Properties,
    (fileName c.name m.name, document) ∈ documents ∧
      document.get? "symbolic.method" = some (c.qualifiedName ++ "." ++ (m.name ++ "()"))

theorem documented_plainDocuments (settings : SearchSettings)
    (hnames : ∀ m ∈ c.methods, Java.IsHelperName m.name.toList)
    (hnodup : (c.methods.map (·.name)).Nodup) :
    Documented settings c (settings.plainDocuments c) := by
  have hfiles : (settings.plainDocuments c).map Prod.fst =
      ("main" :: c.methods.map (·.name)).map (fileName c.name) := by
    simp [plainDocuments]
  have hmain : "main" ∉ c.methods.map (·.name) := by
    intro hmem
    obtain ⟨m, hm, heq⟩ := List.mem_map.1 hmem
    have hunderscore := (hnames m hm).underscore
    rw [heq] at hunderscore
    exact absurd hunderscore (by decide)
  refine ⟨?_, ?_, List.lookup_cons_self, fun m hm => ?_⟩
  · simp [plainDocuments]
  · rw [hfiles]
    exact (List.nodup_cons.2 ⟨hmain, hnodup⟩).map (fileName_injective c.name)
  · exact ⟨_, List.mem_cons_of_mem _ (List.mem_map_of_mem hm), get?_methodDocument _ _ _⟩

/-- The artifacts of a class that is built from unambiguous contracts can be generated, and the
search documents name its methods. -/
theorem artifacts_of_build (hu : Unambiguous options table calls)
    (h : build options table calls = .ok c) (settings : SearchSettings) (withJson : Bool) :
    ∃ a, c.artifacts settings withJson = .ok a ∧ Documented settings c a.documents := by
  have hplain := isPlain_of_build h
  obtain ⟨baseline, hbaseline⟩ := hplain.exists_render
  obtain ⟨source, hsource⟩ := hplain.symbolic.exists_render
  have hnodup : (c.symbolic.methods.map (·.name)).Nodup := by
    rw [symbolic, List.map_map]
    exact nodup_names_of_build h
  -- the symbolic source declares every method, with whatever comes before it
  have hsignatures : ∀ m ∈ c.symbolic.methods,
      Java.signatureOf source m.name = .ok (m.name ++ "()") := by
    intro _ hm'
    obtain ⟨m, hm, rfl⟩ := List.mem_map.1 hm'
    have hname : Java.IsHelperName m.name.toList := hu.isHelperName h hm
    have hsettled : c.symbolic.IsSettled m.name.toList := (hu.isSettled h hm).symbolic
    exact signatureOf_render hname hsettled hnodup hm' hsource
  have hdocuments : settings.documents c.symbolic source = .ok (settings.plainDocuments c) := by
    rw [documents_eq_ok settings c.symbolic hsignatures, plainDocuments_symbolic]
  have hdocumented : Documented settings c (settings.plainDocuments c) :=
    documented_plainDocuments settings (fun m hm => hu.isHelperName h hm) (nodup_names_of_build h)
  refine ⟨⟨c.package, c.name, baseline, source, settings.plainDocuments c,
    if withJson then some c.save else none⟩, ?_, hdocumented⟩
  simp only [artifacts, hbaseline, hsource, hdocuments, Except.mapError, bind, Except.bind]
  rfl

/-- The contracts of `int g(String s)` with the precondition `s != "f_helper"`, and of
`int f(int x)` without conditions. -/
def naming : ContractTable := ⟨[
  { name := "g"
    signature := ⟨"g", [⟨"s", "String"⟩], "int"⟩
    precondition := some (.binary .notEqual (.var "s") (.string "f_helper"))
    postcondition := none },
  { name := "f"
    signature := ⟨"f", [⟨"x", "int"⟩], "int"⟩
    precondition := none
    postcondition := none }]⟩

theorem unambiguous_naming : Unambiguous {} naming ["g", "f"] where
  options := ⟨by decide, by decide, by decide,
    List.forall_mem_cons.2 ⟨by decide, List.forall_mem_singleton.2 (by decide)⟩⟩
  identifiers := by
    have hletters : ∀ function ∈ ["g", "f"], function.toList.all Text.isIdentifierChar = true :=
      List.forall_mem_cons.2 ⟨by decide, List.forall_mem_singleton.2 (by decide)⟩
    exact fun function hfunction => List.all_eq_true.1 (hletters function hfunction)
  contracts := by
    have hliteral : Java.IsBare "f_helper" := by decide
    have hvariable : Java.IsBare "s" := by decide
    refine List.forall_mem_cons.2 ⟨?_, List.forall_mem_singleton.2 ?_⟩
    · rintro _ ⟨⟩ other -
      refine ⟨by decide, by decide, List.forall_mem_singleton.2 ⟨by decide, by decide⟩, ?_, nofun⟩
      rintro _ ⟨⟩
      simp [hvariable, Java.not_looksLikeCall_of_isBare hliteral]
    · rintro _ ⟨⟩ other -
      exact ⟨by decide, by decide, List.forall_mem_singleton.2 ⟨by decide, by decide⟩, nofun, nofun⟩

theorem artifacts_of_build_naming : ∃ c, build {} naming ["g", "f"] = .ok c ∧
    ∃ a, c.artifacts {} true = .ok a ∧ Documented {} c a.documents := by
  obtain ⟨c, h⟩ : ∃ c, build {} naming ["g", "f"] = .ok c := ⟨_, rfl⟩
  exact ⟨c, h, artifacts_of_build unambiguous_naming h {} true⟩

end TestClass

end ContractTests
