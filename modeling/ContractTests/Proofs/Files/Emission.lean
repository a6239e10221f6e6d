import ContractTests.Proofs.Files.Tree
import ContractTests.Proofs.Search.Documents

/-! # Where a test class is written

The artifacts of a class lie in two source directories and beside them, each at a location of its
own (`TestClass.layout`). None of these leads to another one (`TestClass.pairwise_apart_layout`), so
that writing the artifacts puts the text of each in its place, changes no other file, and does
nothing more when it is done again (`TestClass.emits_of_build`).
-/

set_option autoImplicit false

namespace ContractTests

open Contract (getLast?_append_string)

/-! ## Locations of files -/

/-- The last name has a dot, and those before it have none. -/
def EndsInFile (names : List String) : Prop :=
  ∃ directories name, names = directories ++ [name] ∧ (∀ d ∈ directories, '.' ∉ d.toList) ∧
    '.' ∈ name.toList

theorem EndsInFile.eq_of_isPrefix {names others : List String} (h : EndsInFile names)
    (h' : EndsInFile others) (hbegins : names <+: others) : names = others := by
  obtain ⟨directories, name, rfl, -, hname⟩ := h
  obtain ⟨directories', name', rfl, hdirectories', -⟩ := h'
  rcases List.prefix_concat_iff.1 hbegins with heq | hbegins
  · exact heq
  · have hmem := hbegins.subset (List.mem_append_right directories (List.mem_singleton_self name))
    exact absurd hname (hdirectories' name hmem)

/-- Different locations of files are apart, wherever they start. -/
theorem EndsInFile.apart {names others : List String} (h : EndsInFile names)
    (h' : EndsInFile others) (hne : names ≠ others) (base : List String) :
    FileTree.Apart (base ++ names) (base ++ others) := by
  rw [FileTree.Apart, List.prefix_append_right_inj, List.prefix_append_right_inj]
  exact ⟨fun hbegins => hne (h.eq_of_isPrefix h' hbegins),
    fun hbegins => hne (h'.eq_of_isPrefix h hbegins).symm⟩

namespace TestClass

open SearchSettings

variable {options : ClassOptions} {table : ContractTable} {calls : CallSequence} {c : TestClass}
  {settings : SearchSettings} {withJson : Bool} {a : Artifacts}

/-! ## The layout -/

/-- The way to the source of the class through one of the source directories. -/
def sourceNames (c : TestClass) (directory : String) : List String :=
  directory :: Path.packageParts c.package ++ [c.name ++ ".java"]

/-- The file names of the search documents: that of the program, and one for each method. -/
def documentNames (c : TestClass) : List String :=
  ("main" :: c.methods.map (·.name)).map (fileName c.name)

/-- The ways from the output directory to the artifacts of the class, in the order in which they are
written. -/
def layout (c : TestClass) (withJson : Bool) : List (List String) :=
  [c.sourceNames "baseline", c.sourceNames "symbolic"] ++
    (c.documentNames ++ if withJson then ["ir.json"] else []).map ([·])

/-- The names of the class, its package and its methods have no slashes. -/
structure HasPlainNames (c : TestClass) : Prop where
  package : '/' ∉ c.package.toList
  name : '/' ∉ c.name.toList
  methods : ∀ m ∈ c.methods, '/' ∉ m.name.toList

/-- The methods are named for functions that are called. -/
theorem hasPlainNames_of_build (h : build options table calls = .ok c)
    (hpackage : '/' ∉ c.package.toList) (hname : '/' ∉ c.name.toList)
    (hfunctions : ∀ function ∈ calls, table.contains function = true → '/' ∉ function.toList) :
    c.HasPlainNames := by
  refine ⟨hpackage, hname, fun m hm => ?_⟩
  have hmem : m.name ∈ c.methods.map (·.name) := List.mem_map_of_mem hm
  rw [names_of_build h] at hmem
  obtain ⟨function, hfunction, heq⟩ := List.mem_map.1 hmem
  obtain ⟨hcalled, hcontains⟩ := List.mem_filter.1 hfunction
  rw [← heq, TestMethod.nameFor, String.toList_append, List.mem_append, not_or]
  exact ⟨hfunctions function (List.mem_eraseDups.1 hcalled) hcontains, by decide⟩

theorem HasPlainNames.isEntry_source (h : c.HasPlainNames) : Path.IsEntry (c.name ++ ".java") := by
  refine Path.isEntry_of_getLast? ?_ (getLast?_append_string c.name ".java" (by decide)) (by decide)
  rw [String.toList_append, List.mem_append, not_or]
  exact ⟨h.name, by decide⟩

theorem getLast?_fileName (className part : String) :
    (fileName className part).toList.getLast? = some 'f' :=
  getLast?_append_string _ ".jpf" (by decide)

theorem HasPlainNames.isEntry_document (h : c.HasPlainNames) {name : String}
    (hname : name ∈ c.documentNames) : Path.IsEntry name := by
  obtain ⟨part, hpart, rfl⟩ := List.mem_map.1 hname
  refine Path.isEntry_of_getLast? ?_ (getLast?_fileName c.name part) (by decide)
  have hslash : '/' ∉ part.toList := by
    rcases List.mem_cons.1 hpart with rfl | hpart
    · decide
    · obtain ⟨m, hm, rfl⟩ := List.mem_map.1 hpart
      exact h.methods m hm
  simp only [fileName, String.toList_append, List.mem_append, not_or]
  exact ⟨⟨⟨h.name, by decide⟩, hslash⟩, by decide⟩

theorem dot_mem_fileName (className part : String) : '.' ∈ (fileName className part).toList := by
  rw [fileName, String.toList_append]
  exact List.mem_append_right _ (by decide)

/-- All ways of the layout are those of files. -/
theorem HasPlainNames.endsInFile (h : c.HasPlainNames) {names : List String}
    (hnames : names ∈ c.layout withJson) : EndsInFile names := by
  have hsource (directory : String) (hdirectory : '.' ∉ directory.toList) :
      EndsInFile (c.sourceNames directory) := by
    refine ⟨directory :: Path.packageParts c.package, c.name ++ ".java", rfl, ?_, ?_⟩
    · exact List.forall_mem_cons.2
        ⟨hdirectory, fun part hpart => (Path.isEntry_of_mem_packageParts h.package hpart).2⟩
    · rw [String.toList_append]
      exact List.mem_append_right _ (by decide)
  have hsingle (name : String) (hname : '.' ∈ name.toList) : EndsInFile [name] :=
    ⟨[], name, rfl, nofun, hname⟩
  rcases List.mem_append.1 hnames with hnames | hnames
  · rcases List.mem_pair.1 hnames with rfl | rfl
    · exact hsource _ (by decide)
    · exact hsource _ (by decide)
  · obtain ⟨name, hname, rfl⟩ := List.mem_map.1 hnames
    refine hsingle name ?_
    rcases List.mem_append.1 hname with hname | hname
    · obtain ⟨part, -, rfl⟩ := List.mem_map.1 hname
      exact dot_mem_fileName c.name part
    · cases withJson with
      | false => cases hname
      | true =>
        rw [List.mem_singleton.1 hname]
        decide

/-- The program is no test method. -/
theorem nodup_documentNames (h : build options table calls = .ok c) : c.documentNames.Nodup := by
  have hmain : "main" ∉ c.methods.map (·.name) := by
    rw [names_of_build h]
    intro hmem
    obtain ⟨function, -, heq⟩ := List.mem_map.1 hmem
    have hlast : (TestMethod.nameFor function).toList.getLast? = some 'r' :=
      getLast?_append_string function "_helper" (by decide)
    rw [heq] at hlast
    exact absurd hlast (by decide)
  exact (List.nodup_cons.2 ⟨hmain, nodup_names_of_build h⟩).map (fileName_injective c.name)

theorem nodup_layout (h : build options table calls = .ok c) (withJson : Bool) :
    (c.layout withJson).Nodup := by
  have hjson : (if withJson then ["ir.json"] else []).Nodup := by cases withJson <;> decide
  have hdocuments : (c.documentNames ++ if withJson then ["ir.json"] else []).Nodup := by
    refine List.nodup_append.2 ⟨nodup_documentNames h, hjson, ?_⟩
    rintro name hname other hother rfl
    obtain ⟨part, -, rfl⟩ := List.mem_map.1 hname
    cases withJson with
    | false => cases hother
    | true =>
      have hlast := getLast?_fileName c.name part
      rw [List.mem_singleton.1 hother] at hlast
      exact absurd hlast (by decide)
  have hsources : [c.sourceNames "baseline", c.sourceNames "symbolic"].Nodup := by
    simp [sourceNames]
  refine List.nodup_append.2
    ⟨hsources, hdocuments.map fun _ _ heq => List.singleton_inj.1 heq, ?_⟩
  -- the sources lie in directories, and the others do not
  rintro names hnames _ hothers rfl
  obtain ⟨name, -, rfl⟩ := List.mem_map.1 hothers
  simp [sourceNames] at hnames

/-- No way of the layout leads to another one, wherever the output directory is. -/
theorem pairwise_apart_layout (h : build options table calls = .ok c) (hplain : c.HasPlainNames)
    (withJson : Bool) (base : List String) :
    ((c.layout withJson).map (base ++ ·)).Pairwise FileTree.Apart := by
  rw [List.pairwise_map]
  exact (nodup_layout h withJson).imp_of_mem fun hnames hothers hne =>
    (hplain.endsInFile hnames).apart (hplain.endsInFile hothers) hne base

/-! ## The files -/

/-- The artifacts are written under the names of the class. -/
structure IsGenerated (c : TestClass) (withJson : Bool) (a : Artifacts) : Prop where
  package : a.package = c.package
  className : a.className = c.name
  documents : a.documents.map Prod.fst = c.documentNames
  json : a.json.isSome = withJson

theorem methodDocuments_names {source : String} {methods : List TestMethod}
    {documents : List (String × Properties)}
    (h : settings.methodDocuments c source methods = .ok documents) :
    documents.map Prod.fst = methods.map fun m => fileName c.name m.name := by
  induction methods generalizing documents with
  | nil => cases h; rfl
  | cons m rest ih =>
    obtain ⟨signature, -, h⟩ := bind_eq_ok_iff.1 h
    obtain ⟨others, hothers, h⟩ := bind_eq_ok_iff.1 h
    cases h
    rw [List.map_cons, List.map_cons, ih hothers]

theorem isGenerated_of_artifacts (h : c.artifacts settings withJson = .ok a) :
    c.IsGenerated withJson a := by
  obtain ⟨baseline, -, h⟩ := bind_eq_ok_iff.1 h
  obtain ⟨symbolic, -, h⟩ := bind_eq_ok_iff.1 h
  obtain ⟨documents, hdocuments, h⟩ := bind_eq_ok_iff.1 h
  cases h
  refine ⟨rfl, rfl, ?_, by cases withJson <;> rfl⟩
  cases hall : settings.documents c.symbolic symbolic with
  | error cause => rw [hall] at hdocuments; cases hdocuments
  | ok all =>
    rw [hall] at hdocuments
    cases hdocuments
    obtain ⟨methods, hmethods, hall⟩ := bind_eq_ok_iff.1 hall
    cases hall
    rw [List.map_cons, methodDocuments_names hmethods, documentNames, List.map_cons, List.map_map,
      TestClass.symbolic, List.map_map]
    rfl

/-- Every file lies where the layout has it. -/
theorem IsGenerated.files_leadTo (h : c.IsGenerated withJson a) (hplain : c.HasPlainNames)
    (out : String) :
    List.Forall₂ (fun file names => Path.LeadsTo out file.1 names) (a.files out)
      (c.layout withJson) := by
  have hsource (directory : String) (hdirectory : Path.IsEntry directory) (text : String) :
      Path.LeadsTo out (a.sourcePath out directory, text).1 (c.sourceNames directory) := by
    have hroot := (Path.goesOn_refl out).join hdirectory
    rw [Artifacts.sourcePath, h.package, h.className]
    exact .join (Path.goesOn_packageDirectory hplain.package hroot) hplain.isEntry_source
  have hsingle {name : String} (hname : Path.IsEntry name) (text : String) :
      Path.LeadsTo out (Path.join out name, text).1 [name] := .join (Path.goesOn_refl out) hname
  have hbaseline : Path.IsEntry "baseline" :=
    Path.isEntry_of_getLast? (by decide) (rfl : "baseline".toList.getLast? = some 'e') (by decide)
  have hsymbolic : Path.IsEntry "symbolic" :=
    Path.isEntry_of_getLast? (by decide) (rfl : "symbolic".toList.getLast? = some 'c') (by decide)
  have hir : Path.IsEntry "ir.json" :=
    Path.isEntry_of_getLast? (by decide) (rfl : "ir.json".toList.getLast? = some 'n') (by decide)
  have hdocuments : List.Forall₂ (fun file names => Path.LeadsTo out file.1 names)
      (a.documents.map fun d => (Path.join out d.1, d.2.text)) (c.documentNames.map ([·])) := by
    rw [← h.documents, List.map_map, List.forall₂_map_left_iff, List.forall₂_map_right_iff,
      List.forall₂_same]
    intro d hd
    have hname : d.1 ∈ c.documentNames := h.documents ▸ List.mem_map_of_mem hd
    exact hsingle (hplain.isEntry_document hname) d.2.text
  have hjson : List.Forall₂ (fun file names => Path.LeadsTo out file.1 names)
      (a.json.toList.map fun text => (Path.join out "ir.json", text))
      ((if withJson then ["ir.json"] else []).map ([·])) := by
    rw [← h.json]
    cases a.json with
    | none => exact .nil
    | some text => exact .cons (hsingle hir text) .nil
  have hsources : List.Forall₂ (fun file names => Path.LeadsTo out file.1 names)
      [(a.sourcePath out "baseline", a.baseline), (a.sourcePath out "symbolic", a.symbolic)]
      [c.sourceNames "baseline", c.sourceNames "symbolic"] :=
    .cons (hsource _ hbaseline _) (.cons (hsource _ hsymbolic _) .nil)
  rw [layout, List.map_append, ← List.append_assoc]
  exact List.rel_append (List.rel_append hsources hdocuments) hjson

theorem IsGenerated.locations_eq (h : c.IsGenerated withJson a) (hplain : c.HasPlainNames)
    (out : String) :
    FileTree.locations (a.files out) = (c.layout withJson).map (Path.location out ++ ·) := by
  rw [FileTree.locations, ← List.forall₂_eq_eq_eq, List.forall₂_map_left_iff,
    List.forall₂_map_right_iff]
  exact (h.files_leadTo hplain out).imp fun _ _ => Path.LeadsTo.location_eq

/-- The artifacts do not lie in one another's way. -/
theorem areApart_files (h : build options table calls = .ok c) (hplain : c.HasPlainNames)
    (ha : c.IsGenerated withJson a) {out : String} (hup : Path.up ∉ Path.components out) :
    FileTree.AreApart (a.files out) where
  isFile := by
    have hfiles := ha.files_leadTo hplain out
    intro file hfile
    obtain ⟨i, hi, rfl⟩ := List.getElem_of_mem hfile
    exact (hfiles.get hi (hfiles.length_eq ▸ hi)).isFile hup
  apart := by
    rw [ha.locations_eq hplain]
    exact pairwise_apart_layout h hplain withJson (Path.location out)

/-! ## Emission -/

/-- How the artifacts of a class are written below a directory. -/
structure Emits (c : TestClass) (withJson : Bool) (a : Artifacts) (out : String) : Prop where
  /-- The sources, the documents and the JSON text, in this order. -/
  texts : (a.files out).map Prod.snd =
    [a.baseline, a.symbolic] ++ a.documents.map (fun d => d.2.text) ++ a.json.toList
  locations : FileTree.locations (a.files out) =
    (c.layout withJson).map (Path.location out ++ ·)
  /-- All of them lie at different locations, which their different paths lead to. -/
  nodup : (FileTree.locations (a.files out)).Nodup ∧ ((a.files out).map Prod.fst).Nodup
  /-- Whatever is there: each text is found at its location, and nothing else changes. -/
  stored : ∀ t : FileTree, FileTree.Stored (a.files out) t (t.putAll (a.files out))
  again : ∀ t : FileTree, (t.putAll (a.files out)).putAll (a.files out) = t.putAll (a.files out)
  /-- Where nothing is in the way of a file, emission does this and gives the paths, and emission
  to the tree that it leaves gives the same. -/
  emitted : Path.up ∉ Path.components out → ∀ t : FileTree,
    (∀ file ∈ a.files out, t.Admits file.1) →
      t.emit a out = (t.putAll (a.files out), .ok ((a.files out).map Prod.fst)) ∧
      (t.putAll (a.files out)).emit a out =
        (t.putAll (a.files out), .ok ((a.files out).map Prod.fst))
  /-- Only then does emission succeed. -/
  refused : Path.up ∉ Path.components out → ∀ t : FileTree,
    (∃ file ∈ a.files out, ¬ t.Admits file.1) → ∃ e, (t.emit a out).2 = .error e

theorem snd_emit (t : FileTree) (a : Artifacts) (out : String) :
    (t.emit a out).2 =
      (t.writeFiles (a.files out)).2.map fun _ => (a.files out).map Prod.fst := rfl

theorem emit_eq {out : String} {t : FileTree} (h : FileTree.AreApart (a.files out))
    (ha : ∀ file ∈ a.files out, t.Admits file.1) :
    t.emit a out = (t.putAll (a.files out), .ok ((a.files out).map Prod.fst)) := by
  rw [FileTree.emit, h.writeFiles_eq ha]
  rfl

/-- The artifacts of a class that is built, whose names have no slashes, are written to locations of
their own. Emission puts the text of each at its location and leaves all others as they are, and
emission to the tree that this gives does nothing. -/
theorem emits_of_build (h : build options table calls = .ok c)
    (hpackage : '/' ∉ c.package.toList) (hname : '/' ∉ c.name.toList)
    (hfunctions : ∀ function ∈ calls, table.contains function = true → '/' ∉ function.toList)
    (ha : c.artifacts settings withJson = .ok a) (out : String) : c.Emits withJson a out := by
  have hplain := hasPlainNames_of_build h hpackage hname hfunctions
  have hgenerated := isGenerated_of_artifacts ha
  have hlocations := hgenerated.locations_eq hplain out
  have hnodup : (FileTree.locations (a.files out)).Nodup := by
    rw [hlocations]
    exact (pairwise_apart_layout h hplain withJson _).imp FileTree.Apart.ne
  have hapart (hup : Path.up ∉ Path.components out) := areApart_files h hplain hgenerated hup
  refine ⟨?_, hlocations, ⟨hnodup, ?_⟩, FileTree.stored_putAll hnodup,
    FileTree.putAll_putAll hnodup, fun hup t hadmits => ?_, fun hup t hrefused => ?_⟩
  · simp [Artifacts.files]
  · have hpaths : FileTree.locations (a.files out) =
        ((a.files out).map Prod.fst).map Path.location := by
      rw [List.map_map]
      rfl
    rw [hpaths] at hnodup
    exact hnodup.of_map
  · have hagain := emit_eq (hapart hup) ((hapart hup).admits_putAll hadmits)
    rw [FileTree.putAll_putAll hnodup] at hagain
    exact ⟨emit_eq (hapart hup) hadmits, hagain⟩
  · obtain ⟨file, hfile, hrefused⟩ := hrefused
    obtain ⟨e, he⟩ := (hapart hup).exists_writeFiles_eq_error (t := t)
      fun hadmits => hrefused (hadmits file hfile)
    exact ⟨e, by rw [snd_emit, he]; rfl⟩

/-- A document for each of two methods, and the class as JSON. -/
theorem emits_of_build_naming : ∃ c, build {} naming ["g", "f"] = .ok c ∧
    ∃ a, c.artifacts {} true = .ok a ∧ c.Emits true a "out" := by
  obtain ⟨c, h⟩ : ∃ c, build {} naming ["g", "f"] = .ok c := ⟨_, rfl⟩
  have hnames : '/' ∉ c.package.toList ∧ '/' ∉ c.name.toList := by
    obtain ⟨-, -, h⟩ := bind_eq_ok_iff.1 h
    cases h
    decide
  have hfunctions : ∀ function ∈ ["g", "f"],
      naming.contains function = true → '/' ∉ function.toList := by decide
  obtain ⟨baseline, hbaseline⟩ := (isPlain_of_build h).exists_render
  obtain ⟨source, hsource⟩ := (isPlain_of_build h).symbolic.exists_render
  have hnodup : (c.symbolic.methods.map (·.name)).Nodup := by
    rw [symbolic, List.map_map]
    exact nodup_names_of_build h
  have hsignatures : ∀ m ∈ c.symbolic.methods,
      Java.signatureOf source m.name = .ok (m.name ++ "()") := by
    intro _ hm'
    obtain ⟨m, hm, rfl⟩ := List.mem_map.1 hm'
    have hname : Java.IsHelperName m.name.toList := unambiguous_naming.isHelperName h hm
    have hsettled : c.symbolic.IsSettled m.name.toList :=
      (unambiguous_naming.isSettled h hm).symbolic
    exact signatureOf_render hname hsettled hnodup hm' hsource
  have hdocuments := documents_eq_ok {} c.symbolic hsignatures
  obtain ⟨a, ha⟩ : ∃ a, c.artifacts {} true = .ok a := by
    simp only [artifacts, hbaseline, hsource, Except.mapError, bind, Except.bind, hdocuments]
    exact ⟨_, rfl⟩
  exact ⟨c, h, a, ha, emits_of_build h hnames.1 hnames.2 hfunctions ha "out"⟩

end TestClass

end ContractTests
