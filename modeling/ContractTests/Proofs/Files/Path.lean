import ContractTests.Files.Path
import ContractTests.Proofs.Text.Split

/-! # Where paths lead

A path that goes on from a directory through entries leads as many components further
(`Path.GoesOn.location_eq`), the directory of a package one for each part of its name
(`Path.goesOn_packageDirectory`). Without its last component, the path of an entry leads to the
directory again (`Path.goesOn_parent_join`).
-/

set_option autoImplicit false

namespace ContractTests.Path

variable {directory name package : String} {cs u v : List Char}

/-! ## Components -/

/-- The components of a path, from its characters. -/
def componentsOf (cs : List Char) : List String :=
  ((cs.splitOnP (· == '/')).map String.ofList).filter fun c => c != "" && c != "."

theorem components_eq (path : String) : components path = componentsOf path.toList := by
  rw [components, Text.splitOn_eq_splitOnP, componentsOf]

/-- The components before a slash and after it. -/
theorem componentsOf_append_slash (u v : List Char) :
    componentsOf (u ++ '/' :: v) = componentsOf u ++ componentsOf v := by
  rw [componentsOf, List.splitOnP_append_cons u v rfl, List.map_append, List.filter_append]
  rfl

theorem componentsOf_append_end (u : List Char) : componentsOf (u ++ ['/']) = componentsOf u :=
  (componentsOf_append_slash u []).trans (List.append_nil _)

/-- The name of something in a directory: a component that leads to it. -/
structure IsEntry (name : String) : Prop where
  slash : '/' ∉ name.toList
  ne_empty : name ≠ ""
  ne_dot : name ≠ "."
  ne_up : name ≠ up

/-- A name without slashes that does not end in a dot. -/
theorem isEntry_of_getLast? {last : Char} (hslash : '/' ∉ name.toList)
    (hlast : name.toList.getLast? = some last) (hdot : last ≠ '.') : IsEntry name := by
  have hne {other : String} (hother : other.toList.getLast? ≠ some last) : name ≠ other := by
    rintro rfl
    exact hother hlast
  have hdots : some '.' ≠ some last := fun heq => hdot (Option.some.inj heq).symm
  exact ⟨hslash, hne nofun, hne hdots, hne hdots⟩

theorem IsEntry.componentsOf_eq (h : IsEntry name) : componentsOf name.toList = [name] := by
  have hone : name.toList.splitOnP (· == '/') = [name.toList] :=
    List.splitOnP_eq_singleton fun c hc => beq_eq_false_iff_ne.2 fun heq => h.slash (heq ▸ hc)
  rw [componentsOf, hone, List.map_singleton, String.ofList_toList]
  simp [h.ne_empty, h.ne_dot]

theorem IsEntry.head?_ne (h : IsEntry name) : name.toList.head? ≠ some '/' := fun hhead =>
  h.slash (List.mem_of_mem_head? hhead)

/-! ## Joining -/

/-- What stands before an entry: a directory and a slash, unless it ends in one or is empty. -/
def joint (directory : String) : List Char :=
  if directory.toList.getLast?.all (· == '/') then directory.toList else directory.toList ++ ['/']

theorem toList_join (h : IsEntry name) (directory : String) :
    (join directory name).toList = joint directory ++ name.toList := by
  unfold join joint
  rw [if_neg (by simpa using h.head?_ne)]
  split
  · rw [String.toList_append]
  · rw [String.toList_append, String.toList_append]
    rfl

theorem head?_joint (directory : String) : (joint directory).head? = directory.toList.head? := by
  unfold joint
  split
  · rfl
  · rename_i hlast
    cases hcs : directory.toList with
    | nil => exact absurd (by rw [hcs]; rfl) hlast
    | cons c cs => rfl

/-- A joint is empty or ends in a slash. -/
theorem joint_cases (directory : String) :
    (directory = "" ∧ joint directory = []) ∨
      ∃ u, joint directory = u ++ ['/'] ∧ componentsOf u = components directory := by
  unfold joint
  split
  · rename_i hlast
    rcases List.eq_nil_or_concat directory.toList with hnil | ⟨u, c, hu⟩
    · exact .inl ⟨String.toList_eq_nil_iff.1 hnil, hnil⟩
    · rw [List.concat_eq_append] at hu
      obtain rfl : c = '/' := by simpa [hu] using hlast
      exact .inr ⟨u, hu, by rw [components_eq, hu, componentsOf_append_end]⟩
  · exact .inr ⟨directory.toList, rfl, (components_eq directory).symm⟩

theorem componentsOf_joint_append (directory : String) (v : List Char) :
    componentsOf (joint directory ++ v) = components directory ++ componentsOf v := by
  rcases joint_cases directory with ⟨rfl, hjoint⟩ | ⟨u, hjoint, hu⟩
  · rw [hjoint]
    rfl
  · rw [hjoint, List.append_assoc, List.singleton_append, componentsOf_append_slash, hu]

theorem components_join (h : IsEntry name) (directory : String) :
    components (join directory name) = components directory ++ [name] := by
  rw [components_eq, toList_join h, componentsOf_joint_append, h.componentsOf_eq]

theorem start_join (h : IsEntry name) (directory : String) :
    start (join directory name) = start directory := by
  have hhead : (join directory name).toList.head? = some '/' ↔
      directory.toList.head? = some '/' := by
    rw [toList_join h, List.head?_append, head?_joint]
    cases hcs : directory.toList.head? with
    | none => exact iff_of_false h.head?_ne nofun
    | some c => rfl
  simp only [start, beq_iff_eq, hhead]

/-! ## Entries -/

/-- The path goes on from the directory through these entries. -/
structure GoesOn (directory path : String) (names : List String) : Prop where
  start : start path = start directory
  components : components path = components directory ++ names
  entries : ∀ name ∈ names, IsEntry name

theorem goesOn_refl (directory : String) : GoesOn directory directory [] :=
  ⟨rfl, (List.append_nil _).symm, nofun⟩

theorem GoesOn.join {path : String} {names : List String} (h : GoesOn directory path names)
    (hname : IsEntry name) : GoesOn directory (join path name) (names ++ [name]) where
  start := (start_join hname path).trans h.start
  components := by rw [components_join hname, h.components, List.append_assoc]
  entries := List.forall_mem_append.2 ⟨h.entries, List.forall_mem_singleton.2 hname⟩

theorem GoesOn.foldl_join {path : String} {names more : List String}
    (h : GoesOn directory path names) (hmore : ∀ name ∈ more, IsEntry name) :
    GoesOn directory (more.foldl Path.join path) (names ++ more) := by
  induction more generalizing path names with
  | nil => rwa [List.append_nil]
  | cons name more ih =>
    obtain ⟨hname, hmore⟩ := List.forall_mem_cons.1 hmore
    simpa using ih (h.join hname) hmore

theorem step_of_ne_up (h : name ≠ up) (location : List String) :
    step location name = location ++ [name] := if_pos (bne_iff_ne.2 h)

theorem foldl_step {names : List String} (h : up ∉ names) (location : List String) :
    names.foldl step location = location ++ names := by
  induction names generalizing location with
  | nil => rw [List.append_nil, List.foldl_nil]
  | cons name names ih =>
    obtain ⟨hname, hnames⟩ := not_or.1 (List.mem_cons.not.1 h)
    rw [List.foldl_cons, step_of_ne_up (Ne.symm hname), ih hnames, List.append_assoc]
    rfl

theorem GoesOn.up_not_mem {path : String} {names : List String} (h : GoesOn directory path names) :
    up ∉ names := fun hmem => (h.entries up hmem).ne_up rfl

/-- Every entry leads one component further. -/
theorem GoesOn.location_eq {path : String} {names : List String}
    (h : GoesOn directory path names) : location path = location directory ++ names := by
  rw [location, h.start, h.components, List.foldl_append, foldl_step h.up_not_mem, location]

/-- A path that does not go back leads to where it starts and on through its components. -/
theorem location_eq {path : String} (h : up ∉ components path) :
    location path = start path ++ components path := foldl_step h _

/-! ## The directory above -/

/-- What is dropped at the end of a path are no components, and not its start. -/
theorem dropTrailing_spec (cs : List Char) :
    dropTrailing cs <:+ cs ∧
      componentsOf (dropTrailing cs).reverse = componentsOf cs.reverse ∧
      (dropTrailing cs).reverse.head? = cs.reverse.head? := by
  induction cs using dropTrailing.induct with
  | case1 =>
    rw [dropTrailing]
    exact ⟨List.suffix_rfl, rfl, rfl⟩
  | case2 rest hrest ih =>
    obtain ⟨hsuffix, hcomponents, hhead⟩ := ih
    have hne : rest.reverse ≠ [] := mt List.reverse_eq_nil_iff.1 hrest
    rw [dropTrailing.eq_2 rest hrest, List.reverse_cons]
    refine ⟨hsuffix.trans (List.suffix_cons '/' rest), ?_, ?_⟩
    · rw [hcomponents, componentsOf_append_end]
    · rw [hhead, List.head?_append_of_ne_nil _ hne]
  | case3 rest ih =>
    obtain ⟨hsuffix, hcomponents, hhead⟩ := ih
    have hdot : componentsOf ['.'] = [] := by decide
    rw [dropTrailing, List.reverse_cons]
    refine ⟨hsuffix.trans (List.suffix_cons '.' _), ?_, ?_⟩
    · rw [hcomponents, List.reverse_cons, componentsOf_append_end, List.append_assoc,
        List.singleton_append, componentsOf_append_slash, hdot, List.append_nil]
    · rw [hhead, List.head?_append_of_ne_nil _ (by simp)]
  | case4 cs hone hslash hdot =>
    rw [dropTrailing.eq_4 cs hone hslash hdot]
    exact ⟨List.suffix_rfl, rfl, rfl⟩

theorem parent_join (h : IsEntry name) (directory : String) :
    (parent (join directory name)).toList =
      (dropTrailing (joint directory).reverse).reverse := by
  have hname : ∀ c ∈ name.toList.reverse, (c != '/') = true := fun c hc =>
    bne_iff_ne.2 fun heq => h.slash (heq ▸ List.mem_reverse.1 hc)
  have hjoint : (joint directory).reverse.dropWhile (· != '/') = (joint directory).reverse := by
    rcases joint_cases directory with ⟨-, hjoint⟩ | ⟨u, hjoint, -⟩
    · rw [hjoint]
      rfl
    · rw [hjoint, List.reverse_append]
      rfl
  rw [parent, String.toList_ofList, toList_join h, List.reverse_append,
    List.dropWhile_append_of_pos hname, hjoint]

/-- An entry lies one component further than the directory above. -/
theorem goesOn_parent_join (h : IsEntry name) (directory : String) :
    GoesOn (parent (join directory name)) (join directory name) [name] := by
  obtain ⟨-, hcomponents, hhead⟩ := dropTrailing_spec (joint directory).reverse
  rw [List.reverse_reverse] at hcomponents hhead
  refine ⟨?_, ?_, List.forall_mem_singleton.2 h⟩
  · rw [start_join h, start, start, parent_join h, hhead, head?_joint]
  · rw [components_join h, components_eq (parent _), parent_join h, hcomponents,
      ← List.append_nil (joint directory), componentsOf_joint_append]
    exact congrArg (· ++ [name]) (List.append_nil _).symm

/-- The path of an entry begins with that of the directory above. -/
theorem parent_join_isPrefix (h : IsEntry name) (directory : String) :
    (parent (join directory name)).toList <+: (join directory name).toList := by
  obtain ⟨hsuffix, -, -⟩ := dropTrailing_spec (joint directory).reverse
  rw [parent_join h, toList_join h]
  refine List.IsPrefix.trans ?_ (List.prefix_append (joint directory) name.toList)
  rw [← List.reverse_suffix, List.reverse_reverse]
  exact hsuffix

/-- The path leads to an entry of the directory above, and does not go back on the way. -/
structure IsFile (path : String) : Prop where
  goesOn : ∃ name, GoesOn (parent path) path [name]
  isPrefix : (parent path).toList <+: path.toList
  up_not_mem : up ∉ components path

theorem isFile_join (h : IsEntry name) (hup : up ∉ components directory) :
    IsFile (join directory name) where
  goesOn := ⟨name, goesOn_parent_join h directory⟩
  isPrefix := parent_join_isPrefix h directory
  up_not_mem := by
    rw [components_join h, List.mem_append, List.mem_singleton, not_or]
    exact ⟨hup, h.ne_up.symm⟩

/-- The path leads from the directory through entries to the last of these names. -/
inductive LeadsTo (directory : String) : String → List String → Prop
  | join {path name : String} {names : List String} (h : GoesOn directory path names)
      (hname : IsEntry name) : LeadsTo directory (join path name) (names ++ [name])

theorem LeadsTo.location_eq {path : String} {names : List String}
    (h : LeadsTo directory path names) : location path = location directory ++ names := by
  obtain ⟨h, hname⟩ := h
  exact (h.join hname).location_eq

theorem LeadsTo.isFile {path : String} {names : List String} (h : LeadsTo directory path names)
    (hup : up ∉ components directory) : IsFile path := by
  obtain ⟨h, hname⟩ := h
  refine isFile_join hname ?_
  rw [h.components, List.mem_append, not_or]
  exact ⟨hup, h.up_not_mem⟩

theorem IsFile.components_ne_nil {path : String} (h : IsFile path) : components path ≠ [] := by
  obtain ⟨name, hname⟩ := h.goesOn
  rw [hname.components]
  exact List.append_ne_nil_of_right_ne_nil _ (List.cons_ne_nil _ _)

/-! ## Packages -/

/-- The parts of the name of a package. -/
def packageParts (package : String) : List String :=
  ((Text.splitOn (· == '.') package.toList).filter (!·.isEmpty)).map String.ofList

/-- The parts of a package's name are entries without dots. -/
theorem isEntry_of_mem_packageParts {part : String} (h : '/' ∉ package.toList)
    (hpart : part ∈ packageParts package) : IsEntry part ∧ '.' ∉ part.toList := by
  obtain ⟨piece, hpiece, rfl⟩ := List.mem_map.1 hpart
  obtain ⟨hpiece, hne⟩ := List.mem_filter.1 hpiece
  rw [Text.splitOn_eq_splitOnP] at hpiece
  have hdot : '.' ∉ piece := fun hmem =>
    absurd (Text.eq_false_of_mem_splitOnP hpiece '.' hmem) (by decide)
  have hslash : '/' ∉ piece := fun hmem => h (Text.of_mem_splitOnP hpiece '/' hmem).1
  have hpart {name : String} (hname : name = "" ∨ '.' ∈ name.toList) :
      String.ofList piece ≠ name := by
    rintro rfl
    rw [String.toList_ofList] at hname
    rcases hname with hname | hname
    · exact absurd hne (by simp [String.ofList_eq_empty_iff.1 hname])
    · exact hdot hname
  refine ⟨⟨?_, hpart (.inl rfl), hpart (.inr (by decide)), hpart (.inr (by decide))⟩, ?_⟩
  · rwa [String.toList_ofList]
  · rwa [String.toList_ofList]

/-- The directory of a package lies below the root, one component further for each part of its
name. -/
theorem goesOn_packageDirectory (h : '/' ∉ package.toList) {root : String} {names : List String}
    (hroot : GoesOn directory root names) :
    GoesOn directory (packageDirectory root package) (names ++ packageParts package) :=
  hroot.foldl_join fun _ hpart => (isEntry_of_mem_packageParts h hpart).1

end ContractTests.Path
