import ContractTests.Files.Emission
import ContractTests.Proofs.Expr.Traversal
import ContractTests.Proofs.Files.Path
import Mathlib.Data.List.Pairwise

/-! # Putting and writing files

Putting texts at locations changes nothing at any other one, and putting them there again changes
nothing at all (`FileTree.stored_putAll`, `FileTree.putAll_putAll`). A tree admits a path if nothing
is in the way of a file there (`FileTree.Admits`), and writing a file puts its text at the location
of its path exactly when it is admitted. Files that do not lie in one another's way are written
together (`FileTree.AreApart.writeFiles_eq`).
-/

set_option autoImplicit false

namespace ContractTests.FileTree

variable {t t' : FileTree} {location other : List String} {text path : String}
  {files : List (String × String)} {entries : List (List String × String)}

/-! ## Putting a text -/

theorem lookup_place_self (location : List String) (text : String)
    (entries : List (List String × String)) :
    (place location text entries).lookup location = some text := by
  induction entries with
  | nil => exact List.lookup_cons_self
  | cons entry rest ih =>
    rw [place]
    split
    · exact List.lookup_cons_self
    · rename_i hne
      rw [List.lookup_cons, beq_eq_false_iff_ne.2 (Ne.symm (by simpa using hne))]
      exact ih

theorem lookup_place_of_ne (h : other ≠ location) (text : String)
    (entries : List (List String × String)) :
    (place location text entries).lookup other = entries.lookup other := by
  have hother : (other == location) = false := beq_eq_false_iff_ne.2 h
  induction entries with
  | nil => rw [place, List.lookup_cons, hother]
  | cons entry rest ih =>
    rw [place]
    split
    · rename_i heq
      rw [List.lookup_cons, hother, List.lookup_cons, beq_iff_eq.1 heq, hother]
    · rw [List.lookup_cons, List.lookup_cons, ih]

theorem place_eq_self (h : entries.lookup location = some text) :
    place location text entries = entries := by
  induction entries with
  | nil => cases h
  | cons entry rest ih =>
    rw [List.lookup_cons] at h
    rw [place]
    split
    · rename_i heq
      rw [beq_iff_eq.1 heq, beq_self_eq_true] at h
      cases h
      rw [← beq_iff_eq.1 heq]
    · rename_i hne
      rw [beq_eq_false_iff_ne.2 (Ne.symm (by simpa using hne))] at h
      rw [ih h]

/-- The locations stay, and the given one is among them. -/
theorem any_place (p : List String → Bool) (location : List String) (text : String)
    (entries : List (List String × String)) :
    ((place location text entries).any fun entry => p entry.1) =
      (p location || entries.any fun entry => p entry.1) := by
  induction entries with
  | nil => rfl
  | cons entry rest ih =>
    rw [place]
    split
    · rename_i heq
      rw [List.any_cons, List.any_cons, beq_iff_eq.1 heq, ← Bool.or_assoc, Bool.or_self]
    · rw [List.any_cons, List.any_cons, ih, Bool.or_left_comm]

@[simp] theorem file?_put_self (t : FileTree) (location : List String) (text : String) :
    (t.put location text).file? location = some text := lookup_place_self location text t.files

theorem file?_put_of_ne (h : other ≠ location) (t : FileTree) (text : String) :
    (t.put location text).file? other = t.file? other := lookup_place_of_ne h text t.files

theorem put_eq_self (h : t.file? location = some text) : t.put location text = t :=
  congrArg FileTree.mk (place_eq_self h)

/-- Only locations above the one of the text become directories. -/
theorem isDirectory_put (t : FileTree) (location other : List String) (text : String) :
    (t.put location text).isDirectory other =
      (t.isDirectory other || (other.isPrefixOf location && other != location)) := by
  unfold isDirectory put
  simp only [any_place fun entry => other.isPrefixOf entry && other != entry, Bool.or_assoc,
    Bool.or_comm (other.isPrefixOf location && other != location)]

/-! ## Putting files -/

/-- The tree with the texts of the files at the locations of their paths. -/
def putAll (t : FileTree) (files : List (String × String)) : FileTree :=
  files.foldl (fun t file => t.put (Path.location file.1) file.2) t

/-- The locations of files. -/
def locations (files : List (String × String)) : List (List String) :=
  files.map fun file => Path.location file.1

@[simp] theorem locations_cons (file : String × String) (files : List (String × String)) :
    locations (file :: files) = Path.location file.1 :: locations files := rfl

@[simp] theorem putAll_cons (t : FileTree) (file : String × String)
    (files : List (String × String)) :
    t.putAll (file :: files) = (t.put (Path.location file.1) file.2).putAll files := rfl

theorem file?_putAll_of_not_mem (h : location ∉ locations files) (t : FileTree) :
    (t.putAll files).file? location = t.file? location := by
  induction files generalizing t with
  | nil => rfl
  | cons file files ih =>
    obtain ⟨hfile, hfiles⟩ := not_or.1 (List.mem_cons.not.1 h)
    rw [putAll_cons, ih hfiles, file?_put_of_ne hfile]

theorem file?_putAll_of_mem (hnodup : (locations files).Nodup) {file : String × String}
    (hfile : file ∈ files) (t : FileTree) :
    (t.putAll files).file? (Path.location file.1) = some file.2 := by
  induction files generalizing t with
  | nil => cases hfile
  | cons first files ih =>
    obtain ⟨hfirst, hfiles⟩ := List.nodup_cons.1 hnodup
    rw [putAll_cons]
    rcases List.mem_cons.1 hfile with rfl | hfile
    · rw [file?_putAll_of_not_mem hfirst, file?_put_self]
    · exact ih hfiles hfile _

/-- Putting files that are there changes nothing. -/
theorem putAll_eq_self (h : ∀ file ∈ files, t.file? (Path.location file.1) = some file.2) :
    t.putAll files = t := by
  induction files with
  | nil => rfl
  | cons file files ih =>
    obtain ⟨hfile, hfiles⟩ := List.forall_mem_cons.1 h
    rw [putAll_cons, put_eq_self hfile, ih hfiles]

/-- Putting files twice is putting them once. -/
theorem putAll_putAll (hnodup : (locations files).Nodup) (t : FileTree) :
    (t.putAll files).putAll files = t.putAll files :=
  putAll_eq_self fun _ hfile => file?_putAll_of_mem hnodup hfile t

/-- The second tree has the texts of the files at their locations, and elsewhere what the first one
has. -/
structure Stored (files : List (String × String)) (t t' : FileTree) : Prop where
  text : ∀ file ∈ files, t'.file? (Path.location file.1) = some file.2
  unchanged : ∀ location, location ∉ locations files → t'.file? location = t.file? location

theorem stored_putAll (hnodup : (locations files).Nodup) (t : FileTree) :
    Stored files t (t.putAll files) where
  text _ hfile := file?_putAll_of_mem hnodup hfile t
  unchanged _ hlocation := file?_putAll_of_not_mem hlocation t

/-! ## Ways -/

/-- No file is on the way from a location through the names, before the last of them. -/
def IsClear (t : FileTree) (location names : List String) : Prop :=
  ∀ u v, names = u ++ v → u ≠ [] → v ≠ [] → t.file? (location ++ u) = none

variable {name : String} {names : List String}

theorem isClear_singleton : t.IsClear location [name] := fun u v h hu hv => by
  have hlength := congrArg List.length h
  have := List.length_pos_iff.2 hu
  have := List.length_pos_iff.2 hv
  simp only [List.length_singleton, List.length_append] at hlength
  omega

theorem IsClear.of_append {more : List String} (h : t.IsClear location (names ++ more)) :
    t.IsClear location names := fun u v huv hu hv =>
  h u (v ++ more) (by rw [huv, List.append_assoc]) hu (List.append_ne_nil_of_left_ne_nil hv more)

theorem isClear_cons (hnames : names ≠ []) : t.IsClear location (name :: names) ↔
    t.file? (location ++ [name]) = none ∧ t.IsClear (location ++ [name]) names := by
  constructor
  · refine fun h => ⟨h [name] names rfl (List.cons_ne_nil _ _) hnames, fun u v huv hu hv => ?_⟩
    have := h (name :: u) v (by rw [huv]; rfl) (List.cons_ne_nil _ _) hv
    rwa [List.append_assoc]
  · rintro ⟨hname, h⟩ u v huv hu hv
    obtain ⟨c, u, rfl⟩ := List.exists_cons_of_ne_nil hu
    rw [List.cons_append] at huv
    obtain ⟨rfl, htail⟩ := List.cons.inj huv
    by_cases hnil : u = []
    · rwa [hnil]
    · have := h u v htail hnil hv
      rwa [List.append_assoc] at this

/-- What a location holds. -/
def node (t : FileTree) (location : List String) : Node :=
  match t.file? location with
  | some text => .file text
  | none => if t.isDirectory location then .directory else .nothing

/-- A location above a file is a directory. -/
theorem isDirectory_of_file? (h : t.file? (location ++ names) = some text) (hnames : names ≠ []) :
    t.isDirectory location = true := by
  obtain ⟨earlier, later, hfiles, -⟩ := List.lookup_eq_some_iff.1 h
  have hany : (t.files.any fun entry => location.isPrefixOf entry.1 && location != entry.1) := by
    rw [hfiles, List.any_append, List.any_cons]
    have hbegins : location.isPrefixOf (location ++ names) = true :=
      List.isPrefixOf_iff_prefix.2 (List.prefix_append _ _)
    have hne : (location != location ++ names) = true :=
      bne_iff_ne.2 fun heq => hnames (List.append_right_eq_self.1 heq.symm)
    rw [hbegins, hne]
    simp
  rw [isDirectory, hany, Bool.or_true]

/-- What is above a directory is one, or is where paths start. -/
theorem isDirectory_of_append (h : t.isDirectory (location ++ names) = true)
    (hlocation : location ≠ []) (hnames : names ≠ []) : t.isDirectory location = true := by
  simp only [isDirectory, Bool.or_eq_true, beq_iff_eq, List.all_append, Bool.and_eq_true,
    List.any_eq_true, bne_iff_ne, List.isPrefixOf_iff_prefix] at h ⊢
  rcases h with (hroot | ⟨hup, -⟩) | ⟨entry, hentry, hbegins, -⟩
  · rcases List.append_eq_singleton_iff.1 hroot with ⟨hnil, -⟩ | ⟨-, hnil⟩
    · exact absurd hnil hlocation
    · exact absurd hnil hnames
  · exact .inl (.inr hup)
  · refine .inr ⟨entry, hentry, (List.prefix_append _ _).trans hbegins, ?_⟩
    rintro rfl
    have := hbegins.length_le
    rw [List.length_append] at this
    exact hnames (List.length_eq_zero_iff.1 (by omega))

/-- Below a location that is no directory there is nothing. -/
theorem node_append (h : t.isDirectory location = false) (hlocation : location ≠ [])
    (hnames : names ≠ []) : t.node (location ++ names) = .nothing := by
  have hdirectory : t.isDirectory (location ++ names) = false := Bool.eq_false_iff.2 fun hdir =>
    Bool.eq_false_iff.1 h (isDirectory_of_append hdir hlocation hnames)
  rw [node, hdirectory]
  cases hfile : t.file? (location ++ names) with
  | some text => rw [isDirectory_of_file? hfile hnames] at h; cases h
  | none => rfl

/-- One step of a walk. -/
theorem walk_cons (hup : name ≠ Path.up) (hsize : name.utf8ByteSize ≤ componentLimit)
    (t : FileTree) (location names : List String) :
    t.walk location (name :: names) =
      match t.node (location ++ [name]) with
      | .file text => if names.isEmpty then .ok (.file text) else .error .notADirectory
      | .directory => t.walk (location ++ [name]) names
      | .nothing => .ok .nothing := by
  rw [walk, Path.step_of_ne_up hup, if_neg (Nat.not_lt.2 hsize), node]
  cases t.file? (location ++ [name]) with
  | some text => rfl
  | none => cases t.isDirectory (location ++ [name]) <;> rfl

/-- A walk to the end of a way that is clear finds what is there. -/
theorem walk_of_isClear (hup : Path.up ∉ names)
    (hsize : ∀ name ∈ names, name.utf8ByteSize ≤ componentLimit) (hnames : names ≠ [])
    (h : t.IsClear location names) :
    t.walk location names = .ok (t.node (location ++ names)) := by
  induction names generalizing location with
  | nil => exact absurd rfl hnames
  | cons name names ih =>
    obtain ⟨hname, hrest⟩ := not_or.1 (List.mem_cons.not.1 hup)
    obtain ⟨hlong, hsizes⟩ := List.forall_mem_cons.1 hsize
    rw [walk_cons (Ne.symm hname) hlong]
    by_cases hnil : names = []
    · subst hnil
      cases t.node (location ++ [name]) <;> rfl
    · obtain ⟨hfile, hclear⟩ := (isClear_cons hnil).1 h
      have hnext : location ++ [name] ≠ [] :=
        List.append_ne_nil_of_right_ne_nil _ (List.cons_ne_nil _ _)
      rw [List.append_cons location name names]
      cases hdirectory : t.isDirectory (location ++ [name]) with
      | true =>
        rw [node, hfile, hdirectory]
        exact ih hrest hsizes hnil hclear
      | false =>
        rw [node_append hdirectory hnext hnil, node, hfile, hdirectory]
        rfl

/-- A walk ends at a file that is in the way. -/
theorem walk_of_not_isClear (hup : Path.up ∉ names)
    (hsize : ∀ name ∈ names, name.utf8ByteSize ≤ componentLimit)
    (h : ¬ t.IsClear location names) : t.walk location names = .error .notADirectory := by
  induction names generalizing location with
  | nil => exact absurd (fun u v huv hu _ => absurd (List.append_eq_nil_iff.1 huv.symm).1 hu) h
  | cons name names ih =>
    obtain ⟨hname, hrest⟩ := not_or.1 (List.mem_cons.not.1 hup)
    obtain ⟨hlong, hsizes⟩ := List.forall_mem_cons.1 hsize
    have hnil : names ≠ [] := by
      rintro rfl
      exact h isClear_singleton
    rw [walk_cons (Ne.symm hname) hlong, node]
    rw [isClear_cons hnil, not_and_or] at h
    cases hfile : t.file? (location ++ [name]) with
    | some text => exact if_neg (by simpa using hnil)
    | none =>
      have hclear := h.resolve_left (not_not.2 hfile)
      -- the file that is in the way lies below this directory
      have hdirectory : t.isDirectory (location ++ [name]) = true := by
        unfold IsClear at hclear
        push Not at hclear
        obtain ⟨u, v, -, hu, -, hbelow⟩ := hclear
        obtain ⟨text, htext⟩ := Option.ne_none_iff_exists'.1 hbelow
        exact isDirectory_of_file? htext hu
      rw [hdirectory]
      exact ih hrest hsizes hclear

/-! ## Writing -/

/-- Nothing is in the way of a file at the path: its text is one of a path, no name is too long, no
file is on the way to it, and its location is no directory. -/
structure Admits (t : FileTree) (path : String) : Prop where
  noNul : '\x00' ∉ path.toList
  pathSize : path.utf8ByteSize ≤ pathLimit
  componentSize : ∀ name ∈ Path.components path, name.utf8ByteSize ≤ componentLimit
  clear : t.IsClear (Path.start path) (Path.components path)
  place : t.node (Path.location path) ≠ .directory

/-- What is found at a path. -/
theorem find_eq (hnul : '\x00' ∉ path.toList) (hsize : path.utf8ByteSize ≤ pathLimit)
    (hpath : path ≠ "") :
    t.find path = t.walk (Path.start path) (Path.components path) := by
  rw [find, if_neg (by simpa using hnul), if_neg (by simpa using hpath),
    if_neg (Nat.not_lt.2 hsize)]

theorem ne_empty_of_components (h : Path.components path ≠ []) : path ≠ "" := by
  rintro rfl
  exact h (by decide)

theorem Admits.write_eq (h : t.Admits path) (hpath : Path.IsFile path) (text : String) :
    t.write path text = .ok (t.put (Path.location path) text) := by
  have hfind : t.find path = .ok (t.node (Path.location path)) := by
    rw [find_eq h.noNul h.pathSize (ne_empty_of_components hpath.components_ne_nil),
      Path.location_eq hpath.up_not_mem,
      walk_of_isClear hpath.up_not_mem h.componentSize hpath.components_ne_nil h.clear]
  have hsize : (Path.components path).any (componentLimit < ·.utf8ByteSize) = false := by
    simpa using h.componentSize
  have hplace := h.place
  rw [write, hfind]
  cases hnode : t.node (Path.location path) with
  | directory => exact absurd hnode hplace
  | file old => rw [hsize]; rfl
  | nothing => rw [hsize]; rfl

/-- Only files that are admitted are written. -/
theorem admits_of_write (hpath : Path.IsFile path) (h : t.write path text = .ok t') :
    t.Admits path := by
  have hne := ne_empty_of_components hpath.components_ne_nil
  have hnul : '\x00' ∉ path.toList := fun hmem => by
    rw [write, find, if_pos (by simpa using hmem)] at h
    cases h
  have hempty : (path == "") = false := beq_eq_false_iff_ne.2 hne
  have hsize : path.utf8ByteSize ≤ pathLimit := Nat.le_of_not_lt fun hlong => by
    rw [write, find, if_neg (by simpa using hnul), hempty, if_neg Bool.false_ne_true,
      if_pos hlong] at h
    cases h
  have hsizes : ∀ name ∈ Path.components path, name.utf8ByteSize ≤ componentLimit := by
    intro name hname
    refine Nat.le_of_not_lt fun hlong => ?_
    have hany : (Path.components path).any (componentLimit < ·.utf8ByteSize) = true :=
      List.any_eq_true.2 ⟨name, hname, decide_eq_true hlong⟩
    rw [write, hany] at h
    split at h <;> cases h
  have hfind := find_eq (t := t) hnul hsize hne
  have hclear : t.IsClear (Path.start path) (Path.components path) := by
    by_contra hclear
    rw [write, hfind, walk_of_not_isClear hpath.up_not_mem hsizes hclear] at h
    cases h
  refine ⟨hnul, hsize, hsizes, hclear, fun hdirectory => ?_⟩
  rw [Path.location_eq hpath.up_not_mem] at hdirectory
  rw [write, hfind, walk_of_isClear hpath.up_not_mem hsizes hpath.components_ne_nil hclear,
    hdirectory] at h
  cases h

/-- The directory above a file that is admitted can be made. -/
theorem Admits.makeDirectory_parent (h : t.Admits path) (hpath : Path.IsFile path) :
    t.makeDirectory (Path.parent path) = .ok () := by
  obtain ⟨name, hname⟩ := hpath.goesOn
  have hsizes := h.componentSize
  have hup := hpath.up_not_mem
  have hclear := h.clear
  rw [hname.components, List.forall_mem_append] at hsizes
  rw [hname.components, List.mem_append, not_or] at hup
  rw [hname.components, hname.start] at hclear
  have hany : (Path.components (Path.parent path)).any (componentLimit < ·.utf8ByteSize) =
      false := by simpa using hsizes.1
  by_cases hempty : Path.parent path = ""
  · rw [makeDirectory, hempty]
    rfl
  obtain ⟨rest, hrest⟩ := hpath.isPrefix
  have hnul : '\x00' ∉ (Path.parent path).toList := fun hmem =>
    h.noNul (hrest ▸ List.mem_append_left rest hmem)
  have hsize : (Path.parent path).utf8ByteSize ≤ pathLimit := by
    have hpathText : path = Path.parent path ++ String.ofList rest := by
      rw [← String.toList_inj, String.toList_append, String.toList_ofList, hrest]
    have := h.pathSize
    rw [hpathText, String.utf8ByteSize_append] at this
    omega
  rw [makeDirectory, if_neg (by simpa using hempty), find_eq hnul hsize hempty]
  cases hcomponents : Path.components (Path.parent path) with
  | nil => rfl
  | cons first others =>
    have hnil : Path.components (Path.parent path) ≠ [] := by
      rw [hcomponents]
      exact List.cons_ne_nil _ _
    have hfile := hclear _ _ rfl hnil (List.cons_ne_nil _ _)
    rw [← hcomponents, walk_of_isClear hup.1 hsizes.1 hnil hclear.of_append, node, hfile, hany]
    cases t.isDirectory (Path.start (Path.parent path) ++ Path.components (Path.parent path)) <;>
      rfl

theorem Admits.writeFile_eq (h : t.Admits path) (hpath : Path.IsFile path) (text : String) :
    t.writeFile path text = .ok (t.put (Path.location path) text) := by
  rw [writeFile, h.makeDirectory_parent hpath, h.write_eq hpath]
  rfl

theorem exists_writeFile_eq_error (h : ¬ t.Admits path) (hpath : Path.IsFile path) (text : String) :
    ∃ e, t.writeFile path text = .error e := by
  cases hwrite : t.writeFile path text with
  | error e => exact ⟨e, rfl⟩
  | ok t' =>
    obtain ⟨-, -, hwrite⟩ := bind_eq_ok_iff.1 hwrite
    cases hone : t.write path text with
    | error fault => rw [hone] at hwrite; cases hwrite
    | ok t' => exact absurd (admits_of_write hpath hone) h

/-! ## Writing files -/

/-- Neither location is the other one or leads to it. -/
def Apart (location other : List String) : Prop := ¬ location <+: other ∧ ¬ other <+: location

instance : Std.Symm Apart := ⟨fun _ _ => And.symm⟩

theorem Apart.ne (h : Apart location other) : location ≠ other := by
  rintro rfl
  exact h.1 List.prefix_rfl

/-- A text that is not on the way makes no difference to it. -/
theorem isClear_put_iff {base : List String}
    (h : location <+: base ++ names → location = base ++ names) (t : FileTree) (text : String) :
    (t.put location text).IsClear base names ↔ t.IsClear base names := by
  have hne {u v : List String} (huv : names = u ++ v) (hv : v ≠ []) : base ++ u ≠ location := by
    rintro rfl
    have heq := h (by rw [huv, ← List.append_assoc]; exact List.prefix_append _ _)
    rw [huv, List.append_right_inj] at heq
    exact hv (List.append_right_eq_self.1 heq.symm)
  refine forall₂_congr fun u v => forall₃_congr fun huv _ hv => ?_
  rw [file?_put_of_ne (hne huv hv)]

theorem Admits.put_self (h : t.Admits path) (hpath : Path.IsFile path) (text : String) :
    (t.put (Path.location path) text).Admits path where
  noNul := h.noNul
  pathSize := h.pathSize
  componentSize := h.componentSize
  clear := (isClear_put_iff (fun _ => Path.location_eq hpath.up_not_mem) t text).2 h.clear
  place := by
    rw [node, file?_put_self]
    nofun

/-- A text at a location apart from a path makes no difference to a file there. -/
theorem admits_put_iff (hpath : Path.IsFile path) (h : Apart location (Path.location path)) :
    (t.put location text).Admits path ↔ t.Admits path := by
  have hclear : (t.put location text).IsClear (Path.start path) (Path.components path) ↔
      t.IsClear (Path.start path) (Path.components path) := by
    refine isClear_put_iff (fun hbegins => absurd ?_ h.1) t text
    rwa [Path.location_eq hpath.up_not_mem]
  have hnode : (t.put location text).node (Path.location path) = t.node (Path.location path) := by
    have hbelow : (Path.location path).isPrefixOf location = false :=
      Bool.eq_false_iff.2 (mt List.isPrefixOf_iff_prefix.1 h.2)
    rw [node, file?_put_of_ne h.ne.symm, isDirectory_put, hbelow, Bool.false_and, Bool.or_false,
      node]
  constructor
  · exact fun ha => ⟨ha.noNul, ha.pathSize, ha.componentSize, hclear.1 ha.clear, hnode ▸ ha.place⟩
  · exact fun ha => ⟨ha.noNul, ha.pathSize, ha.componentSize, hclear.2 ha.clear, hnode ▸ ha.place⟩

theorem Admits.putAll (h : t.Admits path) (hpath : Path.IsFile path)
    (hfiles : ∀ other ∈ locations files, Apart other (Path.location path) ∨
      other = Path.location path) : (t.putAll files).Admits path := by
  induction files generalizing t with
  | nil => exact h
  | cons file files ih =>
    rw [locations_cons, List.forall_mem_cons] at hfiles
    obtain ⟨hfile, hfiles⟩ := hfiles
    have hput : (t.put (Path.location file.1) file.2).Admits path := by
      rcases hfile with hapart | heq
      · exact (admits_put_iff hpath hapart).2 h
      · rw [heq]
        exact h.put_self hpath file.2
    exact ih hput hfiles

/-- Files that are apart from one another. -/
structure AreApart (files : List (String × String)) : Prop where
  isFile : ∀ file ∈ files, Path.IsFile file.1
  apart : (locations files).Pairwise Apart

theorem AreApart.nodup (h : AreApart files) : (locations files).Nodup :=
  List.nodup_iff_pairwise_ne.2 (h.apart.imp Apart.ne)

theorem AreApart.tail {file : String × String} (h : AreApart (file :: files)) :
    AreApart files :=
  ⟨(List.forall_mem_cons.1 h.isFile).2, (List.pairwise_cons.1 h.apart).2⟩

/-- What is admitted after the first file is what is admitted before it. -/
theorem AreApart.admits_put_iff {file : String × String} (h : AreApart (file :: files)) :
    (∀ other ∈ files, (t.put (Path.location file.1) file.2).Admits other.1) ↔
      ∀ other ∈ files, t.Admits other.1 :=
  forall₂_congr fun _ hother =>
    FileTree.admits_put_iff (h.isFile _ (List.mem_cons_of_mem _ hother))
      ((List.pairwise_cons.1 h.apart).1 _ (List.mem_map_of_mem hother))

/-- Files that are all admitted are all written. -/
theorem AreApart.writeFiles_eq (h : AreApart files) (ha : ∀ file ∈ files, t.Admits file.1) :
    t.writeFiles files = (t.putAll files, .ok ()) := by
  induction files generalizing t with
  | nil => rfl
  | cons file files ih =>
    obtain ⟨hfile, hfiles⟩ := List.forall_mem_cons.1 ha
    rw [writeFiles, hfile.writeFile_eq (h.isFile _ List.mem_cons_self)]
    exact ih h.tail (h.admits_put_iff.2 hfiles)

/-- A file that is not admitted ends the writing. -/
theorem AreApart.exists_writeFiles_eq_error (h : AreApart files)
    (ha : ¬ ∀ file ∈ files, t.Admits file.1) : ∃ e, (t.writeFiles files).2 = .error e := by
  induction files generalizing t with
  | nil => exact absurd nofun ha
  | cons file files ih =>
    by_cases hfile : t.Admits file.1
    · rw [writeFiles, hfile.writeFile_eq (h.isFile _ List.mem_cons_self)]
      refine ih h.tail (mt h.admits_put_iff.1 fun hfiles => ha ?_)
      exact List.forall_mem_cons.2 ⟨hfile, hfiles⟩
    · obtain ⟨e, he⟩ := exists_writeFile_eq_error hfile (h.isFile _ List.mem_cons_self) file.2
      rw [writeFiles, he]
      exact ⟨e, rfl⟩

/-- Files that were written are admitted again. -/
theorem AreApart.admits_putAll (h : AreApart files) (ha : ∀ file ∈ files, t.Admits file.1) :
    ∀ file ∈ files, (t.putAll files).Admits file.1 := fun file hfile =>
  (ha file hfile).putAll (h.isFile file hfile) fun _ hother =>
    or_iff_not_imp_right.2 fun hne =>
      h.apart.forall hother (List.mem_map_of_mem hfile) hne

end ContractTests.FileTree
