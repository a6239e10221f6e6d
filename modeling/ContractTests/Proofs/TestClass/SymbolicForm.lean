import ContractTests.Proofs.Sharing.Symbolic

/-! # What the symbolic form of a class changes

Inputs and assumptions are replaced one by one, at every depth (`Stmt.Symbolizes`), and `Debug` is
imported unless something of that name is. All else of a class stays as it is
(`TestClass.SymbolicForm`), and this determines the symbolic form (`TestClass.symbolicForm_iff`).
The classes that are their own symbolic form are those without inputs and assumptions that import
something with the name `Debug` (`TestClass.symbolic_eq_self_iff`); every symbolic form is one of
them.
-/

set_option autoImplicit false

namespace ContractTests

namespace Stmt

/-! ## Blocks -/

/-- An input or an assumption, for which something else stands in the symbolic form. -/
inductive IsReplaced : Stmt → Prop
  | input (type name : String) : IsReplaced (.input type name)
  | assume (condition : Expr) : IsReplaced (.assume condition)

/-- The second block is the first one with a declaration of the same name and type in the place of
an input and a call in the place of an assumption, at every depth. -/
inductive Symbolizes : List Stmt → List Stmt → Prop
  | nil : Symbolizes [] []
  | input {rest rest' : List Stmt} (type name : String) (hrest : Symbolizes rest rest') :
      Symbolizes (.input type name :: rest)
        (.declare type name (symbolicValue type name) :: rest')
  | assume {rest rest' : List Stmt} (condition : Expr) (hrest : Symbolizes rest rest') :
      Symbolizes (.assume condition :: rest)
        (.perform (.send (.var "Debug") "assume" [condition]) :: rest')
  | whenever {body body' rest rest' : List Stmt} (condition : Expr) (returns : Bool)
      (hbody : Symbolizes body body') (hrest : Symbolizes rest rest') :
      Symbolizes (.whenever condition body returns :: rest)
        (.whenever condition body' returns :: rest')
  | kept {s : Stmt} {rest rest' : List Stmt} (hs : ¬ s.IsReplaced) (hblock : s.block = [])
      (hrest : Symbolizes rest rest') : Symbolizes (s :: rest) (s :: rest')

theorem symbolic_eq_self_of_block {s : Stmt} (hs : ¬ s.IsReplaced) (hblock : s.block = []) :
    symbolic s = s := by
  cases s with
  | input type name => exact absurd (.input type name) hs
  | assume condition => exact absurd (.assume condition) hs
  | whenever condition body returns =>
    cases (hblock : body = [])
    rw [symbolic, symbolicAll]
  | _ => rw [symbolic]

theorem Symbolizes.eq_symbolicAll {body body' : List Stmt} (h : Symbolizes body body') :
    body' = symbolicAll body := by
  induction h with
  | nil => rfl
  | input type name _ ih => rw [symbolicAll, symbolic, ih]
  | assume condition _ ih => rw [symbolicAll, symbolic, debugCall, ih]
  | whenever condition returns _ _ ihbody ih => rw [symbolicAll, symbolic, ihbody, ih]
  | kept hs hblock _ ih => rw [symbolicAll, symbolic_eq_self_of_block hs hblock, ih]

theorem symbolizes_cons_kept {s : Stmt} {rest rest' : List Stmt} (hs : ¬ s.IsReplaced)
    (hblock : s.block = []) (hrest : Symbolizes rest rest') :
    Symbolizes (s :: rest) (symbolic s :: rest') := by
  rw [symbolic_eq_self_of_block hs hblock]
  exact .kept hs hblock hrest

mutual

theorem symbolizes_cons : ∀ (s : Stmt) {rest rest' : List Stmt}, Symbolizes rest rest' →
    Symbolizes (s :: rest) (symbolic s :: rest')
  | .input type name, _, _, hrest => by
    rw [symbolic]
    exact .input type name hrest
  | .assume condition, _, _, hrest => by
    rw [symbolic]
    exact .assume condition hrest
  | .whenever condition body returns, _, _, hrest => by
    rw [symbolic]
    exact .whenever condition returns (symbolizes_symbolicAll body) hrest
  | .declare .., _, _, hrest => symbolizes_cons_kept nofun rfl hrest
  | .assign .., _, _, hrest => symbolizes_cons_kept nofun rfl hrest
  | .assert _, _, _, hrest => symbolizes_cons_kept nofun rfl hrest
  | .perform _, _, _, hrest => symbolizes_cons_kept nofun rfl hrest

theorem symbolizes_symbolicAll : ∀ body : List Stmt, Symbolizes body (symbolicAll body)
  | [] => .nil
  | s :: rest => symbolizes_cons s (symbolizes_symbolicAll rest)

end

theorem symbolizes_iff {body body' : List Stmt} :
    Symbolizes body body' ↔ body' = symbolicAll body := by
  constructor
  · exact Symbolizes.eq_symbolicAll
  · rintro rfl
    exact symbolizes_symbolicAll body

/-! ## Blocks that are their own symbolic form -/

theorem not_isReplaced_symbolic (s : Stmt) : ¬ (symbolic s).IsReplaced := by
  cases s <;> rw [symbolic] <;> nofun

theorem everywhere_symbolicAll (body : List Stmt) :
    Everywhere (¬ ·.IsReplaced) (symbolicAll body) := by
  rw [Everywhere, nestedAll_symbolicAll, List.forall_mem_map]
  exact fun s _ => not_isReplaced_symbolic s

mutual

theorem symbolic_eq_self : ∀ {s : Stmt}, s.Throughout (¬ ·.IsReplaced) → symbolic s = s
  | .whenever condition body returns, h => by
    rw [symbolic, symbolicAll_eq_self (throughout_whenever.1 h).2]
  | .input type name, h => absurd (.input type name) (h _ List.mem_cons_self)
  | .assume condition, h => absurd (.assume condition) (h _ List.mem_cons_self)
  | .declare .., _ => by rw [symbolic]
  | .assign .., _ => by rw [symbolic]
  | .assert _, _ => by rw [symbolic]
  | .perform _, _ => by rw [symbolic]

theorem symbolicAll_eq_self : ∀ {body : List Stmt}, Everywhere (¬ ·.IsReplaced) body →
    symbolicAll body = body
  | [], _ => rfl
  | _ :: _, h => by
    obtain ⟨hs, hrest⟩ := everywhere_cons.1 h
    rw [symbolicAll, symbolic_eq_self hs, symbolicAll_eq_self hrest]

end

/-- Nothing is left to replace in a block exactly when it is its own symbolic form. -/
theorem symbolizes_self_iff {body : List Stmt} :
    Symbolizes body body ↔ Everywhere (¬ ·.IsReplaced) body := by
  rw [symbolizes_iff]
  refine ⟨fun h => ?_, fun h => (symbolicAll_eq_self h).symm⟩
  rw [h]
  exact everywhere_symbolicAll body

end Stmt

namespace TestClass

variable {c c' : TestClass} {imports imports' : List String}

/-! ## Imports -/

/-- The import is that of `Debug`, or of another class of that name. -/
def ProvidesDebug (name : String) : Prop := name = debugImport ∨ ∃ start, name = start ++ ".Debug"

theorem providesDebug_iff {name : String} : providesDebug name = true ↔ ProvidesDebug name := by
  rw [providesDebug, Bool.or_eq_true, beq_iff_eq, List.isSuffixOf_iff_suffix, ProvidesDebug]
  refine or_congr_right ⟨?_, ?_⟩
  · rintro ⟨start, hstart⟩
    refine ⟨String.ofList start, String.toList_inj.1 ?_⟩
    rw [String.toList_append, String.toList_ofList, hstart]
  · rintro ⟨start, rfl⟩
    exact ⟨start.toList, String.toList_append.symm⟩

/-- The second list is the first one, with the import of `Debug` after it unless it has one. -/
inductive ImportsDebug (imports : List String) : List String → Prop
  | kept (h : ∃ name ∈ imports, ProvidesDebug name) : ImportsDebug imports imports
  | added (h : ∀ name ∈ imports, ¬ ProvidesDebug name) :
      ImportsDebug imports (imports ++ [debugImport])

theorem any_providesDebug_iff :
    imports.any providesDebug = true ↔ ∃ name ∈ imports, ProvidesDebug name := by
  simp only [List.any_eq_true, providesDebug_iff]

theorem importsDebug_iff : ImportsDebug imports imports' ↔
    imports' = if imports.any providesDebug then imports else imports ++ [debugImport] := by
  by_cases h : ∃ name ∈ imports, ProvidesDebug name
  · rw [if_pos (any_providesDebug_iff.2 h)]
    constructor
    · rintro (- | hnone)
      · rfl
      · obtain ⟨name, hname, hprovides⟩ := h
        exact absurd hprovides (hnone name hname)
    · rintro rfl
      exact .kept h
  · rw [if_neg (mt any_providesDebug_iff.1 h)]
    constructor
    · rintro (hsome | -)
      · exact absurd hsome h
      · rfl
    · rintro rfl
      exact .added fun name hname hprovides => h ⟨name, hname, hprovides⟩

theorem importsDebug_self_iff :
    ImportsDebug imports imports ↔ ∃ name ∈ imports, ProvidesDebug name := by
  rw [importsDebug_iff, ← any_providesDebug_iff]
  split <;> simp [*]

/-- With the import of `Debug`, there is something of that name. -/
theorem ImportsDebug.exists_provides (h : ImportsDebug imports imports') :
    ∃ name ∈ imports', ProvidesDebug name := by
  cases h with
  | kept hsome => exact hsome
  | added => exact ⟨debugImport, List.mem_append_right _ List.mem_cons_self, .inl rfl⟩

/-! ## Classes -/

/-- The second class is the first one with the inputs and assumptions of its methods and of the main
method replaced and `Debug` imported. -/
structure SymbolicForm (c c' : TestClass) : Prop where
  package : c'.package = c.package
  name : c'.name = c.name
  imports : ImportsDebug c.imports c'.imports
  methods : List.Forall₂ (fun m m' => m'.name = m.name ∧ Stmt.Symbolizes m.body m'.body)
    c.methods c'.methods
  main : Stmt.Symbolizes c.main c'.main

theorem forall₂_symbolizes_iff {methods methods' : List TestMethod} :
    List.Forall₂ (fun m m' => m'.name = m.name ∧ Stmt.Symbolizes m.body m'.body) methods methods' ↔
      methods' = methods.map fun m => { m with body := Stmt.symbolicAll m.body } := by
  have hmethod (m m' : TestMethod) : (m'.name = m.name ∧ Stmt.Symbolizes m.body m'.body) ↔
      { m with body := Stmt.symbolicAll m.body } = m' := by
    obtain ⟨name, body⟩ := m
    obtain ⟨name', body'⟩ := m'
    rw [Stmt.symbolizes_iff, TestMethod.mk.injEq]
    exact and_congr eq_comm eq_comm
  simp only [hmethod]
  rw [← List.forall₂_map_left_iff, List.forall₂_eq_eq_eq]
  exact eq_comm

/-- There is one class that is the symbolic form of a class. -/
theorem symbolicForm_iff : SymbolicForm c c' ↔ c' = c.symbolic := by
  constructor
  · rintro ⟨hpackage, hname, himports, hmethods, hmain⟩
    rw [importsDebug_iff] at himports
    rw [forall₂_symbolizes_iff] at hmethods
    rw [Stmt.symbolizes_iff] at hmain
    obtain ⟨package, name, imports, methods, main⟩ := c'
    cases hpackage
    cases hname
    cases himports
    cases hmethods
    cases hmain
    rfl
  · rintro rfl
    exact ⟨rfl, rfl, importsDebug_iff.2 rfl, forall₂_symbolizes_iff.2 rfl,
      Stmt.symbolizes_iff.2 rfl⟩

theorem forall_mem_statements_iff {P : Stmt → Prop} : (∀ s ∈ c.statements, P s) ↔
    (∀ m ∈ c.methods, Stmt.Everywhere P m.body) ∧ Stmt.Everywhere P c.main := by
  rw [statements, List.forall_mem_append, List.forall_mem_flatMap]
  rfl

theorem not_isReplaced_of_mem_symbolic : ∀ s ∈ c.symbolic.statements, ¬ s.IsReplaced := by
  rw [forall_mem_statements_iff]
  constructor
  · exact List.forall_mem_map.2 fun m _ => Stmt.everywhere_symbolicAll m.body
  · exact Stmt.everywhere_symbolicAll c.main

/-- A class is its own symbolic form exactly when nothing in it is to be replaced and something with
the name `Debug` is imported. -/
theorem symbolic_eq_self_iff : c.symbolic = c ↔
    (∀ s ∈ c.statements, ¬ s.IsReplaced) ∧ ∃ name ∈ c.imports, ProvidesDebug name := by
  rw [eq_comm, ← symbolicForm_iff, forall_mem_statements_iff, ← importsDebug_self_iff]
  constructor
  · rintro ⟨-, -, himports, hmethods, hmain⟩
    refine ⟨⟨fun m hm => ?_, Stmt.symbolizes_self_iff.1 hmain⟩, himports⟩
    exact Stmt.symbolizes_self_iff.1 (List.forall₂_same.1 hmethods m hm).2
  · rintro ⟨⟨hmethods, hmain⟩, himports⟩
    refine ⟨rfl, rfl, himports, List.forall₂_same.2 fun m hm => ?_,
      Stmt.symbolizes_self_iff.2 hmain⟩
    exact ⟨rfl, Stmt.symbolizes_self_iff.2 (hmethods m hm)⟩

/-- The symbolic form of a class is its own symbolic form, and no statement in it is an input or an
assumption. It is the one class that is the given class with these replaced and `Debug` imported. -/
theorem symbolic_keepsShape (c : TestClass) :
    c.symbolic.symbolic = c.symbolic ∧ (∀ s ∈ c.symbolic.statements, ¬ s.IsReplaced) ∧
      ∀ c', SymbolicForm c c' ↔ c' = c.symbolic := by
  have hform : SymbolicForm c c.symbolic := symbolicForm_iff.2 rfl
  refine ⟨?_, not_isReplaced_of_mem_symbolic, fun _ => symbolicForm_iff⟩
  exact symbolic_eq_self_iff.2 ⟨not_isReplaced_of_mem_symbolic, hform.imports.exists_provides⟩

end TestClass

end ContractTests
