import ContractTests.Proofs.TestClass.Build
import ContractTests.Proofs.Text.Firsts

/-! # Classes and their call sequences

`TestClass.Follows` is what a class has to do with a call sequence: there is one test method for
every called function that has a contract, in the order of the first calls, and the main method
replays the sequence. A class that is built follows its sequence, and it starts with the methods and
the main method of the class for any beginning of the sequence (`TestClass.build_follows`).
-/

set_option autoImplicit false

namespace ContractTests

/-! ## Sequences that go on -/

namespace CallSequence

theorem distinct_append (calls more : CallSequence) :
    distinct (calls ++ more) = distinct calls ++ (more.removeAll calls).eraseDups :=
  List.eraseDups_append

/-- The names are in the order of their first calls. -/
theorem pairwise_distinct (calls : CallSequence) :
    (distinct calls).Pairwise fun a b => calls.idxOf a < calls.idxOf b :=
  pairwise_idxOf_eraseDups calls

end CallSequence

namespace TestClass

open CallSequence (distinct)

variable {options : ClassOptions} {table : ContractTable} {calls more : CallSequence}
  {c : TestClass}

/-- The methods of the first names do not depend on the names that follow. -/
theorem methodsFor_append {first second : List String} {methods : List TestMethod}
    (h : methodsFor options table (first ++ second) = .ok methods) :
    ∃ earlier later, methodsFor options table first = .ok earlier ∧
      methodsFor options table second = .ok later ∧ methods = earlier ++ later := by
  induction first generalizing methods with
  | nil => exact ⟨[], methods, rfl, h, rfl⟩
  | cons name first ih =>
    rw [List.cons_append, methodsFor] at h
    rw [methodsFor]
    split at h
    · obtain ⟨method, hmethod, h⟩ := bind_eq_ok_iff.1 h
      obtain ⟨others, hothers, h⟩ := bind_eq_ok_iff.1 h
      cases h
      obtain ⟨earlier, later, hearlier, hlater, rfl⟩ := ih hothers
      exact ⟨method :: earlier, later, by rw [hmethod, hearlier]; rfl, hlater, rfl⟩
    · split at h
      · cases h
      · exact ih h

theorem build_eq_ok (h : build options table calls = .ok c) :
    methodsFor options table (distinct calls) = .ok c.methods ∧
      c.main = mainFor options table calls := by
  obtain ⟨methods, hmethods, h⟩ := bind_eq_ok_iff.1 h
  cases h
  exact ⟨hmethods, rfl⟩

/-! ## Following a sequence -/

/-- The statement of the main method that calls a test method. -/
def replay (method : String) : Stmt := .perform (.send (.var instanceName) method [])

/-- The functions are those of the sequence that have a contract, in the order of their first calls.
The class has the test of each of them and no other method, and its main method calls on an instance
of the class the test of every call that has a contract, again and again if it is repeated. -/
structure Follows (options : ClassOptions) (table : ContractTable) (calls : CallSequence)
    (functions : List String) (c : TestClass) : Prop where
  mem_functions : ∀ name, name ∈ functions ↔ name ∈ calls ∧ table.contains name = true
  ordered : functions.Pairwise fun a b => calls.idxOf a < calls.idxOf b
  tests : List.Forall₂ (IsTestFor options table) c.methods functions
  names : c.methods.map (·.name) = functions.map TestMethod.nameFor
  nodup : (c.methods.map (·.name)).Nodup
  main : c.main = .declare options.className instanceName (.create options.className []) ::
    (calls.filter table.contains).map fun name => replay (TestMethod.nameFor name)
  /-- Every call of the main method is that of one method of the class. -/
  replays : ∀ s ∈ c.main.tail, ∃! m, m ∈ c.methods ∧ s = replay m.name
  replayed : ∀ m ∈ c.methods, replay m.name ∈ c.main.tail

/-- A method is known by its name. -/
theorem existsUnique_method (hnodup : (c.methods.map (·.name)).Nodup) {name : String}
    (hname : name ∈ c.methods.map (·.name)) : ∃! m, m ∈ c.methods ∧ replay name = replay m.name := by
  obtain ⟨m, hm, rfl⟩ := List.mem_map.1 hname
  refine ⟨m, ⟨hm, rfl⟩, ?_⟩
  rintro other ⟨hother, heq⟩
  have hsame : m.name = other.name := by simpa [replay] using heq
  exact List.inj_on_of_nodup_map hnodup hother hm hsame.symm

theorem follows (h : build options table calls = .ok c) :
    Follows options table calls ((distinct calls).filter table.contains) c := by
  obtain ⟨hmethods, hmain⟩ := build_eq_ok h
  have hnames := names_of_build h
  have hnodup := nodup_names_of_build h
  have hmem : ∀ name, name ∈ (distinct calls).filter table.contains ↔
      name ∈ calls ∧ table.contains name = true := by
    intro name
    rw [List.mem_filter, distinct, List.mem_eraseDups]
  refine ⟨hmem, (CallSequence.pairwise_distinct calls).filter _, forall₂_methodsFor hmethods, hnames,
    hnodup, hmain, ?replays, ?replayed⟩
  case replays =>
    intro s hs
    rw [hmain, mainFor, List.tail_cons] at hs
    obtain ⟨name, hname, rfl⟩ := List.mem_map.1 hs
    apply existsUnique_method hnodup
    rw [hnames]
    exact List.mem_map_of_mem ((hmem name).2 (List.mem_filter.1 hname))
  case replayed =>
    intro m hm
    have hname : m.name ∈ c.methods.map (·.name) := List.mem_map_of_mem hm
    rw [hnames] at hname
    obtain ⟨name, hname, heq⟩ := List.mem_map.1 hname
    rw [hmain, mainFor, List.tail_cons, ← heq]
    exact List.mem_map_of_mem (List.mem_filter.2 ((hmem name).1 hname))

/-- A class that is built follows its sequence. The class for a beginning of the sequence is built,
too, and its methods and its main method are the first ones of the class. -/
theorem build_follows (h : build options table (calls ++ more) = .ok c) :
    Follows options table (calls ++ more)
        ((distinct (calls ++ more)).filter table.contains) c ∧
      ∃ earlier, build options table calls = .ok earlier ∧
        earlier.methods <+: c.methods ∧ earlier.main <+: c.main := by
  obtain ⟨hmethods, hmain⟩ := build_eq_ok h
  rw [CallSequence.distinct_append] at hmethods
  obtain ⟨methods, others, hbuilt, -, hsplit⟩ := methodsFor_append hmethods
  have hearlier : build options table calls = .ok
      ⟨options.package, options.className, importsFor options methods, methods,
        mainFor options table calls⟩ := by
    rw [build, hbuilt]
    rfl
  refine ⟨follows h, _, hearlier, ?_, ?_⟩
  · rw [hsplit]
    exact List.prefix_append methods others
  · rw [hmain, mainFor, mainFor, List.filter_append, List.map_append, ← List.cons_append]
    exact List.prefix_append _ _

/-- The contract of `int size(List<String> xs)` without conditions. -/
def size : Contract := ⟨"size", ⟨"size", [⟨"xs", "List<String>"⟩], "int"⟩, none, none⟩

theorem size_grow_follows : ∃ c,
    build { unmatchedCalls := .skip } ⟨[Contract.grow, size]⟩ (["size", "clear", "grow"] ++ ["size"]) =
        .ok c ∧
      Follows { unmatchedCalls := .skip } ⟨[Contract.grow, size]⟩ ["size", "clear", "grow", "size"]
        ["size", "grow"] c ∧
      ∃ earlier,
        build { unmatchedCalls := .skip } ⟨[Contract.grow, size]⟩ ["size", "clear", "grow"] =
            .ok earlier ∧
          earlier.methods <+: c.methods ∧ earlier.main <+: c.main := by
  obtain ⟨c, h⟩ : ∃ c, build { unmatchedCalls := .skip } ⟨[Contract.grow, size]⟩
      (["size", "clear", "grow"] ++ ["size"]) = .ok c := ⟨_, rfl⟩
  exact ⟨c, h, build_follows h⟩

end TestClass

end ContractTests
