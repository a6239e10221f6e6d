import ContractTests.Stmt
import ContractTests.Text.Affix
import Mathlib.Logic.Function.Basic

/-! # Running a test method

`Scenario.runAll s m body` runs the statements `body` from the memory `m`. A memory has the values
of the variables and the contents of the objects: the elements of an array or collection. A scenario
decides what the statements leave open: the inputs, the truth of conditions, the values of
expressions that the machine does not look into, and what the code that is called does. That code
may change every object from outside and every object passed to it; it has no way to an object that
the test has made and not passed.

A run records the assumptions, calls and assertions that it meets, each with the memory it is met
in.
-/

set_option autoImplicit false

universe u

namespace ContractTests

/-! ## Memories -/

/-- An object: one from outside, or the one that the test made after `n` others. -/
inductive Location where
  | given (n : Nat)
  | made (n : Nat)
deriving DecidableEq

/-- What a variable or an element holds. -/
inductive Datum (D : Type u) where
  | null
  | scalar (d : D)
  | object (l : Location)

namespace Datum

variable {D : Type u}

def isNull : Datum D → Bool
  | .null => true
  | _ => false

theorem isNull_iff {v : Datum D} : v.isNull = true ↔ v = .null := by cases v <;> simp [isNull]

def refersTo (l : Location) : Datum D → Bool
  | .object l' => l' == l
  | _ => false

end Datum

structure Memory (D : Type u) where
  store : String → Datum D
  heap : Location → List (Datum D)
  /-- The number of objects made. -/
  made : Nat

/-- What a call does: the value that it returns, and the contents that it leaves in the objects that
it can reach. -/
structure Effect (D : Type u) where
  result : Datum D
  contents : Location → List (Datum D)

/-- Whether code that is called with these arguments can reach an object. -/
def Location.isReached {D : Type u} (args : List (Datum D)) : Location → Bool
  | .given _ => true
  | .made n => args.any (·.refersTo (.made n))

namespace Memory

variable {D : Type u}

def set (m : Memory D) (name : String) (v : Datum D) : Memory D :=
  { m with store := Function.update m.store name v }

/-- The contents of the object that a datum refers to. -/
def contents (m : Memory D) : Datum D → List (Datum D)
  | .object l => m.heap l
  | _ => []

/-- An element of the object that a datum refers to. -/
def element (m : Memory D) (v : Datum D) (n : Nat) : Datum D := ((m.contents v)[n]?).getD .null

/-- The memory with one more object. -/
def make (m : Memory D) (contents : List (Datum D)) : Memory D :=
  { m with heap := Function.update m.heap (.made m.made) contents, made := m.made + 1 }

/-- The memory after a call. -/
def after (m : Memory D) (args : List (Datum D)) (effect : Effect D) : Memory D :=
  { m with heap := fun l => if l.isReached args then effect.contents l else m.heap l }

section

variable (m : Memory D)

@[simp] theorem set_store_self (name : String) (v : Datum D) : (m.set name v).store name = v := by
  simp only [set, Function.update_self]

theorem set_store_of_ne {name x : String} (v : Datum D) (h : x ≠ name) :
    (m.set name v).store x = m.store x := by
  simp only [set, Function.update_of_ne h]

@[simp] theorem set_heap (name : String) (v : Datum D) : (m.set name v).heap = m.heap := rfl

@[simp] theorem set_made (name : String) (v : Datum D) : (m.set name v).made = m.made := rfl

@[simp] theorem make_store (contents : List (Datum D)) : (m.make contents).store = m.store := rfl

@[simp] theorem make_made (contents : List (Datum D)) : (m.make contents).made = m.made + 1 := rfl

@[simp] theorem make_heap_self (contents : List (Datum D)) :
    (m.make contents).heap (.made m.made) = contents := by
  simp only [make, Function.update_self]

theorem make_heap_of_ne {l : Location} (contents : List (Datum D)) (h : l ≠ .made m.made) :
    (m.make contents).heap l = m.heap l := by
  simp only [make, Function.update_of_ne h]

@[simp] theorem after_store (args : List (Datum D)) (effect : Effect D) :
    (m.after args effect).store = m.store := rfl

@[simp] theorem after_heap (args : List (Datum D)) (effect : Effect D) (l : Location) :
    (m.after args effect).heap l = if l.isReached args then effect.contents l else m.heap l := rfl

end

end Memory

/-! ## Scenarios -/

/-- What a run meets, with the memory it is met in. -/
inductive Event (D : Type u) where
  | assumed (condition : Expr) (m : Memory D)
  | called (target function : String) (args : List (Datum D)) (m : Memory D)
  | checked (condition : Expr) (m : Memory D)

structure Scenario (D : Type u) where
  input : String → Datum D
  input_given : ∀ name l, input name = .object l → ∃ n, l = .given n
  holds : Expr → Memory D → Bool
  value : Expr → Memory D → Datum D
  effect : String → String → List (Datum D) → Memory D → Effect D

/-- A value, with the memory and the events that finding it leaves. -/
structure Evaluated (D : Type u) where
  value : Datum D
  memory : Memory D
  events : List (Event D)

/-- Whether a type name is that of an array. -/
def isArrayType (type : String) : Bool := (Text.stripEnd? "[]".toList type.toList).isSome

namespace Scenario

variable {D : Type u} (s : Scenario D)

/-- The truth of a condition. Comparisons of a variable with null are decided by the memory. -/
def truth (m : Memory D) : Expr → Bool
  | .literal (.boolean b) => b
  | .binary .and left right => truth m left && truth m right
  | .binary .or left right => truth m left || truth m right
  | .binary .equal (.var name) (.literal .null) => (m.store name).isNull
  | .binary .notEqual (.var name) (.literal .null) => !(m.store name).isNull
  | e => s.holds e m

/-- The value of an argument. -/
def argument (m : Memory D) : Expr → Datum D
  | .var name => m.store name
  | e => s.value e m

/-- The value of an expression. A new array has the given element, every other new object is a copy.
-/
def evaluate (m : Memory D) : Expr → Evaluated D
  | .var name => ⟨m.store name, m, []⟩
  | .literal .null => ⟨.null, m, []⟩
  | .index (.var name) (.literal (.integer n)) =>
    ⟨m.element (m.store name) n.toNatClampNeg, m, []⟩
  | .create type [.var name] =>
    ⟨.object (.made m.made),
      m.make (if isArrayType type then [m.store name] else m.contents (m.store name)), []⟩
  | .conditional condition yes no =>
    if s.truth m condition then evaluate m yes else evaluate m no
  | .send (.var target) function args =>
    let data := args.map (s.argument m)
    let effect := s.effect target function data m
    ⟨effect.result, m.after data effect, [.called target function data m]⟩
  | e => ⟨s.value e m, m, []⟩

end Scenario

/-! ## Runs -/

/-- How a run ends. -/
inductive Ending where
  | finished
  /-- At an assumption that does not hold. -/
  | blocked
  | returned
  /-- At an assertion that does not hold. -/
  | failed
deriving DecidableEq

structure Run (D : Type u) where
  ending : Ending
  memory : Memory D
  events : List (Event D)

/-- One run and then, unless it ends the method, another one. -/
def Run.andThen {D : Type u} (r : Run D) (next : Memory D → Run D) : Run D :=
  match r.ending with
  | .finished =>
    { next r.memory with events := r.events ++ (next r.memory).events }
  | _ => r

theorem Run.andThen_assoc {D : Type u} (r : Run D) (next last : Memory D → Run D) :
    (r.andThen next).andThen last = r.andThen fun m => (next m).andThen last := by
  obtain ⟨ending, m, events⟩ := r
  cases ending with
  | finished =>
    simp only [Run.andThen]
    cases h : (next m).ending <;> simp only [h, List.append_assoc]
  | _ => rfl

namespace Scenario

variable {D : Type u} (s : Scenario D)

mutual

def run (m : Memory D) : Stmt → Run D
  | .input _ name => ⟨.finished, m.set name (s.input name), []⟩
  | .declare _ name init =>
    let found := s.evaluate m init
    ⟨.finished, found.memory.set name found.value, found.events⟩
  | .assign target value =>
    let found := s.evaluate m value
    ⟨.finished, found.memory.set target found.value, found.events⟩
  | .assume condition =>
    ⟨if s.truth m condition then .finished else .blocked, m, [.assumed condition m]⟩
  | .assert condition =>
    ⟨if s.truth m condition then .finished else .failed, m, [.checked condition m]⟩
  | .perform call =>
    let found := s.evaluate m call
    ⟨.finished, found.memory, found.events⟩
  | .whenever condition body returns =>
    if s.truth m condition then
      (runAll m body).andThen fun m => ⟨if returns then .returned else .finished, m, []⟩
    else ⟨.finished, m, []⟩

def runAll (m : Memory D) : List Stmt → Run D
  | [] => ⟨.finished, m, []⟩
  | statement :: rest => (run m statement).andThen fun m => runAll m rest

end

variable {s} {m m' : Memory D} {events : List (Event D)}

theorem runAll_nil : s.runAll m [] = ⟨.finished, m, []⟩ := by rw [runAll]

theorem runAll_cons (statement : Stmt) (rest : List Stmt) :
    s.runAll m (statement :: rest) = (s.run m statement).andThen fun m => s.runAll m rest := by
  rw [runAll]

theorem runAll_singleton (statement : Stmt) : s.runAll m [statement] = s.run m statement := by
  rw [runAll_cons, Run.andThen]
  split
  · rename_i h
    rw [runAll_nil, List.append_nil, ← h]
  · rfl

theorem runAll_append (first second : List Stmt) :
    s.runAll m (first ++ second) = (s.runAll m first).andThen fun m => s.runAll m second := by
  induction first generalizing m with
  | nil => rw [runAll_nil]; rfl
  | cons statement rest ih =>
    rw [List.cons_append, runAll_cons, runAll_cons]
    rw [Run.andThen_assoc]
    simp only [ih]

/-- A block that finishes is followed by the next one. -/
theorem runAll_append_of_finished {first : List Stmt} (second : List Stmt)
    (h : s.runAll m first = ⟨.finished, m', events⟩) :
    s.runAll m (first ++ second) =
      { s.runAll m' second with events := events ++ (s.runAll m' second).events } := by
  rw [runAll_append, h, Run.andThen]

/-- A block that does not finish is the end. -/
theorem runAll_append_of_ne {first : List Stmt} (second : List Stmt)
    (h : (s.runAll m first).ending ≠ .finished) :
    s.runAll m (first ++ second) = s.runAll m first := by
  rw [runAll_append, Run.andThen]
  split
  · contradiction
  · rfl

/-- A block with one statement for each element: what one statement preserves holds after all. -/
theorem runAll_map {α : Type*} (P : List α → Memory D → Prop) {f : α → Stmt} {xs : List α}
    (start : P [] m)
    (step : ∀ done a m, a ∈ xs → P done m →
      ∃ m', s.run m (f a) = ⟨.finished, m', []⟩ ∧ P (done ++ [a]) m') :
    ∃ m', s.runAll m (xs.map f) = ⟨.finished, m', []⟩ ∧ P xs m' := by
  suffices h : ∀ done, P done m →
      ∃ m', s.runAll m (xs.map f) = ⟨.finished, m', []⟩ ∧ P (done ++ xs) m' from h [] start
  clear start
  induction xs generalizing m with
  | nil => exact fun done hdone => ⟨m, runAll_nil, by rwa [List.append_nil]⟩
  | cons a xs ih =>
    intro done hdone
    obtain ⟨m₁, hrun, hm₁⟩ := step done a m List.mem_cons_self hdone
    obtain ⟨m', hrest, hm'⟩ :=
      ih (fun done b m hb => step done b m (List.mem_cons_of_mem a hb)) (done ++ [a]) hm₁
    refine ⟨m', ?_, ?_⟩
    · rw [List.map_cons, runAll_cons, hrun, Run.andThen, hrest, List.nil_append]
    · rwa [List.append_assoc] at hm'

end Scenario

end ContractTests
