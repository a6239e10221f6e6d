import ContractTests.Proofs.Contract.NullSafe
import ContractTests.Proofs.Java.Settled
import ContractTests.TestClass.Symbolic

/-! # What a test class is written with

A vocabulary says which names and types may be written and which nodes expressions may have. What
sharing, the symbolic form and `TestClass.build` add to the conditions of the contracts is of every
lawful vocabulary that has the contracts' names (`Vocabulary.Lawful`), so that a property of what is
built is shown of the conditions alone.
-/

set_option autoImplicit false

namespace ContractTests

open Java

/-- The names and types that may be written, and the nodes that expressions may have. -/
structure Vocabulary where
  name : String → Prop
  node : Expr → Prop

namespace Expr

/-- Whether the node is of a kind that is added to the conditions of a contract. -/
def isAdded : Expr → Bool
  | .postState _ | .self | .call .. | .set _ | .map _ | .tuple _ => false
  | _ => true

/-- The name, the type or the string that is written at a node. -/
def spelled? : Expr → Option String
  | .literal (.string s) => some s
  | e => e.writtenName?

end Expr

namespace Stmt

/-- The names and types that are written in a statement itself. -/
def writtenNames : Stmt → List String
  | .input type name => [type, name]
  | .declare type name _ => [type, name]
  | .assign target _ => [target]
  | _ => []

end Stmt

namespace Vocabulary

/-- Bare names are in the vocabulary, and so is what is made of its names. A node may be added when
what is written at it is in the vocabulary. -/
structure Lawful (v : Vocabulary) : Prop where
  bare : ∀ {s : String}, IsBare s → v.name s
  append : ∀ {s t : String}, v.name s → v.name t → v.name (s ++ t)
  trimmed : ∀ {type : String}, v.name type → v.name (Text.trimmed type)
  base : ∀ {type : String}, v.name type → v.name (JavaType.base type)
  implementation : ∀ {type : String}, v.name type → v.name (JavaType.implementation type)
  ignoresChildren : Expr.IgnoresChildren v.node
  added : ∀ {e : Expr}, e.isAdded = true → (∀ s ∈ e.spelled?, v.name s) → v.node e

variable {v : Vocabulary}

/-! ## Expressions -/

/-- All nodes of the expression are of the vocabulary. -/
def OfExpr (v : Vocabulary) (e : Expr) : Prop := Expr.Everywhere v.node e

namespace Lawful

variable {written type : String} {e left right : Expr} {es : List Expr}

theorem ofExpr (hv : v.Lawful) (hadded : e.isAdded = true) (hspelled : ∀ s ∈ e.spelled?, v.name s)
    (hchildren : ∀ c ∈ e.children, v.OfExpr c) : v.OfExpr e :=
  Expr.everywhere_iff.2 ⟨hv.added hadded hspelled, hchildren⟩

theorem var (hv : v.Lawful) (h : v.name written) : v.OfExpr (.var written) :=
  hv.ofExpr rfl (by rintro _ ⟨⟩; exact h) (List.forall_mem_nil _)

theorem string (hv : v.Lawful) (h : v.name written) : v.OfExpr (.string written) :=
  hv.ofExpr rfl (by rintro _ ⟨⟩; exact h) (List.forall_mem_nil _)

theorem null (hv : v.Lawful) : v.OfExpr .null := hv.ofExpr rfl nofun (List.forall_mem_nil _)

theorem bool (hv : v.Lawful) (b : Bool) : v.OfExpr (.bool b) :=
  hv.ofExpr rfl nofun (List.forall_mem_nil _)

theorem int (hv : v.Lawful) (n : Int64) : v.OfExpr (.int n) :=
  hv.ofExpr rfl nofun (List.forall_mem_nil _)

theorem float (hv : v.Lawful) (x : Double) : v.OfExpr (.literal (.float x)) :=
  hv.ofExpr rfl nofun (List.forall_mem_nil _)

theorem binary (hv : v.Lawful) (op : BinaryOp) (hleft : v.OfExpr left) (hright : v.OfExpr right) :
    v.OfExpr (.binary op left right) :=
  hv.ofExpr rfl nofun (by simp [Expr.children, hleft, hright])

theorem field (hv : v.Lawful) (he : v.OfExpr e) (h : v.name written) :
    v.OfExpr (.field e written) :=
  hv.ofExpr rfl (by rintro _ ⟨⟩; exact h) (List.forall_mem_singleton.2 he)

theorem index (hv : v.Lawful) (hleft : v.OfExpr left) (hright : v.OfExpr right) :
    v.OfExpr (.index left right) :=
  hv.ofExpr rfl nofun (by simp [Expr.children, hleft, hright])

theorem send (hv : v.Lawful) (he : v.OfExpr e) (h : v.name written) (hes : ∀ a ∈ es, v.OfExpr a) :
    v.OfExpr (.send e written es) :=
  hv.ofExpr rfl (by rintro _ ⟨⟩; exact h) (List.forall_mem_cons.2 ⟨he, hes⟩)

theorem create (hv : v.Lawful) (h : v.name type) (hes : ∀ a ∈ es, v.OfExpr a) :
    v.OfExpr (.create type es) :=
  hv.ofExpr rfl (by rintro _ ⟨⟩; exact h) hes

theorem conditional (hv : v.Lawful) (he : v.OfExpr e) (hleft : v.OfExpr left)
    (hright : v.OfExpr right) : v.OfExpr (.conditional e left right) :=
  hv.ofExpr rfl nofun (by simp [Expr.children, he, hleft, hright])

theorem cast (hv : v.Lawful) (h : v.name type) (he : v.OfExpr e) : v.OfExpr (.cast type e) :=
  hv.ofExpr rfl (by rintro _ ⟨⟩; exact h) (List.forall_mem_singleton.2 he)

/-- What operands are joined to. -/
theorem joined (hv : v.Lawful) {op : BinaryOp} (h : Expr.joined? op es = some e)
    (hes : ∀ x ∈ es, v.OfExpr x) : v.OfExpr e := by
  cases es with
  | nil => cases h
  | cons first rest =>
    obtain ⟨hfirst, hrest⟩ := List.forall_mem_cons.1 hes
    cases h
    exact List.foldlRecOn rest (Expr.binary op) hfirst fun x hx y hy => hv.binary op hx (hrest y hy)

/-- Comparing by value adds nodes of the vocabulary. -/
theorem nullSafe (hv : v.Lawful) (he : v.OfExpr e) (isNullable : String → Bool) :
    v.OfExpr (e.nullSafe isNullable) := by
  have hequals : v.name "equals" := hv.bare (by decide)
  exact Expr.Everywhere.nullSafe hv.ignoresChildren (fun _ _ _ => hv.added rfl nofun)
    (fun _ => hv.added rfl nofun) (hv.added rfl nofun)
    (fun _ _ => hv.added rfl (by rintro _ ⟨⟩; exact hequals)) he isNullable

end Lawful

/-! ## Blocks -/

/-- What is written in the statement itself is of the vocabulary. -/
structure OfStep (v : Vocabulary) (s : Stmt) : Prop where
  names : ∀ written ∈ s.writtenNames, v.name written
  expression : ∀ e ∈ s.expression?, v.OfExpr e

/-- What is written in the statement and in all statements in it is of the vocabulary. -/
def OfStmt (v : Vocabulary) (s : Stmt) : Prop := s.Throughout v.OfStep

/-- What is written in the statements, at every depth, is of the vocabulary. -/
def OfBlock (v : Vocabulary) (body : List Stmt) : Prop := Stmt.Everywhere v.OfStep body

variable {written type : String} {e : Expr} {body rest : List Stmt}

theorem ofStep_iff {s : Stmt} : v.OfStep s ↔
    (∀ written ∈ s.writtenNames, v.name written) ∧ ∀ e ∈ s.expression?, v.OfExpr e :=
  ⟨fun h => ⟨h.names, h.expression⟩, fun h => ⟨h.1, h.2⟩⟩

@[simp] theorem ofBlock_nil : v.OfBlock [] := Stmt.everywhere_nil

@[simp] theorem ofBlock_cons {s : Stmt} : v.OfBlock (s :: rest) ↔ v.OfStmt s ∧ v.OfBlock rest :=
  Stmt.everywhere_cons

@[simp] theorem ofBlock_append : v.OfBlock (body ++ rest) ↔ v.OfBlock body ∧ v.OfBlock rest :=
  Stmt.everywhere_append

@[simp] theorem ofBlock_map {α : Type} {f : α → Stmt} {xs : List α} :
    v.OfBlock (xs.map f) ↔ ∀ x ∈ xs, v.OfStmt (f x) := by
  rw [OfBlock, Stmt.everywhere_eq, List.forall_mem_map]
  rfl

@[simp] theorem ofStmt_input : v.OfStmt (.input type written) ↔ v.name type ∧ v.name written := by
  simp [OfStmt, Stmt.Throughout, Stmt.nested, ofStep_iff, Stmt.writtenNames, Stmt.expression?]

@[simp] theorem ofStmt_declare :
    v.OfStmt (.declare type written e) ↔ (v.name type ∧ v.name written) ∧ v.OfExpr e := by
  simp [OfStmt, Stmt.Throughout, Stmt.nested, ofStep_iff, Stmt.writtenNames, Stmt.expression?]

@[simp] theorem ofStmt_assign : v.OfStmt (.assign written e) ↔ v.name written ∧ v.OfExpr e := by
  simp [OfStmt, Stmt.Throughout, Stmt.nested, ofStep_iff, Stmt.writtenNames, Stmt.expression?]

@[simp] theorem ofStmt_assume : v.OfStmt (.assume e) ↔ v.OfExpr e := by
  simp [OfStmt, Stmt.Throughout, Stmt.nested, ofStep_iff, Stmt.writtenNames, Stmt.expression?]

@[simp] theorem ofStmt_assert : v.OfStmt (.assert e) ↔ v.OfExpr e := by
  simp [OfStmt, Stmt.Throughout, Stmt.nested, ofStep_iff, Stmt.writtenNames, Stmt.expression?]

@[simp] theorem ofStmt_perform : v.OfStmt (.perform e) ↔ v.OfExpr e := by
  simp [OfStmt, Stmt.Throughout, Stmt.nested, ofStep_iff, Stmt.writtenNames, Stmt.expression?]

@[simp] theorem ofStmt_whenever {returns : Bool} :
    v.OfStmt (.whenever e body returns) ↔ v.OfExpr e ∧ v.OfBlock body := by
  rw [OfStmt, Stmt.throughout_whenever, ofStep_iff]
  simp [Stmt.writtenNames, Stmt.expression?, OfBlock]

/-! ## The symbolic form -/

namespace Lawful

theorem debugCall (hv : v.Lawful) {function : String} {args : List Expr} (h : v.name function)
    (hargs : ∀ a ∈ args, v.OfExpr a) : v.OfExpr (debugCall function args) :=
  hv.send (hv.var (hv.bare (by decide))) h hargs

theorem symbolicValue (hv : v.Lawful) (htype : v.name type) (hwritten : v.name written) :
    v.OfExpr (symbolicValue type written) := by
  have hlabel : ∀ a ∈ [Expr.string written], v.OfExpr a :=
    List.forall_mem_singleton.2 (hv.string hwritten)
  have hseed : v.OfExpr (symbolicSeed type) := by
    unfold symbolicSeed
    split
    · exact hv.create (hv.append (hv.implementation (hv.base htype)) (hv.bare (by decide)))
        (List.forall_mem_nil _)
    · exact hv.null
    · exact hv.null
  have hfunction {function : String} (h : symbolicFunction? (Text.trimmed type) = some function) :
      IsBare function := by
    unfold symbolicFunction? at h
    split at h <;> cases h <;> decide
  simp only [ContractTests.symbolicValue]
  split
  · rename_i function hfound
    exact hv.debugCall (hv.bare (hfunction hfound)) hlabel
  · split
    · exact hv.cast (hv.bare (by decide)) (hv.debugCall (hv.bare (by decide)) hlabel)
    · split
      · exact hv.binary _ (hv.debugCall (hv.bare (by decide)) hlabel) (hv.int 0)
      · exact hv.cast (hv.trimmed htype) (hv.debugCall (hv.bare (by decide))
          (List.forall_mem_cons.2 ⟨hv.string hwritten, List.forall_mem_singleton.2 hseed⟩))

mutual

theorem symbolic (hv : v.Lawful) : ∀ {s : Stmt}, v.OfStmt s → v.OfStmt s.symbolic
  | .input type written, h => by
    obtain ⟨htype, hwritten⟩ := ofStmt_input.1 h
    exact ofStmt_declare.2 ⟨⟨htype, hwritten⟩, hv.symbolicValue htype hwritten⟩
  | .assume condition, h =>
    ofStmt_perform.2 (hv.debugCall (hv.bare (by decide))
      (List.forall_mem_singleton.2 (ofStmt_assume.1 h)))
  | .whenever condition body returns, h => by
    obtain ⟨hcondition, hbody⟩ := ofStmt_whenever.1 h
    rw [Stmt.symbolic]
    exact ofStmt_whenever.2 ⟨hcondition, hv.symbolicAll hbody⟩
  | .declare .., h => by rwa [Stmt.symbolic]
  | .assign .., h => by rwa [Stmt.symbolic]
  | .assert _, h => by rwa [Stmt.symbolic]
  | .perform _, h => by rwa [Stmt.symbolic]

/-- The symbolic form of a block adds nodes of the vocabulary. -/
theorem symbolicAll (hv : v.Lawful) : ∀ {body : List Stmt}, v.OfBlock body →
    v.OfBlock (Stmt.symbolicAll body)
  | [], _ => ofBlock_nil
  | _ :: _, h => by
    obtain ⟨hs, hrest⟩ := ofBlock_cons.1 h
    exact ofBlock_cons.2 ⟨hv.symbolic hs, hv.symbolicAll hrest⟩

end

end Lawful

end Vocabulary

end ContractTests
