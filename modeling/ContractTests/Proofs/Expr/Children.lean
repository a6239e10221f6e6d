import ContractTests.Contract.Assertion
import ContractTests.Proofs.Expr.Traversal

/-! # Nodes and their children

A node is its data, which is all that it holds besides its children (`Expr.Data`), and the list of
its children (`Expr.eq_iff_data_children`). `Expr.children` and `Expr.mapChildrenM` agree on that
list: mapping fails with the cause of the first child for which `f` fails, and else gives the node
with the same data around the images, in the same order (`Expr.mapChildrenM_agrees`). Mapping stops
at the first failure, so that two mappings one after the other and one mapping with both functions
may fail with different causes (`Expr.mapChildrenM_bind_ne`).
-/

set_option autoImplicit false

namespace ContractTests

/-- Two traversals one after the other succeed when one traversal with both functions does. -/
theorem mapM_bind_eq_ok_iff {ε α β γ : Type} {f : α → Except ε β} {g : β → Except ε γ}
    {xs : List α} {zs : List γ} :
    (xs.mapM f >>= fun ys => ys.mapM g) = .ok zs ↔ xs.mapM (fun x => f x >>= g) = .ok zs := by
  simp only [bind_eq_ok_iff, mapM_eq_ok_iff]
  constructor
  · rintro ⟨ys, hys, hzs⟩
    induction hys generalizing zs with
    | nil =>
      cases hzs
      exact .nil
    | cons hy _ ih =>
      cases hzs with
      | cons hz hzs => exact .cons ⟨_, hy, hz⟩ (ih hzs)
  · intro h
    induction h with
    | nil => exact ⟨[], .nil, .nil⟩
    | cons hx _ ih =>
      obtain ⟨y, hy, hz⟩ := hx
      obtain ⟨ys, hys, hzs⟩ := ih
      exact ⟨y :: ys, .cons hy hys, .cons hz hzs⟩

/-- A traversal fails when it does so for one of the elements. -/
theorem exists_mapM_eq_error_iff {ε α β : Type} {f : α → Except ε β} {xs : List α} :
    (∃ cause, xs.mapM f = .error cause) ↔ ∃ x ∈ xs, ∃ cause, f x = .error cause := by
  induction xs with
  | nil => simp [pure, Except.pure]
  | cons x xs ih =>
    rw [List.mapM_cons, List.exists_mem_cons_iff, ← ih]
    cases f x <;> cases xs.mapM f <;> simp [bind, Except.bind, pure, Except.pure]

/-- Two traversals one after the other are one traversal with both functions, unless the second
function fails for an element and the first one for a later element. -/
theorem mapM_bind_eq_or {ε α β γ : Type} (f : α → Except ε β) (g : β → Except ε γ) (xs : List α) :
    (xs.mapM f >>= fun ys => ys.mapM g) = xs.mapM (fun x => f x >>= g) ∨
      ∃ x y z, [x, z].Sublist xs ∧ f x = .ok y ∧ (∃ cause, g y = .error cause) ∧
        ∃ cause, f z = .error cause := by
  induction xs with
  | nil => exact .inl rfl
  | cons x xs ih =>
    simp only [List.mapM_cons]
    cases hf : f x with
    | error cause => exact .inl rfl
    | ok y =>
      cases hg : g y with
      | error cause =>
        cases hxs : xs.mapM f with
        | error cause' =>
          obtain ⟨z, hz, hfails⟩ := exists_mapM_eq_error_iff.1 ⟨cause', hxs⟩
          exact .inr ⟨x, y, z, (List.singleton_sublist.2 hz).cons_cons x, hf, ⟨cause, hg⟩, hfails⟩
        | ok ys =>
          left
          show (y :: ys).mapM g = (g y >>= _)
          rw [List.mapM_cons, hg]
          rfl
      | ok z =>
        rcases ih with heq | ⟨x', y', z', hsub, hfails⟩
        · left
          rw [← heq]
          cases xs.mapM f with
          | error cause =>
            show Except.error cause = (g y >>= _)
            rw [hg]
            rfl
          | ok ys =>
            show (y :: ys).mapM g = (g y >>= _)
            rw [List.mapM_cons]
            rfl
        · exact .inr ⟨x', y', z', hsub.cons x, hfails⟩

namespace Expr

/-! ## Data -/

/-- What a node holds besides its children. A call without a receiver and a call on one differ, as
do the forms of collection literals. -/
inductive Data where
  | literal (value : Literal)
  | var (name : String)
  | postState (name : String)
  | binary (op : BinaryOp)
  | unary (op : UnaryOp)
  | field (name : String)
  | index
  | call (name : String)
  | send (name : String)
  | create (type : String)
  | set
  | map
  | tuple
  | conditional
  | cast (type : String)
  | self
deriving DecidableEq

def data : Expr → Data
  | .literal value => .literal value
  | .var name => .var name
  | .postState name => .postState name
  | .binary op _ _ => .binary op
  | .unary op _ => .unary op
  | .field _ name => .field name
  | .index _ _ => .index
  | .call name _ => .call name
  | .send _ name _ => .send name
  | .create type _ => .create type
  | .set _ => .set
  | .map _ => .map
  | .tuple _ => .tuple
  | .conditional _ _ _ => .conditional
  | .cast type _ => .cast type
  | .self => .self

variable {R : Expr → Expr → Prop} {e e' : Expr}

theorem Parallel.data_eq (h : Parallel R e e') : e'.data = e.data := by cases h <;> rfl

/-- The children of a map literal are its keys and values in turn. -/
theorem forall₂_entries {es es' : List (Expr × Expr)}
    (h : List.Forall₂ R (Expr.map es).children (Expr.map es').children) :
    List.Forall₂ (fun p q => R p.1 q.1 ∧ R p.2 q.2) es es' := by
  induction es generalizing es' with
  | nil =>
    cases es' with
    | nil => exact .nil
    | cons q es' => cases h
  | cons p es ih =>
    cases es' with
    | nil => cases h
    | cons q es' =>
      obtain ⟨hkey, hrest⟩ := List.forall₂_cons.1 h
      obtain ⟨hvalue, hrest⟩ := List.forall₂_cons.1 hrest
      exact .cons ⟨hkey, hvalue⟩ (ih hrest)

/-- Nodes are parallel when they have the same data and their children are related one by one. -/
theorem parallel_iff :
    Parallel R e e' ↔ e'.data = e.data ∧ List.Forall₂ R e.children e'.children := by
  constructor
  · exact fun h => ⟨h.data_eq, h.children⟩
  · rintro ⟨hdata, hchildren⟩
    cases e <;> cases e' <;> cases hdata
    case map.map.refl es es' => exact .map (forall₂_entries hchildren)
    all_goals
      simp only [children, List.forall₂_cons, List.forall₂_nil_left_iff, and_true] at hchildren
      grind [Parallel]

/-! ## Mapping -/

theorem mapChildren_id (e : Expr) : e.mapChildren id = e := by
  cases e <;> simp [mapChildren, mapChildrenM]

theorem eq_iff_data_children : e' = e ↔ e'.data = e.data ∧ e'.children = e.children := by
  constructor
  · rintro rfl
    exact ⟨rfl, rfl⟩
  · rintro ⟨hdata, hchildren⟩
    have hparallel : Parallel (fun c c' => (pure (id c) : Except Empty Expr) = .ok c') e e' := by
      rw [parallel_iff, hchildren]
      exact ⟨hdata, List.forall₂_same.2 fun _ _ => rfl⟩
    have hok := mapChildrenM_eq_ok_iff.2 hparallel
    rw [mapChildrenM_pure, mapChildren_id] at hok
    exact (Except.ok.inj hok).symm

theorem data_mapChildren (f : Expr → Expr) (e : Expr) : (e.mapChildren f).data = e.data :=
  (mapChildren_parallel f e).data_eq

theorem mapChildren_mapChildren (f g : Expr → Expr) (e : Expr) :
    (e.mapChildren f).mapChildren g = e.mapChildren (g ∘ f) := by
  rw [eq_iff_data_children]
  simp only [data_mapChildren, children_mapChildren, List.map_map, and_self]

/-- Mapping gives the node with the same data around the images of the children. -/
theorem mapChildrenM_eq_ok_iff_data {ε : Type} {f : Expr → Except ε Expr} :
    e.mapChildrenM f = .ok e' ↔ e'.data = e.data ∧ e.children.mapM f = .ok e'.children := by
  rw [mapChildrenM_eq_ok_iff, parallel_iff, mapM_eq_ok_iff]

/-- The images of the children are the children of a node with the same data. -/
theorem exists_node_of_mapM {ε : Type} {f : Expr → Except ε Expr} {cs : List Expr}
    (h : e.children.mapM f = .ok cs) : ∃ node : Expr, node.data = e.data ∧ node.children = cs := by
  rw [← children_mapChildrenM] at h
  cases hmap : e.mapChildrenM f with
  | error cause =>
    rw [hmap] at h
    cases h
  | ok node =>
    rw [hmap] at h
    exact ⟨node, (mapChildrenM_eq_ok_iff_data.1 hmap).1, Except.ok.inj h⟩

theorem mapChildrenM_bind_eq_ok_iff {ε : Type} {f g : Expr → Except ε Expr} :
    (e.mapChildrenM f >>= mapChildrenM g) = .ok e' ↔
      e.mapChildrenM (fun c => f c >>= g) = .ok e' := by
  rw [mapChildrenM_eq_ok_iff_data, ← mapM_bind_eq_ok_iff]
  simp only [bind_eq_ok_iff, mapChildrenM_eq_ok_iff_data]
  constructor
  · rintro ⟨middle, ⟨hdata, hf⟩, hdata', hg⟩
    exact ⟨hdata'.trans hdata, middle.children, hf, hg⟩
  · rintro ⟨hdata, cs, hf, hg⟩
    obtain ⟨middle, hmiddle, rfl⟩ := exists_node_of_mapM hf
    exact ⟨middle, ⟨hmiddle, hf⟩, hdata.trans hmiddle.symm, hg⟩

/-- Mappings one after the other go over the children as traversals do. -/
theorem children_mapChildrenM_bind {m : Type → Type} [Monad m] [LawfulMonad m]
    (f g : Expr → m Expr) (e : Expr) :
    children <$> (e.mapChildrenM f >>= mapChildrenM g) =
      e.children.mapM f >>= fun cs => cs.mapM g := by
  rw [map_bind, ← children_mapChildrenM f e, bind_map_left]
  simp only [children_mapChildrenM]

/-- Two mappings one after the other are one mapping with both functions, unless the second function
fails for the image of a child and the first one for a later child. -/
theorem mapChildrenM_bind_eq_or {ε : Type} (e : Expr) (f g : Expr → Except ε Expr) :
    (e.mapChildrenM f >>= mapChildrenM g) = e.mapChildrenM (fun c => f c >>= g) ∨
      ∃ c c' d, [c, d].Sublist e.children ∧ f c = .ok c' ∧ (∃ cause, g c' = .error cause) ∧
        ∃ cause, f d = .error cause := by
  refine (mapM_bind_eq_or f g e.children).imp_left fun heq => ?_
  rw [← children_mapChildrenM_bind, ← children_mapChildrenM] at heq
  have hok (e' : Expr) : (e.mapChildrenM f >>= mapChildrenM g) = .ok e' ↔
      e.mapChildrenM (fun c => f c >>= g) = .ok e' := mapChildrenM_bind_eq_ok_iff
  generalize (e.mapChildrenM f >>= mapChildrenM g) = x at heq hok ⊢
  generalize e.mapChildrenM (fun c => f c >>= g) = y at heq hok ⊢
  cases x with
  | ok e' => exact ((hok e').1 rfl).symm
  | error cause =>
    cases y with
    | ok e' => exact (hok e').2 rfl
    | error cause' => exact congrArg Except.error (Except.error.inj heq)

/-- Mapping over the children of a node fails exactly when the function fails for one of them, and
with the cause of the first such child. It succeeds with the node that has the same data and the
images of the children in their order. Mapping with the identity gives the node back. Mapping with
two functions one after the other succeeds exactly when mapping with both at once does, with the
same node; the results are equal altogether unless the second function fails for the image of a
child and the first one for a later child, where both fail. They are equal for functions that do not
fail. -/
theorem mapChildrenM_agrees {ε : Type} (e : Expr) (f g : Expr → Except ε Expr) :
    ((∃ cause, e.mapChildrenM f = .error cause) ↔ ∃ c ∈ e.children, ∃ cause, f c = .error cause) ∧
    (∀ cause, e.mapChildrenM f = .error cause ↔ ∃ before c after,
      e.children = before ++ c :: after ∧ (∀ b ∈ before, ∃ b', f b = .ok b') ∧
        f c = .error cause) ∧
    (∀ e', e.mapChildrenM f = .ok e' ↔
      e'.data = e.data ∧ List.Forall₂ (fun c c' => f c = .ok c') e.children e'.children) ∧
    e.mapChildrenM (fun c => (.ok c : Except ε Expr)) = .ok e ∧
    (∀ e', (e.mapChildrenM f >>= mapChildrenM g) = .ok e' ↔
      e.mapChildrenM (fun c => f c >>= g) = .ok e') ∧
    ((e.mapChildrenM f >>= mapChildrenM g) = e.mapChildrenM (fun c => f c >>= g) ∨
      ∃ c c' d, [c, d].Sublist e.children ∧ f c = .ok c' ∧ (∃ cause, g c' = .error cause) ∧
        ∃ cause, f d = .error cause) ∧
    (∀ h : Expr → Expr, (e.mapChildren h).data = e.data ∧
      (e.mapChildren h).children = e.children.map h) ∧
    e.mapChildren id = e ∧
    ∀ h k : Expr → Expr, (e.mapChildren h).mapChildren k = e.mapChildren (k ∘ h) := by
  refine ⟨?fails, fun cause => mapChildrenM_eq_error_iff, fun e' => ?succeeds, ?identity,
    fun e' => mapChildrenM_bind_eq_ok_iff, mapChildrenM_bind_eq_or e f g,
    fun h => ⟨data_mapChildren h e, children_mapChildren h e⟩, mapChildren_id e,
    fun h k => mapChildren_mapChildren h k e⟩
  case fails =>
    rw [← exists_mapM_eq_error_iff, ← children_mapChildrenM]
    cases e.mapChildrenM f <;> simp [Functor.map, Except.map]
  case succeeds => rw [mapChildrenM_eq_ok_iff, parallel_iff]
  case identity =>
    have hpure := mapChildrenM_pure (m := Except ε) id e
    rwa [mapChildren_id] at hpure

/-- The check of a precondition for a call of a wrapper. -/
def withoutWrapper (e : Expr) : Except Unsupported Expr :=
  if e.isWrapper then .error ⟨e.kind, .precondition⟩ else .ok e

/-- The check of a precondition for a variable under post-state. -/
def withoutPostState : Expr → Except Unsupported Expr
  | .postState _ => .error ⟨.postState, .precondition⟩
  | e => .ok e

/-- The sum of a variable under post-state and a call of a wrapper. -/
def sumOfStates : Expr := .binary .plus (.postState "x") (.call "'" [.var "y"])

/-- One after the other, the two checks find the call of the wrapper. Both at once find the
variable, which stands before it; so does the assumption for a precondition. -/
theorem mapChildrenM_bind_ne :
    (sumOfStates.mapChildrenM withoutWrapper >>= mapChildrenM withoutPostState) =
      .error ⟨.call, .precondition⟩ ∧
    sumOfStates.mapChildrenM (fun c => withoutWrapper c >>= withoutPostState) =
      .error ⟨.postState, .precondition⟩ ∧
    sumOfStates.asAssumption [] =
      sumOfStates.mapChildrenM (fun c => withoutWrapper c >>= withoutPostState) :=
  ⟨rfl, rfl, rfl⟩

end Expr

end ContractTests
