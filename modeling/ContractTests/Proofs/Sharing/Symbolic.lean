import ContractTests.Proofs.Sharing.Rounds
import ContractTests.TestClass.Symbolic

/-! # Sharing in the symbolic form

It does not matter whether the repeated calls of a block are shared before or after the block gets
its symbolic form (`Stmt.shareAll_symbolicAll`): the symbolic form keeps the names that are declared
and the conditions that are asserted, and it leaves the variables for calls alone. So a test class
and its symbolic form check the same (`sharing_commutes`).
-/

set_option autoImplicit false

namespace ContractTests

namespace Stmt

/-! ## The symbolic form of a block -/

theorem symbolicAll_append (body rest : List Stmt) :
    symbolicAll (body ++ rest) = symbolicAll body ++ symbolicAll rest := by
  induction body with
  | nil => rfl
  | cons s body ih => rw [List.cons_append, symbolicAll, symbolicAll, ih, List.cons_append]

mutual

/-- The statements in a symbolic form are the symbolic forms of the statements. -/
theorem nested_symbolic : ∀ s : Stmt, nested (symbolic s) = (nested s).map symbolic
  | .whenever condition body returns => by
    simp only [symbolic, nested, List.map_cons, nestedAll_symbolicAll body]
  | .input .. => by simp only [symbolic, nested, List.map_cons, List.map_nil]
  | .declare .. => by simp only [symbolic, nested, List.map_cons, List.map_nil]
  | .assign .. => by simp only [symbolic, nested, List.map_cons, List.map_nil]
  | .assume _ => by simp only [symbolic, nested, List.map_cons, List.map_nil]
  | .assert _ => by simp only [symbolic, nested, List.map_cons, List.map_nil]
  | .perform _ => by simp only [symbolic, nested, List.map_cons, List.map_nil]

theorem nestedAll_symbolicAll : ∀ body : List Stmt,
    nestedAll (symbolicAll body) = (nestedAll body).map symbolic
  | [] => rfl
  | s :: rest => by
    rw [symbolicAll, nestedAll, nestedAll, nested_symbolic s, nestedAll_symbolicAll rest,
      List.map_append]

end

theorem declared?_symbolic (s : Stmt) : (symbolic s).declared? = s.declared? := by
  cases s <;> simp only [symbolic, declared?]

theorem declared_symbolicAll (body : List Stmt) : declared (symbolicAll body) = declared body := by
  rw [declared, nestedAll_symbolicAll, List.filterMap_map, declared]
  exact List.filterMap_congr fun s _ => declared?_symbolic s

/-- The variables for calls stay as they are. -/
theorem symbolicAll_declarations (rounds : List Expr.Round) :
    symbolicAll (rounds.map Expr.Round.declaration) = rounds.map Expr.Round.declaration := by
  induction rounds with
  | nil => rfl
  | cons r rounds ih =>
    rw [List.map_cons, symbolicAll, ih, Expr.Round.declaration, symbolic]

/-! ## Both orders -/

mutual

theorem share_symbolic : ∀ (s : Stmt) (taken : List String),
    share taken (symbolic s) = (share taken s).map (Prod.map symbolicAll id)
  | .assert condition, taken => by
    rw [symbolic, share]
    cases hshared : condition.share taken with
    | error cause => rfl
    | ok shared =>
      obtain ⟨rounds, -, hdeclarations, -⟩ := Expr.rounds_of_share hshared
      have hkept : symbolicAll (shared.declarations ++ [.assert shared.condition]) =
          shared.declarations ++ [.assert shared.condition] := by
        rw [symbolicAll_append, hdeclarations, symbolicAll_declarations, symbolicAll, symbolicAll,
          symbolic]
      change Except.ok _ = Except.ok (symbolicAll _, _)
      rw [hkept]
      rfl
  | .whenever condition body returns, taken => by
    rw [symbolic, share, share, shareAll_symbolicAll body taken]
    cases shareAll taken body with
    | error cause => rfl
    | ok shared =>
      change Except.ok _ = Except.ok (symbolicAll [.whenever condition shared.1 returns], _)
      rw [symbolicAll, symbolicAll, symbolic]
  | .input .., _ => by simp only [symbolic, share, Except.map, Prod.map, symbolicAll, id]
  | .declare .., _ => by simp only [symbolic, share, Except.map, Prod.map, symbolicAll, id]
  | .assign .., _ => by simp only [symbolic, share, Except.map, Prod.map, symbolicAll, id]
  | .assume _, _ => by simp only [symbolic, share, Except.map, Prod.map, symbolicAll, id]
  | .perform _, _ => by simp only [symbolic, share, Except.map, Prod.map, symbolicAll, id]

/-- Sharing after the symbolic form is the symbolic form after sharing, with the same names taken and
the same error. -/
theorem shareAll_symbolicAll : ∀ (body : List Stmt) (taken : List String),
    shareAll taken (symbolicAll body) = (shareAll taken body).map (Prod.map symbolicAll id)
  | [], _ => rfl
  | s :: rest, taken => by
    rw [symbolicAll, shareAll, shareAll, share_symbolic s taken]
    cases share taken s with
    | error cause => rfl
    | ok shared =>
      change (shareAll shared.2 (symbolicAll rest) >>= _) = (shareAll shared.2 rest >>= _).map _
      rw [shareAll_symbolicAll rest shared.2]
      cases shareAll shared.2 rest with
      | error cause => rfl
      | ok sharedRest =>
        exact congrArg (fun all => Except.ok (all, sharedRest.2))
          (symbolicAll_append shared.1 sharedRest.1).symm

end

theorem shareCalls_symbolicAll (body : List Stmt) :
    shareCalls (symbolicAll body) = (shareCalls body).map symbolicAll := by
  unfold shareCalls
  rw [declared_symbolicAll, shareAll_symbolicAll]
  cases shareAll (declared body) body <;> rfl

/-! ## What is checked -/

/-- The variable that a statement declares, with its first value, unless its name is taken. -/
def added? (taken : List String) : Stmt → Option (String × Expr)
  | .declare _ name init => if taken.contains name then none else some (name, init)
  | _ => none

def asserted? : Stmt → Option Expr
  | .assert condition => some condition
  | _ => none

/-- What a block checks with its repeated calls shared: the calls that get a variable, with its name,
and the conditions that are asserted, in source order and at every depth. -/
structure Checks where
  calls : List (String × Expr)
  conditions : List Expr

def checks (body : List Stmt) : Except Unsupported Checks :=
  (shareCalls body).map fun shared =>
    ⟨(nestedAll shared).filterMap (added? (declared body)), (nestedAll shared).filterMap asserted?⟩

/-- Sharing adds no input. -/
theorem input_mem_of_shareCalls {body shared : List Stmt} (h : shareCalls body = .ok shared) :
    Everywhere (fun s => ∀ type name, s = .input type name → s ∈ nestedAll body) shared := by
  refine (rewrites_of_shareCalls h).everywhere ?assert (fun _ _ _ _ _ => nofun)
    fun s hs _ _ _ => hs
  case assert =>
    rintro condition declarations condition' ⟨taken, taken', hshared⟩ -
    obtain ⟨rounds, -, rfl, -⟩ := Expr.rounds_of_share hshared
    refine ⟨(everywhere_eq _).2 (List.forall_mem_map.2 fun r _ => ?_), nofun⟩
    simp [Throughout, Expr.Round.declaration, nested]

theorem added?_symbolic {taken : List String} {s : Stmt}
    (h : ∀ type name, s = .input type name → name ∈ taken) :
    added? taken (symbolic s) = added? taken s := by
  cases s with
  | input type name =>
    rw [symbolic, added?, if_pos (List.contains_iff_mem.2 (h type name rfl))]
    rfl
  | _ => simp only [symbolic, added?]

theorem asserted?_symbolic (s : Stmt) : asserted? (symbolic s) = asserted? s := by
  cases s <;> simp only [symbolic, asserted?]

theorem checks_symbolicAll (body : List Stmt) : checks (symbolicAll body) = checks body := by
  rw [checks, checks, shareCalls_symbolicAll, declared_symbolicAll]
  cases h : shareCalls body with
  | error cause => rfl
  | ok shared =>
    have hcalls : (nestedAll (symbolicAll shared)).filterMap (added? (declared body)) =
        (nestedAll shared).filterMap (added? (declared body)) := by
      rw [nestedAll_symbolicAll, List.filterMap_map]
      apply List.filterMap_congr
      intro s hs
      refine added?_symbolic fun type name hinput => ?_
      have hmem := input_mem_of_shareCalls h s hs type name hinput
      exact List.mem_filterMap.2 ⟨s, hmem, by rw [hinput, declared?]⟩
    have hconditions : (nestedAll (symbolicAll shared)).filterMap asserted? =
        (nestedAll shared).filterMap asserted? := by
      rw [nestedAll_symbolicAll, List.filterMap_map]
      exact List.filterMap_congr fun s _ => asserted?_symbolic s
    simp only [Except.map, hcalls, hconditions]

end Stmt

/-- Sharing the calls of a symbolic form gives the symbolic form of the shared block, or the error of
the block. So a test class and its symbolic form declare the same variables for the same calls and
assert the same conditions, method by method. -/
theorem sharing_commutes (body : List Stmt) (c : TestClass) :
    Stmt.shareCalls (Stmt.symbolicAll body) = (Stmt.shareCalls body).map Stmt.symbolicAll ∧
      Stmt.checks (Stmt.symbolicAll body) = Stmt.checks body ∧
      (c.symbolic.methods.map fun m => (m.name, Stmt.checks m.body)) =
        c.methods.map fun m => (m.name, Stmt.checks m.body) := by
  refine ⟨Stmt.shareCalls_symbolicAll body, Stmt.checks_symbolicAll body, ?_⟩
  rw [TestClass.symbolic, List.map_map]
  refine List.map_congr_left fun m _ => ?_
  rw [Function.comp_apply, Stmt.checks_symbolicAll]

end ContractTests
