import ContractTests.Proofs.Sharing.Fixpoint
import ContractTests.Proofs.TestRun.Names
import ContractTests.Proofs.Text.Search

/-! # The search for variables

A test method looks for the variable of its result, and sharing for a variable for each call that it
declares. Both searches end at the first name that is free (`Contract.finds_resultName`,
`Expr.finds_resultVariable`). The variables of a block, at any depth, are those for one call after
another, each of which is taken for those after it (`Stmt.exists_takesInTurn`).
-/

set_option autoImplicit false

namespace ContractTests

/-- The variable of a result is the first name from `result` on that no parameter has. -/
theorem Contract.finds_resultName (c : Contract) :
    Text.Finds "result" 1 c.signature.parameterNames c.resultName := by
  have hnames : (fun n => if n = 0 then "result" else "result_" ++ natText n) =
      Text.numbered "result" 1 := by
    funext n
    cases n with
    | zero => rfl
    | succ n =>
      rw [if_neg n.succ_ne_zero, Text.numbered, Nat.add_comm 1]
      rfl
  rw [resultName, hnames]
  exact Text.finds_fresh (hnames ▸ resultNames_injective) _

namespace Expr

/-- The variable of a call is the first name from the call's own on that is not taken. -/
theorem finds_resultVariable (taken : List String) (e : Expr) :
    Text.Finds (e.callName?.getD "call" ++ "_result") 2 taken (resultVariable taken e) := by
  have hnames (base : String) :
      (fun n => if n = 0 then base else base ++ "_" ++ natText (n + 1)) =
        Text.numbered base 2 := by
    funext n
    cases n with
    | zero => rfl
    | succ n => rw [if_neg n.succ_ne_zero, Text.numbered, Nat.add_comm 2]
  rw [resultVariable, hnames]
  exact Text.finds_fresh (hnames _ ▸ triedNames_injective _) _

/-! ## One variable after another -/

/-- The declarations of the calls under their variables. -/
def resultDeclarations (taken : List String) (calls : List Expr) : List Stmt :=
  List.zipWith (.declare "var") (resultVariables taken calls) calls

theorem length_resultVariables (taken : List String) (calls : List Expr) :
    (resultVariables taken calls).length = calls.length := by
  induction calls generalizing taken with
  | nil => rfl
  | cons e rest ih => rw [resultVariables, List.length_cons, ih, List.length_cons]

theorem resultVariables_append (taken : List String) (calls more : List Expr) :
    resultVariables taken (calls ++ more) = resultVariables taken calls ++
      resultVariables (taken ++ resultVariables taken calls) more := by
  induction calls generalizing taken with
  | nil => rw [List.nil_append, resultVariables, List.nil_append, List.append_nil]
  | cons e rest ih =>
    rw [List.cons_append, resultVariables, resultVariables, ih, List.cons_append,
      List.append_assoc, List.singleton_append]

theorem resultDeclarations_append (taken : List String) (calls more : List Expr) :
    resultDeclarations taken (calls ++ more) = resultDeclarations taken calls ++
      resultDeclarations (taken ++ resultVariables taken calls) more := by
  rw [resultDeclarations, resultVariables_append,
    List.zipWith_append (length_resultVariables taken calls)]
  rfl

theorem Rounds.declarations_eq {condition result : Expr} {taken : List String}
    {rounds : List Round} (h : Rounds condition taken rounds result) :
    rounds.map Round.declaration = resultDeclarations taken (rounds.map Round.call) := by
  induction h with
  | done => rfl
  | round _ _ ih =>
    rw [List.map_cons, List.map_cons, ih]
    rfl

end Expr

namespace Stmt

open ContractTests.Expr (resultVariables resultDeclarations)

variable {taken taken' : List String} {calls more : List Expr} {body shared rest' : List Stmt}

/-- The names taken in the end are those from the start and a variable for each of the calls, found
one after another. The block declares the calls under them, in their order. -/
structure TakesInTurn (taken : List String) (calls : List Expr) (shared : List Stmt)
    (taken' : List String) : Prop where
  adds : taken' = taken ++ resultVariables taken calls
  declares : (resultDeclarations taken calls).Sublist (nestedAll shared)

theorem takesInTurn_nil (taken : List String) (shared : List Stmt) :
    TakesInTurn taken [] shared taken :=
  ⟨(List.append_nil taken).symm, List.nil_sublist _⟩

theorem TakesInTurn.append {last : List String} (h : TakesInTurn taken calls shared taken')
    (hrest : TakesInTurn taken' more rest' last) :
    TakesInTurn taken (calls ++ more) (shared ++ rest') last := by
  obtain ⟨rfl, hdeclares⟩ := h
  obtain ⟨rfl, hmore⟩ := hrest
  refine ⟨?_, ?_⟩
  · rw [Expr.resultVariables_append, List.append_assoc]
  · rw [Expr.resultDeclarations_append, nestedAll_append]
    exact hdeclares.append hmore

theorem takesInTurn_of_share {condition : Expr} {shared : Expr.Shared}
    (h : condition.share taken = .ok shared) :
    ∃ calls, TakesInTurn taken calls (shared.declarations ++ [.assert shared.condition])
      shared.taken := by
  obtain ⟨rounds, hrounds, hdeclarations, htaken⟩ := Expr.rounds_of_share h
  refine ⟨rounds.map Expr.Round.call, htaken.trans (congrArg (taken ++ ·) hrounds.names_eq), ?_⟩
  rw [hdeclarations, nestedAll_append,
    nestedAll_map fun r => by simp only [Expr.Round.declaration, nested], hrounds.declarations_eq]
  exact List.sublist_append_left _ _

theorem followsSharing_takesInTurn : FollowsSharing fun taken _ shared taken' =>
    ∃ calls, TakesInTurn taken calls shared taken' where
  kept _ := ⟨[], takesInTurn_nil _ _⟩
  assert := takesInTurn_of_share
  whenever := by
    rintro _ _ _ _ _ _ ⟨calls, hadds, hdeclares⟩
    refine ⟨calls, hadds, ?_⟩
    rw [nestedAll_whenever]
    exact hdeclares.cons _
  nil taken := ⟨[], takesInTurn_nil taken []⟩
  append := fun ⟨calls, hcalls⟩ ⟨more, hmore⟩ => ⟨calls ++ more, hcalls.append hmore⟩

/-- A block that is shared declares what it declared before and the variables of the calls, found
one after another. -/
theorem exists_takesInTurn (h : shareAll taken body = .ok (shared, taken')) :
    ∃ calls, TakesInTurn taken calls shared taken' ∧
      (declared shared).Perm (declared body ++ resultVariables taken calls) := by
  obtain ⟨calls, hcalls⟩ := followsSharing_takesInTurn.of_shareAll h
  obtain ⟨names, hnames, hadds⟩ := followsSharing_addsFrom.of_shareAll h
  obtain rfl : names = resultVariables taken calls :=
    List.append_cancel_left (hnames.symm.trans hcalls.adds)
  exact ⟨calls, hcalls, hadds.declared⟩

/-- Both searches for a variable end, within one more round than there are names taken, at the first
name that is free: the search for the result of a test method, where the parameters have names, and
the search for a call that is shared. Variables for one call after another differ, and what sharing
adds to the names taken are such variables. -/
theorem searches_find :
    (∀ c : Contract, Text.Finds "result" 1 c.signature.parameterNames c.resultName) ∧
      (∀ taken e, Text.Finds (e.callName?.getD "call" ++ "_result") 2 taken
        (Expr.resultVariable taken e)) ∧
      (∀ taken calls, (resultVariables taken calls).Nodup ∧
        List.Disjoint taken (resultVariables taken calls)) ∧
      ∀ taken taken' body shared, shareAll taken body = .ok (shared, taken') →
        ∃ calls, TakesInTurn taken calls shared taken' ∧
          (declared shared).Perm (declared body ++ resultVariables taken calls) :=
  ⟨Contract.finds_resultName, Expr.finds_resultVariable,
    fun taken calls =>
      ⟨Expr.nodup_resultVariables taken calls, Expr.disjoint_resultVariables taken calls⟩,
    fun _ _ _ _ => exists_takesInTurn⟩

/-- The contract of `int f(int result, int result_2, int result_1)`. -/
def crowdedContract : Contract where
  name := "f"
  signature := ⟨"f", [⟨"result", "int"⟩, ⟨"result_2", "int"⟩, ⟨"result_1", "int"⟩], "int"⟩
  precondition := none
  postcondition := none

/-- The statements `int f_result_3; int f_result; assert(f(x) == f(x));` and then
`if (b) { assert(x.f() == x.f()); }`. -/
def crowdedBlock : List Stmt :=
  let bare : Expr := .call "f" [.var "x"]
  let sent : Expr := .send (.var "x") "f" []
  [.input "int" "f_result_3", .input "int" "f_result", .assert (.binary .equal bare bare),
    .whenever (.var "b") [.assert (.binary .equal sent sent)] false]

theorem crowded_searches_find :
    Text.Finds "result" 1 ["result", "result_2", "result_1"] "result_3" ∧
      Text.Finds "f_result" 2 ["f_result_3", "f_result"] "f_result_2" ∧
      ∃ shared taken', shareAll ["f_result_3", "f_result"] crowdedBlock = .ok (shared, taken') ∧
        taken' = ["f_result_3", "f_result", "f_result_2", "f_result_4"] ∧
        ∃ calls, TakesInTurn ["f_result_3", "f_result"] calls shared taken' ∧
          (declared shared).Perm
            (declared crowdedBlock ++ resultVariables ["f_result_3", "f_result"] calls) := by
  obtain ⟨hresult, hvariable, -, hshared⟩ := searches_find
  have hname : crowdedContract.resultName = "result_3" := by decide
  have hfirst : Expr.resultVariable ["f_result_3", "f_result"] (.call "f" []) = "f_result_2" := by
    decide
  obtain ⟨shared, taken', h, htaken⟩ : ∃ shared taken',
      shareAll ["f_result_3", "f_result"] crowdedBlock = .ok (shared, taken') ∧
        taken' = ["f_result_3", "f_result", "f_result_2", "f_result_4"] :=
    ⟨_, _, rfl, by decide⟩
  exact ⟨hname ▸ hresult crowdedContract, hfirst ▸ hvariable _ (.call "f" []), shared, taken', h,
    htaken, hshared _ _ _ _ h⟩

end Stmt

end ContractTests
