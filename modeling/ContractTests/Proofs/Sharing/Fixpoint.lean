import ContractTests.Proofs.Sharing.Ending

/-! # The shared block

What sharing makes of a block is a fixpoint, and it is the block with declarations put in. Sharing
is done when no assertion has a repeated call, so that sharing again changes nothing
(`Stmt.shareCalls_of_shared`). `Stmt.Adds body names shared` says that the names of the declarations
are new and differ, and that without the declarations only conditions of assertions have changed;
`Stmt.followsSharing_addsFrom` threads the names that are taken through the nested blocks.
-/

set_option autoImplicit false

namespace ContractTests

namespace Expr

/-! ## The variables of the rounds -/

/-- The names that are tried in turn for the result of a method. -/
def resultName (method : String) (n : Nat) : String :=
  let base := method ++ "_result"
  if n = 0 then base else base ++ "_" ++ natText (n + 1)

theorem exists_resultVariable_eq {call : Expr} {method : String}
    (h : call.callName? = some method) (taken : List String) :
    ∃ n, resultVariable taken call = resultName method n := by
  obtain ⟨n, hn, -, -⟩ := Text.fresh_spec (triedNames_injective (method ++ "_result")) taken
  refine ⟨n, Eq.trans ?_ hn⟩
  rw [resultVariable, h]
  rfl

theorem exists_callName?_of_isCall {e : Expr} (h : e.isCall = true) :
    ∃ method, e.callName? = some method := by
  cases e with
  | call name => exact ⟨name, rfl⟩
  | send _ name => exact ⟨name, rfl⟩
  | _ => cases h

/-- The variables are named after methods that the condition calls. -/
theorem Rounds.exists_resultName {condition result : Expr} {taken : List String}
    {rounds : List Round} (h : Rounds condition taken rounds result) :
    ∀ r ∈ rounds, ∃ method ∈ condition.calls.filterMap callName?,
      ∃ n, r.name = resultName method n := by
  -- the variables that come in have no calls in them, so that the methods called stay the same
  have hmethods : Everywhere (fun x => ∀ method ∈ x.callName?,
      method ∈ condition.calls.filterMap callName?) condition := by
    intro x hx method hmethod
    refine List.mem_filterMap.2 ⟨x, mem_calls_iff.2 ⟨hx, ?_⟩, hmethod⟩
    cases x with
    | call => rfl
    | send => rfl
    | _ => cases hmethod
  generalize condition.calls.filterMap callName? = methods at hmethods ⊢
  induction h with
  | done => exact List.forall_mem_nil _
  | @round condition call _ occurrence taken _ found _ ih =>
    obtain ⟨hmem, hcall⟩ := mem_calls_iff.1 (mem_calls_of_repeatedCall found)
    obtain ⟨method, hmethod⟩ := exists_callName?_of_isCall hcall
    refine List.forall_mem_cons.2 ⟨⟨method, hmethods call hmem method hmethod,
      exists_resultVariable_eq hmethod taken⟩, ih (hmethods.named ?_ occurrence nofun)⟩
    intro R e e' hp he
    have hname : e'.callName? = e.callName? := by cases hp <;> rfl
    rwa [hname]

end Expr

namespace Stmt

variable {body shared rest rest' : List Stmt}

/-! ## Sharing again -/

theorem share_of_isKept {s : Stmt} (hs : s.isKept = true) (taken : List String) :
    share taken s = .ok ([s], taken) := by
  cases s with
  | assert => cases hs
  | whenever => cases hs
  | _ => simp only [share]

/-- A block of which sharing changes no statement is not changed. -/
theorem shareAll_of_forall (h : ∀ s ∈ body, ∀ taken, share taken s = .ok ([s], taken))
    (taken : List String) : shareAll taken body = .ok (body, taken) := by
  induction body with
  | nil => rfl
  | cons s body ih =>
    obtain ⟨hs, hbody⟩ := List.forall_mem_cons.1 h
    rw [shareAll, hs]
    change (shareAll taken body >>= _) = _
    rw [ih hbody]
    rfl

/-- The course of an assertion that is shared. -/
theorem SharesAs.exists_rounds {condition condition' : Expr} {declarations : List Stmt}
    (h : SharesAs condition declarations condition') :
    ∃ taken rounds, Expr.Rounds condition taken rounds condition' ∧
      declarations = rounds.map Expr.Round.declaration ∧ condition'.repeatedCall = .ok none := by
  obtain ⟨taken, taken', h⟩ := h
  obtain ⟨rounds, hrounds, hshared, hnone⟩ := Expr.course_of_share h
  exact ⟨taken, rounds, hrounds, congrArg Expr.Shared.declarations hshared, hnone⟩

/-- Sharing changes no statement of a shared block. -/
theorem Rewrites.share_eq (h : Rewrites SharesAs body shared) :
    ∀ s ∈ shared, ∀ taken, share taken s = .ok ([s], taken) := by
  induction h with
  | nil => exact List.forall_mem_nil _
  | kept hs _ ih => exact List.forall_mem_cons.2 ⟨share_of_isKept hs, ih⟩
  | assert h _ ih =>
    obtain ⟨-, rounds, -, rfl, hnone⟩ := h.exists_rounds
    refine List.forall_mem_append.2 ⟨?declarations, List.forall_mem_cons.2 ⟨?assertion, ih⟩⟩
    case declarations => exact List.forall_mem_map.2 fun r _ => share_of_isKept rfl
    case assertion =>
      intro taken
      rw [share, Expr.share_of_none hnone]
      rfl
  | whenever _ _ ihbody ih =>
    refine List.forall_mem_cons.2 ⟨fun taken => ?_, ih⟩
    rw [share, shareAll_of_forall ihbody]
    rfl

theorem shareCalls_of_shared (h : shareCalls body = .ok shared) :
    shareCalls shared = .ok shared := by
  rw [shareCalls, shareAll_of_forall (rewrites_of_shareCalls h).share_eq]
  rfl

/-! ## Without the declarations -/

mutual

/-- The statement without declarations of the names, at every depth. -/
def without (names : List String) : Stmt → List Stmt
  | .declare type name init => if names.contains name then [] else [.declare type name init]
  | .whenever condition body returns => [.whenever condition (withoutAll names body) returns]
  | .input type name => [.input type name]
  | .assign target value => [.assign target value]
  | .assume condition => [.assume condition]
  | .assert condition => [.assert condition]
  | .perform call => [.perform call]

/-- The statements of the block without declarations of the names. -/
def withoutAll (names : List String) : List Stmt → List Stmt
  | [] => []
  | s :: rest => without names s ++ withoutAll names rest

end

/-- The declarations and the new condition are those of sharing, and the declarations are of the
names. -/
def SharesWith (names : List String) (condition : Expr) (declarations : List Stmt)
    (condition' : Expr) : Prop :=
  SharesAs condition declarations condition' ∧ declarations.filterMap declared? ⊆ names

theorem withoutAll_append (names : List String) (body rest : List Stmt) :
    withoutAll names (body ++ rest) = withoutAll names body ++ withoutAll names rest := by
  induction body with
  | nil => rfl
  | cons s body ih => rw [List.cons_append, withoutAll, withoutAll, ih, List.append_assoc]

theorem withoutAll_declarations {names : List String} {rounds : List Expr.Round}
    (h : rounds.map Expr.Round.name ⊆ names) :
    withoutAll names (rounds.map Expr.Round.declaration) = [] := by
  induction rounds with
  | nil => rfl
  | cons r rounds ih =>
    obtain ⟨hname, hrest⟩ := List.cons_subset.1 h
    rw [List.map_cons, withoutAll, Expr.Round.declaration, without,
      if_pos (List.contains_iff_mem.2 hname), ih hrest, List.append_nil]

theorem without_of_isKept {names : List String} {s : Stmt} (hs : s.isKept = true)
    (hnames : ∀ name ∈ names, s.declared? ≠ some name) : without names s = [s] := by
  cases s with
  | assert => cases hs
  | whenever => cases hs
  | declare type name init =>
    have hnot : ¬names.contains name = true := fun hmem =>
      hnames name (List.contains_iff_mem.1 hmem) rfl
    rw [without, if_neg hnot]
  | _ => simp only [without]

/-! ## Names -/

theorem declared_append (body rest : List Stmt) :
    declared (body ++ rest) = declared body ++ declared rest := by
  rw [declared, nestedAll_append, List.filterMap_append, declared, declared]

theorem declared_cons (s : Stmt) (rest : List Stmt) :
    declared (s :: rest) = declared [s] ++ declared rest :=
  declared_append [s] rest

theorem declared_of_isKept {s : Stmt} (hs : s.isKept = true) :
    declared [s] = s.declared?.toList := by
  cases s with
  | assert => cases hs
  | whenever => cases hs
  | _ => simp [declared, nestedAll, nested, declared?]

theorem declared_whenever (condition : Expr) (body : List Stmt) (returns : Bool) :
    declared [.whenever condition body returns] = declared body := by
  rw [declared, nestedAll_whenever, List.filterMap_cons]
  rfl

theorem declared_assert (condition : Expr) : declared [.assert condition] = [] := rfl

theorem filterMap_declared_declarations (rounds : List Expr.Round) :
    (rounds.map Expr.Round.declaration).filterMap declared? = rounds.map Expr.Round.name := by
  rw [List.filterMap_map]
  exact congrFun List.filterMap_eq_map rounds

theorem declared_declarations (rounds : List Expr.Round) :
    declared (rounds.map Expr.Round.declaration) = rounds.map Expr.Round.name := by
  rw [declared, nestedAll_map fun r => by simp only [Expr.Round.declaration, nested],
    filterMap_declared_declarations]

/-- Without the declarations that were put in, only the conditions of assertions are others. -/
theorem Rewrites.withoutAll {names : List String} (h : Rewrites (SharesWith names) body shared)
    (hnames : ∀ name ∈ names, name ∉ declared body) :
    Rewrites (fun _ declarations _ => declarations = []) body (withoutAll names shared) := by
  induction h with
  | nil => exact .nil
  | @kept s _ _ hs _ ih =>
    rw [declared_cons, declared_of_isKept hs] at hnames
    have hkept : without names s = [s] := without_of_isKept hs fun name hname hdeclared =>
      hnames name hname (by simp [hdeclared])
    rw [Stmt.withoutAll, hkept]
    exact .kept hs (ih fun name hname hmem => hnames name hname (List.mem_append_right _ hmem))
  | assert h _ ih =>
    obtain ⟨hshares, hdeclared⟩ := h
    obtain ⟨-, rounds, -, rfl, -⟩ := hshares.exists_rounds
    rw [filterMap_declared_declarations] at hdeclared
    rw [declared_cons, declared_assert, List.nil_append] at hnames
    rw [withoutAll_append, withoutAll_declarations hdeclared, Stmt.withoutAll, without]
    exact .assert rfl (ih hnames)
  | whenever _ _ ihbody ih =>
    rw [declared_cons, declared_whenever] at hnames
    rw [Stmt.withoutAll, without]
    exact .whenever (ihbody fun name hname hmem => hnames name hname (List.mem_append_left _ hmem))
      (ih fun name hname hmem => hnames name hname (List.mem_append_right _ hmem))

/-! ## The names that are added -/

/-- The names of the methods that the assertions call. -/
def assertedMethods (body : List Stmt) : List String :=
  (nestedAll body).flatMap fun
    | .assert condition => condition.calls.filterMap Expr.callName?
    | _ => []

/-- Sharing makes the second block of the first one, with declarations of names that differ from
each other and from those taken. They are names for the results of methods that assertions call. -/
structure AddsFrom (taken : List String) (body : List Stmt) (names : List String)
    (shared : List Stmt) : Prop where
  nodup : names.Nodup
  fresh : ∀ name ∈ names, name ∉ taken
  declared : (declared shared).Perm (declared body ++ names)
  ofResults : ∀ name ∈ names, ∃ method ∈ assertedMethods body, ∃ n, name = Expr.resultName method n
  shares : Rewrites (SharesWith names) body shared

theorem SharesWith.mono {names more : List String} (hmore : names ⊆ more)
    (h : Rewrites (SharesWith names) body shared) : Rewrites (SharesWith more) body shared :=
  h.imp fun _ _ _ ⟨hshares, hnames⟩ => ⟨hshares, List.Subset.trans hnames hmore⟩

theorem assertedMethods_append (body rest : List Stmt) :
    assertedMethods (body ++ rest) = assertedMethods body ++ assertedMethods rest := by
  rw [assertedMethods, nestedAll_append, List.flatMap_append]
  rfl

theorem assertedMethods_whenever (condition : Expr) (body : List Stmt) (returns : Bool) :
    assertedMethods [.whenever condition body returns] = assertedMethods body := by
  rw [assertedMethods, nestedAll_whenever, List.flatMap_cons]
  rfl

theorem assertedMethods_assert (condition : Expr) :
    assertedMethods [.assert condition] = condition.calls.filterMap Expr.callName? :=
  List.append_nil _

/-- What is taken after a block is taken in the next one. -/
theorem AddsFrom.append {taken names more : List String} (h : AddsFrom taken body names shared)
    (hrest : AddsFrom (taken ++ names) rest more rest') :
    AddsFrom taken (body ++ rest) (names ++ more) (shared ++ rest') where
  nodup := by
    refine List.nodup_append.2 ⟨h.nodup, hrest.nodup, ?_⟩
    rintro name hname _ hmore rfl
    exact hrest.fresh name hmore (List.mem_append_right _ hname)
  fresh := List.forall_mem_append.2
    ⟨h.fresh, fun name hname htaken => hrest.fresh name hname (List.mem_append_left _ htaken)⟩
  declared := by
    have hswap : (Stmt.declared body ++ names ++ (Stmt.declared rest ++ more)).Perm
        (Stmt.declared body ++ Stmt.declared rest ++ (names ++ more)) := by
      simp only [List.append_assoc]
      exact (List.perm_append_comm_assoc _ _ _).append_left _
    rw [declared_append, declared_append]
    exact (h.declared.append hrest.declared).trans hswap
  ofResults := by
    rw [assertedMethods_append]
    refine List.forall_mem_append.2 ⟨fun name hname => ?_, fun name hname => ?_⟩
    · obtain ⟨method, hmethod, hn⟩ := h.ofResults name hname
      exact ⟨method, List.mem_append_left _ hmethod, hn⟩
    · obtain ⟨method, hmethod, hn⟩ := hrest.ofResults name hname
      exact ⟨method, List.mem_append_right _ hmethod, hn⟩
  shares := (SharesWith.mono (List.subset_append_left _ _) h.shares).append
    (SharesWith.mono (List.subset_append_right _ _) hrest.shares)

theorem addsFrom_nil (taken : List String) : AddsFrom taken [] [] [] :=
  ⟨List.nodup_nil, List.forall_mem_nil _, .nil, List.forall_mem_nil _, .nil⟩

theorem addsFrom_of_isKept {s : Stmt} (hs : s.isKept = true) (taken : List String) :
    AddsFrom taken [s] [] [s] := by
  refine ⟨List.nodup_nil, List.forall_mem_nil _, ?_, List.forall_mem_nil _, .kept hs .nil⟩
  rw [List.append_nil]

theorem addsFrom_of_share {condition : Expr} {taken : List String} {shared : Expr.Shared}
    (h : condition.share taken = .ok shared) :
    ∃ names, shared.taken = taken ++ names ∧ AddsFrom taken [.assert condition] names
      (shared.declarations ++ [.assert shared.condition]) := by
  obtain ⟨rounds, hrounds, hdeclarations, htaken⟩ := Expr.rounds_of_share h
  refine ⟨rounds.map Expr.Round.name, htaken, hrounds.nodup_names,
    List.forall_mem_map.2 hrounds.not_mem_taken, ?declared, ?ofResults,
    .assert ⟨⟨taken, shared.taken, h⟩, ?names⟩ .nil⟩
  case declared =>
    rw [hdeclarations, declared_append, declared_declarations, declared_assert, declared_assert,
      List.append_nil, List.nil_append]
  case ofResults =>
    rw [assertedMethods_assert]
    exact List.forall_mem_map.2 hrounds.exists_resultName
  case names =>
    rw [hdeclarations, filterMap_declared_declarations]
    exact List.Subset.refl _

theorem addsFrom_whenever {condition : Expr} {body' : List Stmt} {returns : Bool}
    {taken names : List String} (h : AddsFrom taken body names body') :
    AddsFrom taken [.whenever condition body returns] names
      [.whenever condition body' returns] := by
  refine ⟨h.nodup, h.fresh, ?_, ?_, .whenever h.shares .nil⟩
  · rw [declared_whenever, declared_whenever]
    exact h.declared
  · rw [assertedMethods_whenever]
    exact h.ofResults

theorem followsSharing_addsFrom : FollowsSharing fun taken body shared taken' =>
    ∃ names, taken' = taken ++ names ∧ AddsFrom taken body names shared where
  kept {_ taken} hs := ⟨[], (List.append_nil taken).symm, addsFrom_of_isKept hs taken⟩
  assert := addsFrom_of_share
  whenever := fun ⟨names, htaken, hadds⟩ => ⟨names, htaken, addsFrom_whenever hadds⟩
  nil taken := ⟨[], (List.append_nil taken).symm, addsFrom_nil taken⟩
  append := by
    rintro body body' rest rest' taken _ _ ⟨names, rfl, hadds⟩ ⟨more, rfl, hmore⟩
    exact ⟨names ++ more, List.append_assoc .., hadds.append hmore⟩

/-- Sharing makes the second block of the first one, with declarations of names that differ from
each other and from all that the first one declares. Without them, it is the first one with other
conditions in its assertions. -/
structure Adds (body : List Stmt) (names : List String) (shared : List Stmt) : Prop
    extends AddsFrom (Stmt.declared body) body names shared where
  without : Rewrites (fun _ declarations _ => declarations = []) body (withoutAll names shared)

theorem exists_adds (h : shareCalls body = .ok shared) : ∃ names, Adds body names shared := by
  obtain ⟨⟨_, _⟩, h, heq⟩ := bind_eq_ok_iff.1 h
  cases heq
  obtain ⟨names, -, hadds⟩ := followsSharing_addsFrom.of_shareAll h
  exact ⟨names, hadds, hadds.shares.withoutAll hadds.fresh⟩

/-- Sharing comes to an end at every condition, each round leaving fewer calls. What it makes of a
block is a fixpoint, and it is the block with declarations of new names. -/
theorem shareCalls_settles (body : List Stmt) :
    (∀ condition taken, ∃ rounds last, Expr.Course condition taken rounds last) ∧
      ∀ shared, shareCalls body = .ok shared →
        shareCalls shared = .ok shared ∧ ∃ names, Adds body names shared :=
  ⟨Expr.exists_course, fun _ h => ⟨shareCalls_of_shared h, exists_adds h⟩⟩

/-- The statements `double f_result; if (b) { assert(f(NaN) == f(NaN)); }` and then
`assert(x.f() == x.f());`. -/
def resultsInBlocks : List Stmt :=
  let ofNaN : Expr := .call "f" [.literal (.float .nan)]
  let ofX : Expr := .send (.var "x") "f" []
  [.input "double" "f_result", .whenever (.var "b") [.assert (.binary .equal ofNaN ofNaN)] false,
    .assert (.binary .equal ofX ofX)]

theorem resultsInBlocks_settles : ∃ shared, shareCalls resultsInBlocks = .ok shared ∧
    declared shared = ["f_result", "f_result_2", "f_result_3"] ∧ shareCalls shared = .ok shared ∧
    ∃ names, Adds resultsInBlocks names shared := by
  obtain ⟨shared, hshared⟩ : ∃ shared, shareCalls resultsInBlocks = .ok shared := ⟨_, rfl⟩
  have hdeclared : declared shared = ["f_result", "f_result_2", "f_result_3"] := by
    cases hshared
    rfl
  exact ⟨shared, hshared, hdeclared, (shareCalls_settles resultsInBlocks).2 shared hshared⟩

end Stmt

end ContractTests
