import ContractTests.TestClass.Sharing
import ContractTests.Proofs.Expr.Traversal
import ContractTests.Proofs.Text.Fresh

/-! # The rounds of sharing

Sharing goes in rounds: each declares the first call that is repeated in what the condition has
become and puts a variable in the place of its occurrences. `Expr.Rounds` is the course of the
rounds, and `Expr.rounds_of_share` says that `Expr.share` follows it. A fact about the sharing of
blocks is a relation that follows it from statement to statement (`Stmt.FollowsSharing`), such as
that a block is shared assertion by assertion, at every depth (`Stmt.rewrites_of_shareCalls`).
-/

set_option autoImplicit false

namespace ContractTests

namespace Expr

/-! ## The repeated call -/

/-- The occurrences of a call are recognised by its structure, or by its text if it has floats. -/
inductive Occurrence.IsOf : Occurrence → Expr → Prop
  | structural (e : Expr) : IsOf (.structural e) e
  | textual {e : Expr} {text : String} (hfloat : e.hasFloatLiteral = true)
      (htext : e.render = .ok text) : IsOf (.textual text) e

theorem Occurrence.isAt_textual_iff {text : String} {e : Expr} :
    (Occurrence.textual text).isAt e = true ↔ e.isCall = true ∧ e.render = .ok text := by
  rw [isAt, Bool.and_eq_true]
  cases e.render <;> simp

theorem repeatedAmong_spec {condition e : Expr} {o : Occurrence} {es : List Expr}
    (h : condition.repeatedAmong es = .ok (some (e, o))) : e ∈ es ∧ o.IsOf e := by
  induction es with
  | nil => cases h
  | cons first rest ih =>
    have hrest (h : condition.repeatedAmong rest = .ok (some (e, o))) :
        e ∈ first :: rest ∧ o.IsOf e :=
      ⟨List.mem_cons_of_mem _ (ih h).1, (ih h).2⟩
    rw [repeatedAmong] at h
    split at h
    · cases h
      exact ⟨List.mem_cons_self, .structural e⟩
    · split at h
      · rename_i hfloat
        obtain ⟨text, htext, h⟩ := bind_eq_ok_iff.1 h
        split at h
        · cases h
          exact ⟨List.mem_cons_self, .textual hfloat htext⟩
        · exact hrest h
      · exact hrest h

theorem mem_calls_iff {x e : Expr} : x ∈ e.calls ↔ x ∈ e.subterms ∧ x.isCall = true :=
  List.mem_filter

/-- The repeated call is a call of the condition. -/
theorem mem_calls_of_repeatedCall {condition e : Expr} {o : Occurrence}
    (h : condition.repeatedCall = .ok (some (e, o))) : e ∈ condition.calls :=
  (repeatedAmong_spec h).1

theorem isOf_of_repeatedCall {condition e : Expr} {o : Occurrence}
    (h : condition.repeatedCall = .ok (some (e, o))) : o.IsOf e :=
  (repeatedAmong_spec h).2

/-! ## Variables in the place of occurrences -/

namespace Occurrence

variable {o : Occurrence} {name : String} {e : Expr}

theorem named_of_isAt (h : o.isAt e = true) : o.named name e = .var name :=
  replace_of_some (by rw [h]; rfl)

theorem named_of_not_isAt (h : o.isAt e = false) :
    o.named name e = e.mapChildren (o.named name) :=
  replace_of_none (by rw [h]; rfl)

theorem named_spec {P : Expr → Expr → Prop} (found : ∀ e, o.isAt e = true → P e (.var name))
    (rebuilt : ∀ e e', o.isAt e = false → Parallel P e e' → P e e') (e : Expr) :
    P e (o.named name e) := by
  refine replace_spec (fun e e' h => ?_) (fun e e' h hp => rebuilt e e' ?_ hp) e
  · split at h
    · cases h
      exact found e (by assumption)
    · cases h
  · split at h
    · cases h
    · rwa [Bool.not_eq_true] at *

/-- A node of the result is the variable, or what becomes of a node. -/
theorem mem_subterms_named {x' : Expr} (h : x' ∈ (o.named name e).subterms) :
    x' = .var name ∨ ∃ x ∈ e.subterms, o.isAt x = false ∧ o.named name x = x' := by
  induction e using children_induction with
  | node e ih =>
    cases hat : o.isAt e with
    | true =>
      rw [named_of_isAt hat] at h
      exact .inl (List.mem_singleton.1 h)
    | false =>
      rcases mem_subterms_iff.1 h with rfl | ⟨c', hc', hx'⟩
      · exact .inr ⟨e, self_mem_subterms e, hat, rfl⟩
      · rw [named_of_not_isAt hat] at hc'
        obtain ⟨c, hc, rfl⟩ := exists_of_mem_right (mapChildren_parallel _ e).children hc'
        refine (ih c hc hx').imp_right fun ⟨x, hx, hnot, heq⟩ => ?_
        exact ⟨x, mem_subterms_of_mem_children hc hx, hnot, heq⟩

/-- What becomes of a node that is no occurrence is a node of its kind. -/
theorem isCall_named (h : o.isAt e = false) : (o.named name e).isCall = e.isCall := by
  rw [named_of_not_isAt h]
  exact (mapChildren_parallel _ e).isCall_eq

/-- No node without children comes in but the variable in the place of the occurrences. -/
theorem mem_subterms_of_named {x' : Expr} (h : x' ∈ (o.named name e).subterms)
    (hleaf : x'.children = []) : x' = .var name ∨ x' ∈ e.subterms := by
  refine (mem_subterms_named h).imp_right fun ⟨x, hx, hnot, heq⟩ => ?_
  rw [named_of_not_isAt hnot] at heq
  have hp := mapChildren_parallel (o.named name) x
  rw [heq] at hp
  rwa [← hp.eq_of_children_eq_nil hleaf]

end Occurrence

/-- What holds of every node still does around variables of which it holds. -/
theorem Everywhere.named {Q : Expr → Prop} {e : Expr} (hQ : IgnoresChildren Q)
    (h : Everywhere Q e) (o : Occurrence) {name : String} (hname : Q (.var name)) :
    Everywhere Q (o.named name e) := by
  intro x' hx'
  rcases Occurrence.mem_subterms_named hx' with rfl | ⟨x, hx, hnot, rfl⟩
  · exact hname
  · rw [Occurrence.named_of_not_isAt hnot]
    exact hQ _ _ _ (mapChildren_parallel _ x) (h x hx)

/-! ## The variable of a call -/

/-- The names that are tried for a call differ. -/
theorem triedNames_injective (base : String) :
    Function.Injective fun n => if n = 0 then base else base ++ "_" ++ natText (n + 1) := by
  refine Text.numbered_injective ?_ fun _ _ h => Nat.succ.inj h
  rw [String.length_append]
  omega

theorem resultVariable_not_mem (taken : List String) (e : Expr) :
    resultVariable taken e ∉ taken :=
  Text.fresh_not_mem (triedNames_injective _) taken

/-- The variables for the calls, each taken before the next one is looked for. -/
def resultVariables (taken : List String) : List Expr → List String
  | [] => []
  | e :: rest =>
    let name := resultVariable taken e
    name :: resultVariables (taken ++ [name]) rest

/-- A variable is none of the names taken before. -/
theorem disjoint_resultVariables (taken : List String) (calls : List Expr) :
    List.Disjoint taken (resultVariables taken calls) := by
  induction calls generalizing taken with
  | nil => exact List.disjoint_nil_right taken
  | cons e rest ih =>
    refine List.disjoint_cons_right.2 ⟨resultVariable_not_mem taken e, ?_⟩
    exact (List.disjoint_append_left.1 (ih _)).1

theorem nodup_resultVariables (taken : List String) (calls : List Expr) :
    (resultVariables taken calls).Nodup := by
  induction calls generalizing taken with
  | nil => exact List.nodup_nil
  | cons e rest ih =>
    refine List.nodup_cons.2 ⟨?_, ih _⟩
    exact List.singleton_disjoint.1 (List.disjoint_append_left.1 (disjoint_resultVariables _ rest)).2

/-! ## Rounds -/

/-- One round: the condition it starts from, the call that is repeated there, how its occurrences
are recognised, and the variable that takes their place. -/
structure Round where
  condition : Expr
  call : Expr
  occurrence : Occurrence
  name : String

def Round.declaration (r : Round) : Stmt := .declare "var" r.name r.call

/-- The rounds that lead from a condition to a result. -/
inductive Rounds : Expr → List String → List Round → Expr → Prop
  | done (condition : Expr) (taken : List String) : Rounds condition taken [] condition
  | round {condition call result : Expr} {occurrence : Occurrence} {taken : List String}
      {rounds : List Round} (found : condition.repeatedCall = .ok (some (call, occurrence)))
      (rest : Rounds (occurrence.named (resultVariable taken call) condition)
        (taken ++ [resultVariable taken call]) rounds result) :
      Rounds condition taken
        (⟨condition, call, occurrence, resultVariable taken call⟩ :: rounds) result

/-- The first round is about the repeated call that is found, under the name that is declared. -/
theorem Rounds.of_repeatedCall {condition call result init : Expr} {o : Occurrence}
    {taken : List String} {rounds : List Round} {type name : String} {declarations : List Stmt}
    (h : Rounds condition taken rounds result)
    (hfound : condition.repeatedCall = .ok (some (call, o)))
    (hdeclared : .declare type name init :: declarations = rounds.map Round.declaration) :
    ∃ rest, rounds = ⟨condition, call, o, name⟩ :: rest ∧
      declarations = rest.map Round.declaration ∧
      Rounds (o.named name condition) (taken ++ [name]) rest result := by
  cases h with
  | done => cases hdeclared
  | round found rest =>
    cases hfound.symm.trans found
    obtain ⟨hfirst, hrest⟩ := List.cons.inj hdeclared
    obtain rfl := (Stmt.declare.inj hfirst).2.1
    exact ⟨_, rfl, hrest, rest⟩

/-- The variables of the rounds are looked for one after another. -/
theorem Rounds.names_eq {condition result : Expr} {taken : List String} {rounds : List Round}
    (h : Rounds condition taken rounds result) :
    rounds.map Round.name = resultVariables taken (rounds.map Round.call) := by
  induction h with
  | done => rfl
  | round _ _ ih =>
    rw [List.map_cons, List.map_cons, ih]
    rfl

/-- A variable is not taken when its round comes. -/
theorem Rounds.not_mem_taken {condition result : Expr} {taken : List String} {rounds : List Round}
    (h : Rounds condition taken rounds result) : ∀ r ∈ rounds, r.name ∉ taken := by
  have hdisjoint := disjoint_resultVariables taken (rounds.map Round.call)
  rw [← h.names_eq] at hdisjoint
  exact fun r hr hmem => hdisjoint hmem (List.mem_map_of_mem hr)

/-- The variables differ. -/
theorem Rounds.nodup_names {condition result : Expr} {taken : List String} {rounds : List Round}
    (h : Rounds condition taken rounds result) : (rounds.map Round.name).Nodup := by
  rw [h.names_eq]
  exact nodup_resultVariables taken _

/-- What holds of every node of a condition holds of the calls that the rounds declare and of the
result, when it holds of the variables of the calls. -/
theorem Rounds.everywhere {Q : Expr → Prop} (hQ : IgnoresChildren Q)
    (hvariable : ∀ taken call, call.isCall = true → Q call → Q (.var (resultVariable taken call)))
    {condition result : Expr} {taken : List String} {rounds : List Round}
    (h : Rounds condition taken rounds result) (hcondition : Everywhere Q condition) :
    Everywhere Q result ∧ ∀ r ∈ rounds, Everywhere Q r.call ∧ Q (.var r.name) := by
  induction h with
  | done => exact ⟨hcondition, nofun⟩
  | @round _ call _ occurrence taken _ found _ ih =>
    obtain ⟨hmem, hcall⟩ := mem_calls_iff.1 (mem_calls_of_repeatedCall found)
    have hname := hvariable taken call hcall (hcondition call hmem)
    obtain ⟨hresult, hrounds⟩ := ih (hcondition.named hQ occurrence hname)
    exact ⟨hresult, List.forall_mem_cons.2 ⟨⟨hcondition.subterm hmem, hname⟩, hrounds⟩⟩

theorem rounds_of_shareWithin {fuel : Nat} {condition : Expr} {taken : List String}
    {shared : Shared} (h : shareWithin fuel condition taken = .ok shared) :
    ∃ rounds, Rounds condition taken rounds shared.condition ∧
      shared.declarations = rounds.map Round.declaration ∧
      shared.taken = taken ++ rounds.map Round.name := by
  induction fuel generalizing condition taken shared with
  | zero =>
    cases h
    exact ⟨[], .done condition taken, rfl, (List.append_nil taken).symm⟩
  | succ fuel ih =>
    obtain ⟨found, hfound, h⟩ := bind_eq_ok_iff.1 h
    cases found with
    | none =>
      cases h
      exact ⟨[], .done condition taken, rfl, (List.append_nil taken).symm⟩
    | some found =>
      obtain ⟨call, occurrence⟩ := found
      obtain ⟨later, hlater, h⟩ := bind_eq_ok_iff.1 h
      obtain ⟨rounds, hrounds, hdeclarations, htaken⟩ := ih hlater
      cases h
      refine ⟨_, .round hfound hrounds, ?_, ?_⟩
      · simp only [List.map_cons, hdeclarations, Round.declaration]
      · simp only [List.map_cons, htaken, List.append_assoc, List.singleton_append]

/-- Sharing goes in rounds. -/
theorem rounds_of_share {condition : Expr} {taken : List String} {shared : Shared}
    (h : condition.share taken = .ok shared) :
    ∃ rounds, Rounds condition taken rounds shared.condition ∧
      shared.declarations = rounds.map Round.declaration ∧
      shared.taken = taken ++ rounds.map Round.name :=
  rounds_of_shareWithin h

end Expr

/-! ## Blocks -/

namespace Stmt

theorem nestedAll_append (body rest : List Stmt) :
    nestedAll (body ++ rest) = nestedAll body ++ nestedAll rest := by
  induction body with
  | nil => rfl
  | cons s body ih => rw [List.cons_append, nestedAll, nestedAll, ih, List.append_assoc]

theorem nestedAll_whenever (condition : Expr) (body : List Stmt) (returns : Bool) :
    nestedAll [.whenever condition body returns] =
      .whenever condition body returns :: nestedAll body := by
  rw [nestedAll, nestedAll, nested, List.append_nil]

/-- Statements without blocks have nothing nested in them. -/
theorem nestedAll_of_flat {body : List Stmt} (h : ∀ s ∈ body, nested s = [s]) :
    nestedAll body = body := by
  induction body with
  | nil => rfl
  | cons s body ih =>
    obtain ⟨hs, hbody⟩ := List.forall_mem_cons.1 h
    rw [nestedAll, hs, ih hbody, List.singleton_append]

theorem nestedAll_map {α : Type} {f : α → Stmt} (h : ∀ a, nested (f a) = [f a]) (xs : List α) :
    nestedAll (xs.map f) = xs.map f :=
  nestedAll_of_flat (List.forall_mem_map.2 fun a _ => h a)

/-- The expression of a statement itself. -/
def expression? : Stmt → Option Expr
  | .input .. => none
  | .declare _ _ init => some init
  | .assign _ value => some value
  | .assume condition => some condition
  | .assert condition => some condition
  | .perform call => some call
  | .whenever condition _ _ => some condition

/-- The block of a statement. -/
def block : Stmt → List Stmt
  | .whenever _ body _ => body
  | _ => []

/-- The predicate holds of the statement and of all statements in it. -/
def Throughout (P : Stmt → Prop) (s : Stmt) : Prop := ∀ t ∈ nested s, P t

/-- The predicate holds of the statements of the block, at every depth. -/
def Everywhere (P : Stmt → Prop) (body : List Stmt) : Prop := ∀ s ∈ nestedAll body, P s

section

variable {P : Stmt → Prop} {body rest : List Stmt}

theorem everywhere_nil : Everywhere P [] := nofun

theorem everywhere_cons {s : Stmt} :
    Everywhere P (s :: rest) ↔ s.Throughout P ∧ Everywhere P rest := by
  rw [Everywhere, nestedAll, List.forall_mem_append, Throughout, Everywhere]

theorem everywhere_eq (body : List Stmt) :
    Everywhere P body ↔ ∀ s ∈ body, s.Throughout P := by
  induction body with
  | nil => exact iff_of_true everywhere_nil (List.forall_mem_nil _)
  | cons s body ih => rw [everywhere_cons, ih, List.forall_mem_cons]

theorem everywhere_append :
    Everywhere P (body ++ rest) ↔ Everywhere P body ∧ Everywhere P rest := by
  simp only [everywhere_eq, List.forall_mem_append]

theorem throughout_whenever {condition : Expr} {returns : Bool} :
    (whenever condition body returns).Throughout P ↔
      P (.whenever condition body returns) ∧ Everywhere P body := by
  rw [Throughout, nested, List.forall_mem_cons, Everywhere]

/-- The statement itself, and then those of its block. -/
theorem throughout_iff (s : Stmt) : s.Throughout P ↔ P s ∧ Everywhere P s.block := by
  cases s with
  | whenever => exact throughout_whenever
  | _ => simp [Throughout, nested, block, everywhere_nil]

theorem throughout_assert {condition : Expr} :
    (assert condition).Throughout P ↔ P (.assert condition) := by
  simp [Throughout, nested]

end

/-- Whether a statement is left as it is: neither an assertion nor a block. -/
def isKept : Stmt → Bool
  | .assert _ => false
  | .whenever .. => false
  | _ => true

/-- The second block is the first one with declarations before its assertions and other conditions
in them, where `R` holds of the condition, the declarations and the new condition. -/
inductive Rewrites (R : Expr → List Stmt → Expr → Prop) : List Stmt → List Stmt → Prop
  | nil : Rewrites R [] []
  | kept {s : Stmt} {rest rest' : List Stmt} (hs : s.isKept = true)
      (hrest : Rewrites R rest rest') : Rewrites R (s :: rest) (s :: rest')
  | assert {condition condition' : Expr} {declarations rest rest' : List Stmt}
      (h : R condition declarations condition') (hrest : Rewrites R rest rest') :
      Rewrites R (.assert condition :: rest) (declarations ++ .assert condition' :: rest')
  | whenever {condition : Expr} {body body' rest rest' : List Stmt} {returns : Bool}
      (hbody : Rewrites R body body') (hrest : Rewrites R rest rest') :
      Rewrites R (.whenever condition body returns :: rest)
        (.whenever condition body' returns :: rest')

/-- The declarations and the new condition are those that sharing gives for the condition. -/
def SharesAs (condition : Expr) (declarations : List Stmt) (condition' : Expr) : Prop :=
  ∃ taken taken', condition.share taken = .ok ⟨declarations, condition', taken'⟩

/-- A relation between the names taken before, a block, what becomes of it, and the names taken
after it. It holds of statements that are kept and of assertions that are shared, and goes on from a
block to the statement around it and to blocks one after the other. -/
structure FollowsSharing (P : List String → List Stmt → List Stmt → List String → Prop) :
    Prop where
  kept : ∀ {s taken}, s.isKept = true → P taken [s] [s] taken
  assert : ∀ {condition taken shared}, condition.share taken = .ok shared →
    P taken [.assert condition] (shared.declarations ++ [.assert shared.condition]) shared.taken
  whenever : ∀ {condition body body' returns taken taken'}, P taken body body' taken' →
    P taken [.whenever condition body returns] [.whenever condition body' returns] taken'
  nil : ∀ taken, P taken [] [] taken
  append : ∀ {body body' rest rest' taken taken' last}, P taken body body' taken' →
    P taken' rest rest' last → P taken (body ++ rest) (body' ++ rest') last

namespace FollowsSharing

variable {P : List String → List Stmt → List Stmt → List String → Prop}

mutual

theorem of_share (hP : FollowsSharing P) : ∀ {s : Stmt} {taken taken' : List String}
    {shared : List Stmt}, share taken s = .ok (shared, taken') → P taken [s] shared taken'
  | .assert condition, taken, _, _, h => by
    rw [share] at h
    obtain ⟨shared, hshared, h⟩ := bind_eq_ok_iff.1 h
    cases h
    exact hP.assert hshared
  | .whenever condition body returns, taken, _, _, h => by
    rw [share] at h
    obtain ⟨⟨body', _⟩, hbody, h⟩ := bind_eq_ok_iff.1 h
    cases h
    exact hP.whenever (hP.of_shareAll hbody)
  | .input .., _, _, _, h => by cases h; exact hP.kept rfl
  | .declare .., _, _, _, h => by cases h; exact hP.kept rfl
  | .assign .., _, _, _, h => by cases h; exact hP.kept rfl
  | .assume _, _, _, _, h => by cases h; exact hP.kept rfl
  | .perform _, _, _, _, h => by cases h; exact hP.kept rfl

/-- The relation holds of every block that is shared. -/
theorem of_shareAll (hP : FollowsSharing P) : ∀ {body : List Stmt} {taken taken' : List String}
    {shared : List Stmt}, shareAll taken body = .ok (shared, taken') → P taken body shared taken'
  | [], taken, _, _, h => by
    cases h
    exact hP.nil taken
  | s :: rest, taken, _, _, h => by
    rw [shareAll] at h
    obtain ⟨⟨first, _⟩, hfirst, h⟩ := bind_eq_ok_iff.1 h
    obtain ⟨⟨others, _⟩, hothers, h⟩ := bind_eq_ok_iff.1 h
    cases h
    exact hP.append (hP.of_share hfirst) (hP.of_shareAll hothers)

end

end FollowsSharing

theorem Rewrites.append {R : Expr → List Stmt → Expr → Prop}
    {body shared rest rest' : List Stmt} (h : Rewrites R body shared)
    (hrest : Rewrites R rest rest') : Rewrites R (body ++ rest) (shared ++ rest') := by
  induction h with
  | nil => exact hrest
  | kept hs _ ih => exact .kept hs ih
  | assert h _ ih =>
    rw [List.append_assoc]
    exact .assert h ih
  | whenever hbody _ _ ih => exact .whenever hbody ih

theorem followsSharing_rewrites :
    FollowsSharing fun _ body shared _ => Rewrites SharesAs body shared where
  kept hs := .kept hs .nil
  assert {_ taken shared} h := .assert ⟨taken, shared.taken, h⟩ .nil
  whenever hbody := .whenever hbody .nil
  nil _ := .nil
  append := Rewrites.append

theorem rewrites_of_shareAll {body shared : List Stmt} {taken taken' : List String}
    (h : shareAll taken body = .ok (shared, taken')) : Rewrites SharesAs body shared :=
  followsSharing_rewrites.of_shareAll h

/-- A block is shared assertion by assertion. -/
theorem rewrites_of_shareCalls {body shared : List Stmt} (h : shareCalls body = .ok shared) :
    Rewrites SharesAs body shared := by
  obtain ⟨⟨_, _⟩, h, heq⟩ := bind_eq_ok_iff.1 h
  cases heq
  exact rewrites_of_shareAll h

namespace Rewrites

variable {R S : Expr → List Stmt → Expr → Prop} {condition : Expr}
  {rest body body' : List Stmt}

theorem of_assert (h : Rewrites R (.assert condition :: rest) body') :
    ∃ declarations condition' rest', body' = declarations ++ .assert condition' :: rest' ∧
      R condition declarations condition' ∧ Rewrites R rest rest' := by
  generalize hbody : .assert condition :: rest = body at h
  cases h with
  | assert h hrest => cases hbody; exact ⟨_, _, _, rfl, h, hrest⟩
  | kept hs => cases hbody; cases hs
  | _ => cases hbody

/-- One assertion, with one declaration before it. -/
theorem of_declaration {type name : String} {init condition' : Expr}
    (h : Rewrites R [.assert condition] [.declare type name init, .assert condition']) :
    R condition [.declare type name init] condition' := by
  obtain ⟨declarations, condition'', rest', heq, h, hrest⟩ := h.of_assert
  cases hrest
  rcases declarations with _ | ⟨d, _ | ⟨d', declarations⟩⟩
  · cases heq
  · cases heq
    exact h
  · simp at heq

theorem everywhere {P : Stmt → Prop}
    (hassert : ∀ condition declarations condition', R condition declarations condition' →
      P (.assert condition) → Everywhere P declarations ∧ P (.assert condition'))
    (hwhenever : ∀ condition body body' returns, P (.whenever condition body returns) →
      P (.whenever condition body' returns))
    (h : Rewrites R body body') : Everywhere P body → Everywhere P body' := by
  induction h with
  | nil => exact id
  | kept _ _ ih => simpa only [everywhere_cons] using And.imp_right ih
  | assert h _ ih =>
    simp only [everywhere_append, everywhere_cons, throughout_assert]
    rintro ⟨hcondition, hrest⟩
    obtain ⟨hdeclarations, hresult⟩ := hassert _ _ _ h hcondition
    exact ⟨hdeclarations, hresult, ih hrest⟩
  | whenever _ _ ihbody ih =>
    simp only [everywhere_cons, throughout_whenever]
    exact fun ⟨⟨hcondition, hbody⟩, hrest⟩ =>
      ⟨⟨hwhenever _ _ _ _ hcondition, ihbody hbody⟩, ih hrest⟩

theorem imp (hRS : ∀ condition declarations condition', R condition declarations condition' →
      S condition declarations condition') (h : Rewrites R body body') : Rewrites S body body' := by
  induction h with
  | nil => exact .nil
  | kept hs _ ih => exact .kept hs ih
  | assert hR _ ih => exact .assert (hRS _ _ _ hR) ih
  | whenever _ _ ihbody ih => exact .whenever ihbody ih

end Rewrites

end Stmt

end ContractTests
