import ContractTests.Proofs.Expr.Same
import ContractTests.Proofs.Sharing.Rounds
import Mathlib.Algebra.Order.BigOperators.Group.List
import Mathlib.Algebra.Order.Group.Nat

/-! # The end of sharing

Every round takes calls out of the condition (`Expr.calls_length_named_lt`), so that the rounds that
`Expr.share` has are enough: `Expr.share_of_some` is the step of the loop without a bound, and
`Expr.exists_course` says that every condition comes to an end, where no call is repeated or a call
has no text.
-/

set_option autoImplicit false

namespace ContractTests.Expr

/-! ## What is repeated -/

/-- The repeated call is found twice or more. -/
theorem isRepeated_of_repeatedAmong {condition e : Expr} {o : Occurrence} {es : List Expr}
    (h : condition.repeatedAmong es = .ok (some (e, o))) : o.isRepeated condition = true := by
  induction es with
  | nil => cases h
  | cons first rest ih =>
    rw [repeatedAmong] at h
    split at h
    · cases h
      assumption
    · split at h
      · obtain ⟨text, -, h⟩ := bind_eq_ok_iff.1 h
        split at h
        · cases h
          assumption
        · exact ih h
      · exact ih h

/-- Where no call is repeated, neither recogniser of a call finds it twice. -/
theorem repeatedAmong_eq_none {condition : Expr} {es : List Expr}
    (h : condition.repeatedAmong es = .ok none) : ∀ e ∈ es,
      (Occurrence.structural e).isRepeated condition = false ∧
        (e.hasFloatLiteral = true →
          ∃ text, e.render = .ok text ∧
            (Occurrence.textual text).isRepeated condition = false) := by
  induction es with
  | nil => exact List.forall_mem_nil _
  | cons first rest ih =>
    rw [repeatedAmong] at h
    split at h
    · cases h
    · rename_i hstructural
      rw [Bool.not_eq_true] at hstructural
      split at h
      · obtain ⟨text, htext, h⟩ := bind_eq_ok_iff.1 h
        split at h
        · cases h
        · rename_i htextual
          rw [Bool.not_eq_true] at htextual
          exact List.forall_mem_cons.2 ⟨⟨hstructural, fun _ => ⟨text, htext, htextual⟩⟩, ih h⟩
      · rename_i hfloat
        exact List.forall_mem_cons.2 ⟨⟨hstructural, fun h => absurd h hfloat⟩, ih h⟩

theorem exists_isAt_of_isRepeated {condition : Expr} {o : Occurrence}
    (h : o.isRepeated condition = true) : ∃ a ∈ condition.subterms, o.isAt a = true := by
  have htwice : 2 ≤ condition.subterms.countP o.isAt := of_decide_eq_true h
  exact List.countP_pos_iff.1 (by omega)

/-- The occurrences of a call are calls. -/
theorem isCall_of_isAt {call a : Expr} {o : Occurrence} (hof : o.IsOf call)
    (hcall : call.isCall = true) (hat : o.isAt a = true) : a.isCall = true := by
  cases hof with
  | structural =>
    rcases parallel_of_same hat with ⟨_, _, -, rfl, -⟩ | hp
    · cases hcall
    · rwa [← hp.isCall_eq]
  | textual _ _ => exact (Occurrence.isAt_textual_iff.1 hat).1

/-! ## Fewer calls -/

/-- The calls of a node are the node itself, if it is one, and those of its children. -/
theorem length_calls_eq (e : Expr) :
    e.calls.length = (if e.isCall then 1 else 0) + (e.children.flatMap calls).length := by
  have hchildren : (e.children.flatMap subterms).filter isCall = e.children.flatMap calls :=
    List.filter_flatMap ..
  rw [calls, subterms_eq, List.filter_cons, hchildren]
  split
  · rw [List.length_cons, Nat.add_comm]
  · rw [Nat.zero_add]

namespace Occurrence

variable {o : Occurrence} {e : Expr}

theorem children_named (h : o.isAt e = false) (name : String) :
    (o.named name e).children = e.children.map (o.named name) := by
  rw [named_of_not_isAt h, children_mapChildren]

/-- Variables in the place of calls leave at most as many calls, and fewer if there is a place. -/
theorem length_calls_named (hcalls : ∀ a ∈ e.subterms, o.isAt a = true → a.isCall = true)
    (name : String) :
    (o.named name e).calls.length ≤ e.calls.length ∧
      ((∃ a ∈ e.subterms, o.isAt a = true) →
        (o.named name e).calls.length < e.calls.length) := by
  induction e using children_induction with
  | node e ih =>
    cases hat : o.isAt e with
    | true =>
      have hpos : 0 < e.calls.length := by
        have hcall := hcalls e (self_mem_subterms e) hat
        exact List.length_pos_of_mem (mem_calls_iff.2 ⟨self_mem_subterms e, hcall⟩)
      have hnone : (o.named name e).calls.length = 0 := by
        rw [named_of_isAt hat]
        rfl
      omega
    | false =>
      have hbelow c (hc : c ∈ e.children) :=
        ih c hc fun a ha => hcalls a (mem_subterms_of_mem_children hc ha)
      rw [length_calls_eq, length_calls_eq e, isCall_named hat, children_named hat, List.flatMap_map,
        Nat.add_le_add_iff_left, Nat.add_lt_add_iff_left, List.length_flatMap, List.length_flatMap]
      refine ⟨List.sum_le_sum fun c hc => (hbelow c hc).1, fun ⟨a, ha, hfound⟩ => ?_⟩
      -- the place is below the node, in one of its children
      rcases mem_subterms_iff.1 ha with rfl | ⟨c, hc, hac⟩
      · rw [hat] at hfound
        cases hfound
      · refine List.sum_lt_sum _ _ (fun c hc => (hbelow c hc).1) ⟨c, hc, ?_⟩
        exact (hbelow c hc).2 ⟨a, hac, hfound⟩

end Occurrence

/-- A round leaves fewer calls. -/
theorem calls_length_named_lt {condition call : Expr} {o : Occurrence}
    (h : condition.repeatedCall = .ok (some (call, o))) (name : String) :
    (o.named name condition).calls.length < condition.calls.length := by
  have hcall := (mem_calls_iff.1 (mem_calls_of_repeatedCall h)).2
  refine (o.length_calls_named (fun a _ hat => ?_) name).2 ?_
  · exact isCall_of_isAt (isOf_of_repeatedCall h) hcall hat
  · exact exists_isAt_of_isRepeated (isRepeated_of_repeatedAmong h)

/-! ## The loop -/

section

variable {condition call : Expr} {o : Occurrence}

/-- As many rounds as there are calls are as good as any greater number. -/
theorem shareWithin_eq_of_le {rounds : Nat} (h : condition.calls.length ≤ rounds)
    (taken : List String) : shareWithin rounds condition taken = condition.share taken := by
  unfold share
  induction hcalls : condition.calls.length using Nat.strongRecOn
    generalizing condition taken rounds with
  | _ calls ih =>
    subst hcalls
    have hnone (hnil : condition.calls.length = 0) : condition.repeatedCall = .ok none := by
      rw [repeatedCall, List.length_eq_zero_iff.1 hnil]
      rfl
    cases hlength : condition.calls.length with
    | zero =>
      cases rounds with
      | zero => rfl
      | succ rounds =>
        rw [shareWithin, shareWithin, hnone hlength]
        rfl
    | succ calls =>
      obtain ⟨rounds, rfl⟩ : ∃ fewer, rounds = fewer + 1 := ⟨rounds - 1, by omega⟩
      rw [shareWithin, shareWithin]
      cases hfound : condition.repeatedCall with
      | error cause => rfl
      | ok found =>
        cases found with
        | none => rfl
        | some found =>
          -- both go on with the calls that are left
          have hfewer := calls_length_named_lt hfound (resultVariable taken found.1)
          change (shareWithin rounds _ _ >>= _) = (shareWithin calls _ _ >>= _)
          rw [ih _ hfewer (by omega) _ rfl, ih _ hfewer (by omega : _ ≤ calls) _ rfl]

theorem share_of_none (h : condition.repeatedCall = .ok none) (taken : List String) :
    condition.share taken = .ok ⟨[], condition, taken⟩ := by
  rw [← shareWithin_eq_of_le (Nat.le_succ _), shareWithin, h]
  rfl

theorem share_of_error {cause : Unsupported} (h : condition.repeatedCall = .error cause)
    (taken : List String) : condition.share taken = .error cause := by
  rw [← shareWithin_eq_of_le (Nat.le_succ _), shareWithin, h]
  rfl

/-- A repeated call is declared, and sharing goes on with the variable in its place. -/
theorem share_of_some (h : condition.repeatedCall = .ok (some (call, o))) (taken : List String) :
    condition.share taken = (do
      let name := resultVariable taken call
      let shared ← (o.named name condition).share (taken ++ [name])
      return { shared with declarations := .declare "var" name call :: shared.declarations }) := by
  have hfewer := calls_length_named_lt h (resultVariable taken call)
  rw [← shareWithin_eq_of_le (Nat.le_succ _), shareWithin, h]
  change (shareWithin _ _ _ >>= _) = _
  rw [shareWithin_eq_of_le hfewer.le]

end

/-- The rounds lead to a condition where no call is repeated, and sharing gives it with their
declarations, or to one where a call has no text, and sharing fails. Each round leaves fewer
calls. -/
structure Course (condition : Expr) (taken : List String) (rounds : List Round) (last : Expr) :
    Prop where
  leads : Rounds condition taken rounds last
  fewer : ∀ r ∈ rounds,
    (r.occurrence.named r.name r.condition).calls.length < r.condition.calls.length
  ending :
    last.repeatedCall = .ok none ∧
        condition.share taken =
          .ok ⟨rounds.map Round.declaration, last, taken ++ rounds.map Round.name⟩ ∨
      ∃ cause, last.repeatedCall = .error cause ∧ condition.share taken = .error cause

/-- Every condition has its course. -/
theorem exists_course (condition : Expr) (taken : List String) :
    ∃ rounds last, Course condition taken rounds last := by
  induction hcalls : condition.calls.length using Nat.strongRecOn generalizing condition taken with
  | _ calls ih =>
    subst hcalls
    cases hfound : condition.repeatedCall with
    | error cause =>
      exact ⟨[], condition, .done _ _, nofun, .inr ⟨cause, hfound, share_of_error hfound taken⟩⟩
    | ok found =>
      cases found with
      | none =>
        refine ⟨[], condition, .done _ _, nofun, .inl ⟨hfound, ?_⟩⟩
        rw [share_of_none hfound, List.map_nil, List.map_nil, List.append_nil]
      | some found =>
        obtain ⟨call, o⟩ := found
        set name := resultVariable taken call
        have hfewer := calls_length_named_lt hfound name
        obtain ⟨rounds, last, hrounds, hrest, hending⟩ :=
          ih _ hfewer (o.named name condition) (taken ++ [name]) rfl
        refine ⟨⟨condition, call, o, name⟩ :: rounds, last, .round hfound hrounds,
          List.forall_mem_cons.2 ⟨hfewer, hrest⟩, ?_⟩
        rw [share_of_some hfound]
        refine hending.imp (fun ⟨hnone, hshare⟩ => ⟨hnone, ?_⟩) fun ⟨cause, hcause, hshare⟩ =>
          ⟨cause, hcause, ?_⟩
        · change ((o.named name condition).share (taken ++ [name]) >>= _) = _
          rw [hshare, List.append_assoc]
          rfl
        · change ((o.named name condition).share (taken ++ [name]) >>= _) = _
          rw [hshare]
          rfl

/-- The rounds of a condition that is shared, up to their end. -/
theorem course_of_share {condition : Expr} {taken : List String} {shared : Shared}
    (h : condition.share taken = .ok shared) :
    ∃ rounds, Rounds condition taken rounds shared.condition ∧
      shared = ⟨rounds.map Round.declaration, shared.condition, taken ++ rounds.map Round.name⟩ ∧
      shared.condition.repeatedCall = .ok none := by
  obtain ⟨rounds, last, hrounds, -, ⟨hnone, hshare⟩ | ⟨cause, -, hshare⟩⟩ :=
    exists_course condition taken
  · cases h.symm.trans hshare
    exact ⟨rounds, hrounds, rfl, hnone⟩
  · cases h.symm.trans hshare

end ContractTests.Expr
