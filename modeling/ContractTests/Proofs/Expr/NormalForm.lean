import ContractTests.Expr.PostState
import ContractTests.Proofs.Expr.Traversal

/-! # The normal form of post-state

No node of a normal form is one of the notations that `Expr.normalForm` replaces
(`Expr.marked?_eq_none_of_mem_normalForm`), so that a second pass changes nothing.
-/

set_option autoImplicit false

namespace ContractTests.Expr

/-! ## Passes that change nothing -/

theorem Parallel.eq {e e' : Expr} (h : Parallel Eq e e') : e = e' := by
  cases h with
  | map hes =>
    have hentries : (fun p q : Expr × Expr => p.1 = q.1 ∧ p.2 = q.2) = Eq := by
      funext p q
      rw [Prod.ext_iff]
    rw [hentries, List.forall₂_eq_eq_eq] at hes
    rw [hes]
  | _ => simp_all [List.forall₂_eq_eq_eq]

theorem mapChildren_eq_self {f : Expr → Expr} {e : Expr} (h : ∀ c ∈ e.children, f c = c) :
    e.mapChildren f = e := by
  have hp := (mapChildren_parallel f e).imp fun c hc c' _ hcc' => (h c hc).symm.trans hcc'
  exact hp.eq.symm

/-- Where nothing is replaced, all stays as it is. -/
theorem replace_eq_self {step : Expr → Option Expr} {e : Expr}
    (h : ∀ x ∈ e.subterms, step x = none) : e.replace step = e := by
  induction e using children_induction with
  | node e ih =>
    rw [replace_of_none (h e (self_mem_subterms e))]
    refine mapChildren_eq_self fun c hc => ih c hc fun x hx => h x ?_
    exact mem_subterms_of_mem_children hc hx

/-! ## Notations -/

/-- An unmarked node is not marked by what becomes of its children, if none becomes a variable. -/
theorem Parallel.marked?_eq_none {e e' : Expr}
    (h : Parallel (fun c c' => ∀ name, c' = .var name → c = .var name) e e')
    (he : e.marked? = none) : e'.marked? = none := by
  cases h with
  | call name hes =>
    cases hes with
    | nil => rfl
    | @cons a a' as as' ha has =>
      cases has with
      | cons => cases a' <;> rfl
      | nil =>
        cases a' with
        | var v =>
          rw [ha v rfl] at he
          exact he
        | _ => rfl
  | _ => exact he

/-- No notation is left, and only a variable has become a variable. -/
theorem normalForm_spec (e : Expr) :
    (∀ x ∈ e.normalForm.subterms, x.marked? = none) ∧
      ∀ name, e.normalForm = .var name → e = .var name := by
  refine replace_spec (P := fun e e' => (∀ x ∈ e'.subterms, x.marked? = none) ∧
    ∀ name, e' = .var name → e = .var name) (fun e e' hstep => ?_) (fun e e' hstep hp => ?_) e
  · obtain ⟨name, -, rfl⟩ := Option.map_eq_some_iff.1 hstep
    exact ⟨fun x hx => by rw [List.mem_singleton.1 hx]; rfl, nofun⟩
  · have hunmarked : e.marked? = none := Option.map_eq_none_iff.1 hstep
    refine ⟨fun x hx => ?_, ?_⟩
    · rcases mem_subterms_iff.1 hx with rfl | ⟨c', hc', hx⟩
      · exact (hp.imp fun _ _ _ _ hcc' => hcc'.2).marked?_eq_none hunmarked
      · obtain ⟨c, -, hcc'⟩ := exists_of_mem_right hp.children hc'
        exact hcc'.1 x hx
    · rintro name rfl
      exact hp.eq_of_children_eq_nil rfl

theorem marked?_eq_none_of_mem_normalForm {x e : Expr} (hx : x ∈ e.normalForm.subterms) :
    x.marked? = none :=
  (normalForm_spec e).1 x hx

/-- A normal form is its own normal form. -/
theorem normalForm_normalForm (e : Expr) : e.normalForm.normalForm = e.normalForm :=
  replace_eq_self fun _ hx => by rw [marked?_eq_none_of_mem_normalForm hx, Option.map_none]

/-! ## Joined clauses -/

theorem normalForm_binary (op : BinaryOp) (left right : Expr) :
    (binary op left right).normalForm = binary op left.normalForm right.normalForm := by
  rw [normalForm, replace_of_none rfl]
  rfl

/-- The normal form of joined clauses joins their normal forms. -/
theorem normalForm_foldl (op : BinaryOp) (e : Expr) (rest : List Expr) :
    (rest.foldl (binary op) e).normalForm =
      (rest.map normalForm).foldl (binary op) e.normalForm := by
  induction rest generalizing e with
  | nil => rfl
  | cons next rest ih => rw [List.foldl_cons, ih, normalForm_binary, List.map_cons, List.foldl_cons]

end ContractTests.Expr
