import ContractTests.Proofs.Expr.Value

/-! # Expressions that are the same

Two expressions that are `same` differ at most in floats that are equal as numbers: zeros of
different signs. `value_eq_of_same`: an interpretation that does not tell these floats apart gives
the two expressions one value.
-/

set_option autoImplicit false

universe u

namespace ContractTests.Expr

theorem sameAll_iff {es es' : List Expr} :
    sameAll es es' = true ↔ List.Forall₂ (fun e e' => e.same e' = true) es es' := by
  induction es generalizing es' with
  | nil => cases es' <;> simp [sameAll]
  | cons e es ih => cases es' <;> simp [sameAll, ih]

theorem sameEntries_iff {es es' : List (Expr × Expr)} :
    sameEntries es es' = true ↔
      List.Forall₂ (fun p q => p.1.same q.1 = true ∧ p.2.same q.2 = true) es es' := by
  induction es generalizing es' with
  | nil => cases es' <;> simp [sameEntries]
  | cons p es ih => cases es' <;> simp [sameEntries, ih]

/-- Literals that are the same are one literal, or two floats that are equal as numbers. -/
theorem literal_eq_of_same {x y : Literal} (h : x.same y = true) :
    x = y ∨ ∃ a b, x = .float a ∧ y = .float b ∧ a.same b = true := by
  unfold Literal.same at h
  split at h
  · exact .inr ⟨_, _, rfl, rfl, h⟩
  · exact .inl (beq_iff_eq.1 h)

/-- Two nodes that are the same are literals or the same node around children that are the same. -/
theorem parallel_of_same {e e' : Expr} (h : e.same e' = true) :
    (∃ x y : Literal, e = .literal x ∧ e' = .literal y ∧ x.same y = true) ∨
      Parallel (fun c c' => c.same c' = true) e e' := by
  unfold same at h
  split at h
  · exact .inl ⟨_, _, rfl, rfl, h⟩
  all_goals
    simp only [Bool.and_eq_true, beq_iff_eq, sameAll_iff, sameEntries_iff, Bool.false_eq_true] at h
  all_goals right; grind [Parallel]

/-- Two expressions that are the same have one value when their floats that are equal as numbers do.
-/
theorem value_eq_of_same {α : Type u} {I : Interpretation α} {r : Reading α}
    (hscalar : ∀ name, r.isScalar name = false) {e e' : Expr} (h : e.same e' = true)
    (hfloats : ∀ x y, .literal (.float x) ∈ e.subterms → .literal (.float y) ∈ e'.subterms →
      x.same y = true → I.literal (.float x) = I.literal (.float y)) :
    e.value I r = e'.value I r := by
  induction e using children_induction generalizing e' with
  | node e ih =>
    rcases parallel_of_same h with ⟨x, y, rfl, rfl, hxy⟩ | hp
    · simp only [value]
      rcases literal_eq_of_same hxy with rfl | ⟨a, b, rfl, rfl, hab⟩
      · rfl
      · exact hfloats a b (self_mem_subterms _) (self_mem_subterms _) hab
    · refine (value_eq_of_parallel (hp.imp fun c hc c' hc' hcc' => ?_) (fun _ _ => rfl)
        (fun _ _ => rfl) (fun base _ _ => isScalarBase_eq_false hscalar base) hscalar).symm
      refine (ih c hc hcc' fun x y hx hy => ?_).symm
      exact hfloats x y (mem_subterms_of_mem_children hc hx) (mem_subterms_of_mem_children hc' hy)

end ContractTests.Expr
