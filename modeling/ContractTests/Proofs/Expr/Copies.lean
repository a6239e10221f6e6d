import ContractTests.Java.Expression
import ContractTests.Proofs.Expr.NormalForm
import ContractTests.Proofs.Expr.Same

/-! # Copies of an expression

Copies are expressions with one text that differ at most in which NaN stands for a NaN. `Expr.same`
is too coarse for that, as it takes zeros of different signs to be the same, and too fine, as it
holds of no expression with a NaN in it (`Expr.same_self_iff`). A copy of an expression without NaN
is the expression itself (`Expr.IsCopyOf.eq_of_same`), and copies have one value where NaN is one
value (`Expr.IsCopyOf.value_eq`).
-/

set_option autoImplicit false

universe u

namespace ContractTests.Expr

/-! ## Expressions that are the same as themselves -/

theorem same_of_parallel {e e' : Expr} (h : Parallel (fun c c' => c.same c' = true) e e')
    (hliteral : ∀ value, e = .literal value → value.same value = true) : e.same e' = true := by
  cases h with
  | literal value => exact hliteral value rfl
  | _ => simp_all [same, sameAll_iff, sameEntries_iff]

/-- A node around its own children. -/
theorem parallel_self {R : Expr → Expr → Prop} {e : Expr} (h : ∀ c ∈ e.children, R c c) :
    Parallel R e e := by
  have hid : e.mapChildren id = e := mapChildren_eq_self fun _ _ => rfl
  have hp := mapChildren_parallel id e
  rw [hid] at hp
  exact hp.imp fun c hc c' _ (heq : c = c') => heq ▸ h c hc

theorem literal_same_self_iff (value : Literal) :
    value.same value = true ↔ ∀ x, value = .float x → x.isNaN = false := by
  cases value <;> simp [Literal.same, Double.same]

/-- What an expression is the same as has no NaN in it. -/
theorem isNaN_eq_false_of_same {e e' : Expr} (h : e.same e' = true) :
    ∀ x, .literal (.float x) ∈ e'.subterms → x.isNaN = false := by
  induction e' using children_induction generalizing e with
  | node e' ih =>
    intro x hx
    rcases mem_subterms_iff.1 hx with rfl | ⟨c', hc', hxc⟩
    · cases e with
      | literal value =>
        rw [same] at h
        cases value with
        | float y => simp_all [Literal.same, Double.same]
        | _ => cases h
      | _ => simp [same] at h
    · rcases parallel_of_same h with ⟨_, _, -, rfl, -⟩ | hp
      · cases hc'
      · obtain ⟨c, -, hcc'⟩ := exists_of_mem_right hp.children hc'
        exact ih c' hc' hcc' x hxc

/-- An expression is the same as itself when no float in it is NaN. -/
theorem same_self_iff {e : Expr} :
    e.same e = true ↔ ∀ x, .literal (.float x) ∈ e.subterms → x.isNaN = false := by
  refine ⟨isNaN_eq_false_of_same, fun h => ?_⟩
  induction e using children_induction with
  | node e ih =>
    refine same_of_parallel (parallel_self fun c hc => ih c hc fun x hx =>
      h x (mem_subterms_of_mem_children hc hx)) fun value hvalue => ?_
    subst hvalue
    refine (literal_same_self_iff value).2 fun x hx => h x ?_
    rw [hx]
    exact self_mem_subterms _

/-! ## One datum for all NaNs -/

/-- The datum that stands for a NaN. -/
def nanOf? : Expr → Option Expr
  | .literal (.float x) => if x.isNaN then some (.literal (.float .nan)) else none
  | _ => none

/-- The expression with one datum for all NaNs. -/
def canonical (e : Expr) : Expr := e.replace nanOf?

/-- The expressions have one text and differ at most in which NaN stands for a NaN. -/
structure IsCopyOf (e e' : Expr) : Prop where
  canonical_eq : e.canonical = e'.canonical
  render_eq : e.render = e'.render

theorem nanOf?_eq_some {e e' : Expr} (h : nanOf? e = some e') :
    ∃ x : Double, x.isNaN = true ∧ e = .literal (.float x) ∧ e' = .literal (.float .nan) := by
  unfold nanOf? at h
  split at h
  · split at h
    · cases h
      exact ⟨_, by assumption, rfl, rfl⟩
    · cases h
  · cases h

theorem nanOf?_eq_none {e : Expr} (h : ∀ x, e = .literal (.float x) → x.isNaN = false) :
    nanOf? e = none := by
  unfold nanOf?
  split
  · rw [if_neg (by simp [h _ rfl])]
  · rfl

theorem canonical_of_none {e : Expr} (h : nanOf? e = none) :
    e.canonical = e.mapChildren canonical :=
  replace_of_none h

/-- A copy of an expression without NaN is the expression itself. -/
theorem IsCopyOf.eq_of_same {e e' : Expr} (h : e.IsCopyOf e') (hsame : e'.same e' = true) :
    e = e' := by
  have hnumbers := same_self_iff.1 hsame
  have hself : e'.canonical = e' := replace_eq_self fun x hx => nanOf?_eq_none fun y hy =>
    hnumbers y (hy ▸ hx)
  have hcanonical : e.canonical = e' := h.canonical_eq.trans hself
  clear h hself hsame
  induction e using children_induction generalizing e' with
  | node e ih =>
    cases hs : nanOf? e with
    | some answer =>
      obtain ⟨x, -, rfl, rfl⟩ := nanOf?_eq_some hs
      have hnan : e' = .literal (.float .nan) := hcanonical.symm.trans (replace_of_some hs)
      exact absurd (hnumbers .nan (hnan ▸ self_mem_subterms _)) (by decide)
    | none =>
      rw [canonical_of_none hs] at hcanonical
      have hchildren : ∀ c ∈ e.children, c.canonical = c := fun c hc => by
        have hmem : c.canonical ∈ e'.children := by
          rw [← hcanonical, children_mapChildren]
          exact List.mem_map_of_mem hc
        exact (ih c hc (fun x hx => hnumbers x (mem_subterms_of_mem_children hmem hx)) rfl).symm
      rw [← hcanonical, mapChildren_eq_self hchildren]

/-! ## What copies have in common -/

/-- One datum for all NaNs does not change the value where NaN is one value. -/
theorem value_canonical {α : Type u} {I : Interpretation α} {r : Reading α}
    (hscalar : ∀ name, r.isScalar name = false)
    (hnan : ∀ x : Double, x.isNaN = true → I.literal (.float x) = I.literal (.float .nan))
    (e : Expr) : e.canonical.value I r = e.value I r := by
  induction e using children_induction with
  | node e ih =>
    cases hs : nanOf? e with
    | some answer =>
      obtain ⟨x, hx, rfl, rfl⟩ := nanOf?_eq_some hs
      rw [canonical, replace_of_some hs]
      exact (hnan x hx).symm
    | none =>
      rw [canonical_of_none hs]
      have hp := (mapChildren_parallel canonical e).imp
        fun c hc c' _ (heq : c.canonical = c') => heq ▸ ih c hc
      exact value_eq_of_parallel hp (fun _ _ => rfl) (fun _ _ => rfl)
        (fun base _ _ => isScalarBase_eq_false hscalar base) hscalar

theorem isCall_canonical (e : Expr) : e.canonical.isCall = e.isCall := by
  cases hs : nanOf? e with
  | some answer =>
    obtain ⟨x, -, rfl, rfl⟩ := nanOf?_eq_some hs
    rw [canonical, replace_of_some hs]
    rfl
  | none =>
    rw [canonical_of_none hs]
    exact (mapChildren_parallel _ e).isCall_eq

theorem var_mem_subterms_canonical {name : String} {e : Expr} :
    .var name ∈ e.canonical.subterms ↔ .var name ∈ e.subterms := by
  induction e using children_induction with
  | node e ih =>
    cases hs : nanOf? e with
    | some answer =>
      obtain ⟨x, -, rfl, rfl⟩ := nanOf?_eq_some hs
      rw [canonical, replace_of_some hs]
      simp [subterms]
    | none =>
      have hnode : .var name = e.mapChildren canonical ↔ .var name = e := by
        have hp := mapChildren_parallel canonical e
        generalize e.mapChildren canonical = e' at hp
        cases hp <;> simp
      rw [canonical_of_none hs, mem_subterms_iff, mem_subterms_iff, hnode, children_mapChildren]
      refine or_congr_right ⟨?_, ?_⟩
      · rintro ⟨c', hc', hvar⟩
        obtain ⟨c, hc, rfl⟩ := List.mem_map.1 hc'
        exact ⟨c, hc, (ih c hc).1 hvar⟩
      · rintro ⟨c, hc, hvar⟩
        exact ⟨c.canonical, List.mem_map_of_mem hc, (ih c hc).2 hvar⟩

namespace IsCopyOf

variable {e e' e'' : Expr}

theorem refl (e : Expr) : e.IsCopyOf e := ⟨rfl, rfl⟩

theorem symm (h : e.IsCopyOf e') : e'.IsCopyOf e := ⟨h.canonical_eq.symm, h.render_eq.symm⟩

theorem trans (h : e.IsCopyOf e') (h' : e'.IsCopyOf e'') : e.IsCopyOf e'' :=
  ⟨h.canonical_eq.trans h'.canonical_eq, h.render_eq.trans h'.render_eq⟩

theorem isCall_eq (h : e.IsCopyOf e') : e.isCall = e'.isCall := by
  rw [← isCall_canonical, h.canonical_eq, isCall_canonical]

/-- Copies have one value where NaN is one value. -/
theorem value_eq {α : Type u} {I : Interpretation α} {r : Reading α} (h : e.IsCopyOf e')
    (hscalar : ∀ name, r.isScalar name = false)
    (hnan : ∀ x : Double, x.isNaN = true → I.literal (.float x) = I.literal (.float .nan)) :
    e.value I r = e'.value I r := by
  rw [← value_canonical hscalar hnan, h.canonical_eq, value_canonical hscalar hnan]

theorem var_mem_iff (h : e.IsCopyOf e') {name : String} :
    .var name ∈ e.subterms ↔ .var name ∈ e'.subterms := by
  rw [← var_mem_subterms_canonical, h.canonical_eq, var_mem_subterms_canonical]

end IsCopyOf

end ContractTests.Expr
