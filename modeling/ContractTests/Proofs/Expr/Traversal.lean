import ContractTests.Expr.Traversal
import Mathlib.Data.List.Forall2

/-! # Passes over expressions

A pass looks at a node and then at its children. `Expr.children_induction` is induction along
`Expr.children`. `Expr.Parallel R e e'` says that `e'` is the node `e` around children related to
those of `e` by `R`, one by one: what `mapChildrenM` makes of a node when it succeeds
(`mapChildrenM_eq_ok_iff`). `replaceM_spec` and `replace_spec` are the principles of replacement
from the top: a relation that holds of every answered node and its answer, and that goes over from
the children to an unanswered node, holds of every expression and its result.
-/

set_option autoImplicit false

namespace ContractTests

/-! ## Results and lists -/

theorem bind_eq_ok_iff {ε α β : Type} {x : Except ε α} {f : α → Except ε β} {b : β} :
    (x >>= f) = .ok b ↔ ∃ a, x = .ok a ∧ f a = .ok b := by
  cases x <;> simp [bind, Except.bind]

theorem map_eq_ok_iff {ε α β : Type} {f : α → β} {x : Except ε α} {b : β} :
    x.map f = .ok b ↔ ∃ a, x = .ok a ∧ f a = b := by
  cases x <;> simp [Except.map]

theorem mapM_eq_ok_iff {ε α β : Type} {f : α → Except ε β} {xs : List α} {ys : List β} :
    xs.mapM f = .ok ys ↔ List.Forall₂ (fun x y => f x = .ok y) xs ys := by
  induction xs generalizing ys with
  | nil => simp [pure, Except.pure, eq_comm]
  | cons x xs ih =>
    simp only [List.mapM_cons, bind_eq_ok_iff, ih, pure, Except.pure, Except.ok.injEq]
    cases ys with
    | nil => simp
    | cons y ys => simp

/-- A traversal fails where the first element does. -/
theorem mapM_eq_error_iff {ε α β : Type} {f : α → Except ε β} {xs : List α} {cause : ε} :
    xs.mapM f = .error cause ↔ ∃ before x after, xs = before ++ x :: after ∧
      (∀ y ∈ before, ∃ z, f y = .ok z) ∧ f x = .error cause := by
  induction xs with
  | nil => simp [pure, Except.pure]
  | cons first rest ih =>
    rw [List.mapM_cons]
    cases hfirst : f first with
    | error other =>
      constructor
      · intro h
        cases h
        exact ⟨[], first, rest, rfl, List.forall_mem_nil _, hfirst⟩
      · rintro ⟨before, x, after, hsplit, hbefore, hx⟩
        cases before with
        | nil =>
          cases hsplit
          exact congrArg Except.error (Except.error.inj (hfirst.symm.trans hx))
        | cons y before =>
          cases hsplit
          obtain ⟨z, hz⟩ := hbefore _ List.mem_cons_self
          rw [hfirst] at hz
          cases hz
    | ok z =>
      have hrest : (do let ys ← rest.mapM f; pure (z :: ys) : Except ε (List β)) = .error cause ↔
          rest.mapM f = .error cause := by
        cases rest.mapM f <;> simp [bind, Except.bind, pure, Except.pure]
      refine Iff.trans hrest (ih.trans ?_)
      constructor
      · rintro ⟨before, x, after, rfl, hbefore, hx⟩
        exact ⟨first :: before, x, after, rfl, List.forall_mem_cons.2 ⟨⟨z, hfirst⟩, hbefore⟩, hx⟩
      · rintro ⟨before, x, after, hsplit, hbefore, hx⟩
        cases before with
        | nil =>
          cases hsplit
          rw [hfirst] at hx
          cases hx
        | cons y before =>
          cases hsplit
          exact ⟨before, x, after, rfl, (List.forall_mem_cons.1 hbefore).2, hx⟩

theorem forall₂_imp_of_mem {α β : Type} {R S : α → β → Prop} {xs : List α} {ys : List β}
    (h : List.Forall₂ R xs ys) (hs : ∀ x ∈ xs, ∀ y ∈ ys, R x y → S x y) :
    List.Forall₂ S xs ys := by
  induction h with
  | nil => exact .nil
  | cons hxy _ ih =>
    refine .cons (hs _ List.mem_cons_self _ List.mem_cons_self hxy) (ih fun x hx y hy => ?_)
    exact hs x (List.mem_cons_of_mem _ hx) y (List.mem_cons_of_mem _ hy)

theorem exists_of_mem_right {α β : Type} {R : α → β → Prop} {xs : List α} {ys : List β} {y : β}
    (h : List.Forall₂ R xs ys) (hy : y ∈ ys) : ∃ x ∈ xs, R x y := by
  induction h with
  | nil => cases hy
  | cons hxy _ ih =>
    rcases List.mem_cons.1 hy with rfl | hy
    · exact ⟨_, List.mem_cons_self, hxy⟩
    · obtain ⟨x, hx, hxy⟩ := ih hy
      exact ⟨x, List.mem_cons_of_mem _ hx, hxy⟩

theorem map_eq_map_of_forall₂ {α β γ : Type*} {f : α → γ} {g : β → γ} {xs : List α} {ys : List β}
    (h : List.Forall₂ (fun x y => g y = f x) xs ys) : ys.map g = xs.map f := by
  induction h with
  | nil => rfl
  | cons hxy _ ih => rw [List.map_cons, List.map_cons, hxy, ih]

theorem nodup_eraseDups {α : Type} [BEq α] [LawfulBEq α] (xs : List α) : xs.eraseDups.Nodup := by
  induction hlength : xs.length using Nat.strongRecOn generalizing xs with
  | _ length ih =>
    cases xs with
    | nil => exact List.nodup_nil
    | cons first rest =>
      have hshorter := List.length_filter_le (fun other => !other == first) rest
      rw [List.length_cons] at hlength
      rw [List.eraseDups_cons, List.nodup_cons, List.mem_eraseDups]
      exact ⟨by simp, ih _ (by omega) _ rfl⟩

namespace Expr

/-! ## Induction -/

/-- Induction along the children of a node. -/
theorem children_induction {P : Expr → Prop}
    (node : ∀ e : Expr, (∀ c ∈ e.children, P c) → P e) (e : Expr) : P e := by
  refine @Expr.rec P (fun es => ∀ e ∈ es, P e) (fun es => ∀ p ∈ es, P p.1 ∧ P p.2)
    (fun p => P p.1 ∧ P p.2) ?literal ?var ?postState ?binary ?unary ?field ?index ?call ?send
    ?create ?set ?map ?tuple ?conditional ?cast ?self ?nil ?cons ?noEntry ?consEntry ?entry e
  case map =>
    intro es ih
    refine node _ fun c hc => ?_
    simp only [children, List.mem_flatMap, List.mem_cons, List.not_mem_nil, or_false] at hc
    obtain ⟨p, hp, rfl | rfl⟩ := hc
    · exact (ih p hp).1
    · exact (ih p hp).2
  case nil => simp
  case cons => simp only [List.forall_mem_cons]; exact fun _ _ ha has => ⟨ha, has⟩
  case noEntry => simp
  case consEntry => simp only [List.forall_mem_cons]; exact fun _ _ ha has => ⟨ha, has⟩
  case entry => exact fun _ _ ha hb => ⟨ha, hb⟩
  all_goals intros; refine node _ ?_; simp_all [children]

/-! ## Subterms -/

theorem subtermsAll_eq (es : List Expr) : subtermsAll es = es.flatMap subterms := by
  induction es with
  | nil => rfl
  | cons e es ih => rw [subtermsAll, ih, List.flatMap_cons]

theorem subtermsEntries_eq (es : List (Expr × Expr)) :
    subtermsEntries es = (es.flatMap fun p => [p.1, p.2]).flatMap subterms := by
  induction es with
  | nil => rfl
  | cons p es ih =>
    obtain ⟨key, value⟩ := p
    simp [subtermsEntries, ih]

/-- The node itself, and then the subterms of its children. -/
theorem subterms_eq (e : Expr) : e.subterms = e :: e.children.flatMap subterms := by
  cases e <;> simp [subterms, children, subtermsAll_eq, subtermsEntries_eq]

theorem mem_subterms_iff {x e : Expr} :
    x ∈ e.subterms ↔ x = e ∨ ∃ c ∈ e.children, x ∈ c.subterms := by
  rw [subterms_eq, List.mem_cons, List.mem_flatMap]

theorem self_mem_subterms (e : Expr) : e ∈ e.subterms := mem_subterms_iff.2 (.inl rfl)

theorem mem_subterms_of_mem_children {x c e : Expr} (hc : c ∈ e.children) (hx : x ∈ c.subterms) :
    x ∈ e.subterms :=
  mem_subterms_iff.2 (.inr ⟨c, hc, hx⟩)

theorem subterms_trans {x y e : Expr} (hxy : x ∈ y.subterms) (hy : y ∈ e.subterms) :
    x ∈ e.subterms := by
  induction e using children_induction with
  | node e ih =>
    rcases mem_subterms_iff.1 hy with rfl | ⟨c, hc, hyc⟩
    · exact hxy
    · exact mem_subterms_of_mem_children hc (ih c hc hyc)

/-! ## Nodes around other children -/

/-- The same node around children that are related one by one. -/
inductive Parallel (R : Expr → Expr → Prop) : Expr → Expr → Prop
  | literal (value : Literal) : Parallel R (.literal value) (.literal value)
  | var (name : String) : Parallel R (.var name) (.var name)
  | postState (name : String) : Parallel R (.postState name) (.postState name)
  | binary (op : BinaryOp) {a b a' b' : Expr} (ha : R a a') (hb : R b b') :
      Parallel R (.binary op a b) (.binary op a' b')
  | unary (op : UnaryOp) {a a' : Expr} (ha : R a a') : Parallel R (.unary op a) (.unary op a')
  | field {a a' : Expr} (ha : R a a') (name : String) :
      Parallel R (.field a name) (.field a' name)
  | index {a b a' b' : Expr} (ha : R a a') (hb : R b b') :
      Parallel R (.index a b) (.index a' b')
  | call (name : String) {es es' : List Expr} (hes : List.Forall₂ R es es') :
      Parallel R (.call name es) (.call name es')
  | send {a a' : Expr} (ha : R a a') (name : String) {es es' : List Expr}
      (hes : List.Forall₂ R es es') : Parallel R (.send a name es) (.send a' name es')
  | create (type : String) {es es' : List Expr} (hes : List.Forall₂ R es es') :
      Parallel R (.create type es) (.create type es')
  | set {es es' : List Expr} (hes : List.Forall₂ R es es') : Parallel R (.set es) (.set es')
  | map {es es' : List (Expr × Expr)}
      (hes : List.Forall₂ (fun p q => R p.1 q.1 ∧ R p.2 q.2) es es') :
      Parallel R (.map es) (.map es')
  | tuple {es es' : List Expr} (hes : List.Forall₂ R es es') : Parallel R (.tuple es) (.tuple es')
  | conditional {a b c a' b' c' : Expr} (ha : R a a') (hb : R b b') (hc : R c c') :
      Parallel R (.conditional a b c) (.conditional a' b' c')
  | cast (type : String) {a a' : Expr} (ha : R a a') : Parallel R (.cast type a) (.cast type a')
  | self : Parallel R .self .self

namespace Parallel

variable {R S : Expr → Expr → Prop} {e e' : Expr}

/-- The children are related pairwise. -/
theorem children (h : Parallel R e e') : List.Forall₂ R e.children e'.children := by
  cases h with
  | map hes =>
    simp only [Expr.children]
    induction hes with
    | nil => exact .nil
    | cons hpq _ ih => exact .cons hpq.1 (.cons hpq.2 ih)
  | _ => simp_all [Expr.children]

theorem imp (h : Parallel R e e')
    (hs : ∀ c ∈ e.children, ∀ c' ∈ e'.children, R c c' → S c c') : Parallel S e e' := by
  cases h with
  | map hes =>
    refine .map (forall₂_imp_of_mem hes fun p hp q hq hpq =>
      ⟨hs _ (List.mem_flatMap.2 ⟨p, hp, ?_⟩) _ (List.mem_flatMap.2 ⟨q, hq, ?_⟩) hpq.1,
        hs _ (List.mem_flatMap.2 ⟨p, hp, ?_⟩) _ (List.mem_flatMap.2 ⟨q, hq, ?_⟩) hpq.2⟩) <;> simp
  | call _ hes => exact .call _ (forall₂_imp_of_mem hes hs)
  | create _ hes => exact .create _ (forall₂_imp_of_mem hes hs)
  | set hes => exact .set (forall₂_imp_of_mem hes hs)
  | tuple hes => exact .tuple (forall₂_imp_of_mem hes hs)
  | send ha _ hes =>
    refine .send (hs _ List.mem_cons_self _ List.mem_cons_self ha) _
      (forall₂_imp_of_mem hes fun c hc c' hc' => ?_)
    exact hs c (List.mem_cons_of_mem _ hc) c' (List.mem_cons_of_mem _ hc')
  | _ =>
    constructor <;>
      exact hs _ (by simp [Expr.children]) _ (by simp [Expr.children]) (by assumption)

/-- A node without children is only related to itself. -/
theorem eq_of_children_eq_nil (h : Parallel R e e') (hleaf : e'.children = []) : e = e' := by
  have hnil : e.children = [] := by
    have hchildren := h.children
    rw [hleaf] at hchildren
    exact List.forall₂_nil_right_iff.1 hchildren
  cases h with
  | map hes =>
    cases hes with
    | nil => rfl
    | cons _ _ => simp [Expr.children] at hleaf
  | _ => simp_all [Expr.children]

theorem isCall_eq (h : Parallel R e e') : e'.isCall = e.isCall := by cases h <;> rfl

theorem postState?_eq (h : Parallel R e e') : e'.postState? = e.postState? := by cases h <;> rfl

end Parallel

/-! ## What holds of every node -/

/-- The predicate holds of the expression and of all its subterms. -/
def Everywhere (Q : Expr → Prop) (e : Expr) : Prop := ∀ x ∈ e.subterms, Q x

/-- The predicate does not look at the children of a node. -/
def IgnoresChildren (Q : Expr → Prop) : Prop :=
  ∀ (R : Expr → Expr → Prop) (e e' : Expr), Parallel R e e' → Q e → Q e'

section

variable {Q : Expr → Prop} {e e' : Expr}

theorem everywhere_iff : Everywhere Q e ↔ Q e ∧ ∀ c ∈ e.children, Everywhere Q c := by
  unfold Everywhere
  rw [subterms_eq, List.forall_mem_cons, List.forall_mem_flatMap]

theorem Everywhere.subterm {x : Expr} (h : Everywhere Q e) (hx : x ∈ e.subterms) :
    Everywhere Q x :=
  fun y hy => h y (subterms_trans hy hx)

/-- A pass keeps what holds of every node if it does so at a node of which it keeps the children. -/
theorem Parallel.everywhere (hQ : IgnoresChildren Q)
    (hp : Parallel (fun _ c' => Everywhere Q c') e e') (h : Q e) : Everywhere Q e' := by
  refine everywhere_iff.2 ⟨hQ _ _ _ hp h, fun c' hc' => ?_⟩
  obtain ⟨_, -, hc⟩ := exists_of_mem_right hp.children hc'
  exact hc

/-- A pass keeps what holds of every node if it does so below a node that it rebuilds. -/
theorem Parallel.everywhere_of_imp (hQ : IgnoresChildren Q)
    (hp : Parallel (fun c c' => Everywhere Q c → Everywhere Q c') e e') (h : Everywhere Q e) :
    Everywhere Q e' := by
  obtain ⟨hnode, hchildren⟩ := everywhere_iff.1 h
  exact (hp.imp fun c hc c' _ hcc' => hcc' (hchildren c hc)).everywhere hQ hnode

end

/-! ## Images of the children -/

/-- `mapChildrenM` succeeds when `f` does on every child, and gives the node around the images. -/
theorem mapChildrenM_eq_ok_iff {ε : Type} {f : Expr → Except ε Expr} {e e' : Expr} :
    e.mapChildrenM f = .ok e' ↔ Parallel (fun c c' => f c = .ok c') e e' := by
  constructor
  · intro h
    cases e with
    | map es =>
      simp only [mapChildrenM, bind_eq_ok_iff, mapM_eq_ok_iff, pure, Except.pure,
        Except.ok.injEq] at h
      obtain ⟨es', hes, rfl⟩ := h
      refine .map (hes.imp fun p q hpq => ?_)
      obtain ⟨key, hkey, value, hvalue, rfl⟩ := hpq
      exact ⟨hkey, hvalue⟩
    | _ =>
      simp only [mapChildrenM, bind_eq_ok_iff, mapM_eq_ok_iff, pure, Except.pure,
        Except.ok.injEq] at h
      grind [Parallel]
  · intro h
    cases h with
    | map hes =>
      simp only [mapChildrenM, bind_eq_ok_iff, mapM_eq_ok_iff, pure, Except.pure,
        Except.ok.injEq]
      exact ⟨_, hes.imp fun p q hpq => ⟨q.1, hpq.1, q.2, hpq.2, rfl⟩, rfl⟩
    | _ =>
      simp_all [mapChildrenM, bind_eq_ok_iff, mapM_eq_ok_iff, pure, Except.pure]

/-- The children of a rebuilt node are the images of the children, made in their order. -/
theorem children_mapChildrenM {m : Type → Type} [Monad m] [LawfulMonad m] (f : Expr → m Expr)
    (e : Expr) : children <$> e.mapChildrenM f = e.children.mapM f := by
  cases e with
  | map entries =>
    simp only [mapChildrenM, children, map_bind, map_pure]
    induction entries with
    | nil => simp
    | cons entry rest ih => simp [← ih]
  | _ => simp [mapChildrenM, children]

/-- `mapChildrenM` fails where `f` does on the first child. -/
theorem mapChildrenM_eq_error_iff {ε : Type} {f : Expr → Except ε Expr} {e : Expr} {cause : ε} :
    e.mapChildrenM f = .error cause ↔ ∃ before c after, e.children = before ++ c :: after ∧
      (∀ b ∈ before, ∃ b', f b = .ok b') ∧ f c = .error cause := by
  rw [← mapM_eq_error_iff, ← children_mapChildrenM f e]
  cases e.mapChildrenM f <;> simp [Functor.map, Except.map]

/-! ## Replacement that may fail -/

section

variable {m : Type → Type} [Monad m] {step : Expr → Option (m Expr)}

theorem replaceM_of_some {e : Expr} {answer : m Expr} (h : step e = some answer) :
    e.replaceM step = answer := by
  rw [replaceM.eq_def, h]

variable [LawfulMonad m]

theorem replaceAllM_eq (es : List Expr) : replaceAllM step es = es.mapM (replaceM step) := by
  induction es with
  | nil => rw [replaceAllM, List.mapM_nil]
  | cons e es ih => rw [replaceAllM, List.mapM_cons, ih]

theorem replaceEntriesM_eq (es : List (Expr × Expr)) :
    replaceEntriesM step es = es.mapM fun p => do
      let key ← replaceM step p.1
      let value ← replaceM step p.2
      return (key, value) := by
  induction es with
  | nil => rw [replaceEntriesM, List.mapM_nil]
  | cons p es ih => simp [replaceEntriesM, ih]

/-- An unanswered node is rebuilt around what becomes of its children. -/
theorem replaceM_of_none {e : Expr} (h : step e = none) :
    e.replaceM step = e.mapChildrenM (replaceM step) := by
  cases e <;> simp [replaceM, h, mapChildrenM, replaceAllM_eq, replaceEntriesM_eq]

end

theorem replaceM_spec {ε : Type} {step : Expr → Option (Except ε Expr)} {P : Expr → Expr → Prop}
    (answered : ∀ e e', step e = some (.ok e') → P e e')
    (rebuilt : ∀ e e', step e = none → Parallel P e e' → P e e') {e e' : Expr}
    (h : e.replaceM step = .ok e') : P e e' := by
  induction e using children_induction generalizing e' with
  | node e ih =>
    cases hs : step e with
    | some answer =>
      rw [replaceM_of_some hs] at h
      exact answered e e' (h ▸ hs)
    | none =>
      rw [replaceM_of_none hs, mapChildrenM_eq_ok_iff] at h
      exact rebuilt e e' hs (h.imp fun c hc c' _ hcc' => ih c hc hcc')

/-! ## Replacement that cannot fail -/

/-- Mapping without effects gives the image under `mapChildren` in every monad. -/
theorem mapChildrenM_pure {m : Type → Type} [Monad m] [LawfulMonad m] (f : Expr → Expr)
    (e : Expr) : e.mapChildrenM (fun c => (pure (f c) : m Expr)) = pure (e.mapChildren f) := by
  cases e <;> simp [mapChildren, mapChildrenM]

theorem mapChildren_parallel (f : Expr → Expr) (e : Expr) :
    Parallel (fun c c' => f c = c') e (e.mapChildren f) := by
  have h := mapChildrenM_eq_ok_iff.1 (mapChildrenM_pure (m := Except Empty) f e)
  exact h.imp fun _ _ _ _ hc => Except.ok.inj hc

theorem children_mapChildren (f : Expr → Expr) (e : Expr) :
    (e.mapChildren f).children = e.children.map f := by
  have h := List.forall₂_map_left_iff.2 (mapChildren_parallel f e).children
  rw [List.forall₂_eq_eq_eq] at h
  exact h.symm

section

variable {step : Expr → Option Expr}

theorem replace_of_some {e e' : Expr} (h : step e = some e') : e.replace step = e' := by
  rw [replace, replaceM_of_some (by rw [h, Option.map_some])]
  rfl

theorem replace_of_none {e : Expr} (h : step e = none) :
    e.replace step = e.mapChildren (replace step) := by
  rw [replace, replaceM_of_none (by rw [h, Option.map_none])]
  rfl

theorem replace_spec {P : Expr → Expr → Prop} (answered : ∀ e e', step e = some e' → P e e')
    (rebuilt : ∀ e e', step e = none → Parallel P e e' → P e e') (e : Expr) :
    P e (e.replace step) := by
  induction e using children_induction with
  | node e ih =>
    cases hs : step e with
    | some e' => rw [replace_of_some hs]; exact answered e e' hs
    | none =>
      rw [replace_of_none hs]
      exact rebuilt e _ hs ((mapChildren_parallel _ e).imp fun c hc c' _ hcc' => hcc' ▸ ih c hc)

end

/-! ## Rebuilding -/

section

variable {f : Expr → Expr}

theorem rebuildAll_eq (es : List Expr) : rebuildAll f es = es.map (rebuild f) := by
  induction es with
  | nil => rfl
  | cons e es ih => rw [rebuildAll, ih, List.map_cons]

theorem rebuildEntries_eq (es : List (Expr × Expr)) :
    rebuildEntries f es = es.map fun p => (rebuild f p.1, rebuild f p.2) := by
  induction es with
  | nil => rfl
  | cons p es ih => rw [rebuildEntries, ih, List.map_cons]

/-- A node is rebuilt after its children. -/
theorem rebuild_eq (e : Expr) : e.rebuild f = f (e.mapChildren (rebuild f)) := by
  cases e <;> simp [rebuild, mapChildren, mapChildrenM, rebuildAll_eq, rebuildEntries_eq]

theorem rebuild_spec {P : Expr → Expr → Prop} (node : ∀ e e', Parallel P e e' → P e (f e'))
    (e : Expr) : P e (e.rebuild f) := by
  induction e using children_induction with
  | node e ih =>
    rw [rebuild_eq]
    exact node e _ ((mapChildren_parallel _ e).imp fun c hc c' _ hcc' => hcc' ▸ ih c hc)

end

end Expr

end ContractTests
