/-! # Texts that fork

Two texts fork when they have different characters after a part that they have in common. They still
fork when more is written behind them, or the same in front of both, so that one place where two
texts fork decides about all that they are parts of. `Text.ForkUnless p` says that texts fork unless
`p` holds and they are one text.
-/

set_option autoImplicit false

namespace ContractTests.Text

/-- The texts go different ways after a part that they have in common. -/
inductive Fork : List Char → List Char → Prop
  | here {c d : Char} (h : c ≠ d) (cs ds : List Char) : Fork (c :: cs) (d :: ds)
  | later (c : Char) {cs ds : List Char} (h : Fork cs ds) : Fork (c :: cs) (c :: ds)

namespace Fork

variable {cs ds : List Char}

theorem ne (h : Fork cs ds) : cs ≠ ds := by
  induction h with
  | here h => exact fun heq => h (List.cons.inj heq).1
  | later _ _ ih => exact fun heq => ih (List.cons.inj heq).2

theorem append (h : Fork cs ds) (after after' : List Char) :
    Fork (cs ++ after) (ds ++ after') := by
  induction h with
  | here h cs ds => exact .here h _ _
  | later c _ ih => exact .later c ih

theorem append_left (before : List Char) (h : Fork cs ds) : Fork (before ++ cs) (before ++ ds) := by
  induction before with
  | nil => exact h
  | cons c before ih => exact .later c ih

end Fork

/-! ## Unless something holds -/

/-- The texts fork, or they are one text and the proposition holds. -/
def ForkUnless (p : Prop) (s t : String) : Prop := p ∧ s = t ∨ Fork s.toList t.toList

namespace ForkUnless

variable {p q : Prop} {s t s' t' : String}

theorem of_holds (hp : p) (s : String) : ForkUnless p s s := .inl ⟨hp, rfl⟩

theorem imp (hpq : p → q) (h : ForkUnless p s t) : ForkUnless q s t :=
  Or.imp_left (And.imp_left hpq) h

theorem holds_of_eq (h : ForkUnless p s t) (heq : s = t) : p := by
  rcases h with ⟨hp, -⟩ | hfork
  · exact hp
  · exact absurd (congrArg String.toList heq) hfork.ne

theorem append (h : ForkUnless p s t) (h' : ForkUnless q s' t') :
    ForkUnless (p ∧ q) (s ++ s') (t ++ t') := by
  rw [ForkUnless, String.toList_append, String.toList_append]
  rcases h with ⟨hp, rfl⟩ | hfork
  · rcases h' with ⟨hq, rfl⟩ | hfork'
    · exact .inl ⟨⟨hp, hq⟩, rfl⟩
    · exact .inr (hfork'.append_left _)
  · exact .inr (hfork.append _ _)

theorem append_right (h : ForkUnless p s t) (after : String) :
    ForkUnless p (s ++ after) (t ++ after) :=
  (h.append (of_holds trivial after)).imp And.left

theorem append_left (before : String) (h : ForkUnless p s t) :
    ForkUnless p (before ++ s) (before ++ t) :=
  ((of_holds trivial before).append h).imp And.right

end ForkUnless

/-- As many texts on both sides, which fork one by one unless something holds for each pair. -/
inductive ForkUnlessAll : Prop → List String → List String → Prop
  | nil : ForkUnlessAll True [] []
  | cons {p q : Prop} {s t : String} {ss ts : List String} (h : ForkUnless p s t)
      (hrest : ForkUnlessAll q ss ts) : ForkUnlessAll (p ∧ q) (s :: ss) (t :: ts)

namespace ForkUnlessAll

variable {p : Prop} {ss ts : List String}

theorem length_eq (h : ForkUnlessAll p ss ts) : ss.length = ts.length := by
  induction h with
  | nil => rfl
  | cons _ _ ih => simp only [List.length_cons, ih]

theorem isEmpty_eq (h : ForkUnlessAll p ss ts) : ss.isEmpty = ts.isEmpty := by cases h <;> rfl

theorem holds_of_isEmpty (h : ForkUnlessAll p ss ts) (hempty : ss.isEmpty = true) : p := by
  cases h with
  | nil => trivial
  | cons => cases hempty

theorem map {f : String → String}
    (hf : ∀ {p : Prop} {s t : String}, ForkUnless p s t → ForkUnless p (f s) (f t))
    (h : ForkUnlessAll p ss ts) : ForkUnlessAll p (ss.map f) (ts.map f) := by
  induction h with
  | nil => exact .nil
  | cons h _ ih => exact .cons (hf h) ih

/-- Lists of texts between the same separators. -/
theorem intercalate (separator : String) (h : ForkUnlessAll p ss ts) :
    ForkUnless p (separator.intercalate ss) (separator.intercalate ts) := by
  induction h with
  | nil => exact .of_holds trivial _
  | cons h hrest ih =>
    cases hrest with
    | nil =>
      rw [String.intercalate_singleton, String.intercalate_singleton]
      exact h.imp fun hp => ⟨hp, trivial⟩
    | cons _ _ =>
      rw [String.intercalate_cons_cons, String.intercalate_cons_cons]
      exact (h.append_right separator).append ih

end ForkUnlessAll

end ContractTests.Text
