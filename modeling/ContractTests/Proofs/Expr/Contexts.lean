import ContractTests.Proofs.Expr.NormalForm

/-! # Post-state notations in a context

`Expr.Frame` is a node with a hole in the place of one child, and a context is the list of the nodes
around a hole, the innermost first; a subterm is what fills a hole
(`Expr.mem_subterms_iff_exists_fill`). The four ways to write the post-state of a variable can be
exchanged for each other in every context whose hole is not the argument of a wrapper, and no normal
form has one of the first three left (`Expr.normalForm_spellings`).
-/

set_option autoImplicit false

namespace ContractTests.Expr

/-! ## Contexts -/

/-- A node with a hole in the place of one child. -/
inductive Frame where
  | left (op : BinaryOp) (right : Expr)
  | right (op : BinaryOp) (left : Expr)
  | operand (op : UnaryOp)
  | scope (name : String)
  | base (position : Expr)
  | position (base : Expr)
  | argument (name : String) (before after : List Expr)
  | receiver (name : String) (args : List Expr)
  | sendArgument (receiver : Expr) (name : String) (before after : List Expr)
  | createArgument (type : String) (before after : List Expr)
  | setElement (before after : List Expr)
  | key (before : List (Expr × Expr)) (value : Expr) (after : List (Expr × Expr))
  | value (before : List (Expr × Expr)) (key : Expr) (after : List (Expr × Expr))
  | tupleElement (before after : List Expr)
  | condition (yes no : Expr)
  | yes (condition no : Expr)
  | no (condition yes : Expr)
  | castOperand (type : String)

namespace Frame

/-- The node with `e` in the hole. -/
def fill : Frame → Expr → Expr
  | .left op b, e => .binary op e b
  | .right op a, e => .binary op a e
  | .operand op, e => .unary op e
  | .scope name, e => .field e name
  | .base i, e => .index e i
  | .position a, e => .index a e
  | .argument name before after, e => .call name (before ++ e :: after)
  | .receiver name args, e => .send e name args
  | .sendArgument a name before after, e => .send a name (before ++ e :: after)
  | .createArgument type before after, e => .create type (before ++ e :: after)
  | .setElement before after, e => .set (before ++ e :: after)
  | .key before v after, e => .map (before ++ (e, v) :: after)
  | .value before k after, e => .map (before ++ (k, e) :: after)
  | .tupleElement before after, e => .tuple (before ++ e :: after)
  | .condition a b, e => .conditional e a b
  | .yes c b, e => .conditional c e b
  | .no c a, e => .conditional c a e
  | .castOperand type, e => .cast type e

/-- Whether the hole is the only argument of a post-state wrapper. -/
def isWrapperArgument : Frame → Bool
  | .argument name [] [] => isWrapperName name 1
  | _ => false

theorem mem_children_fill (frame : Frame) (e : Expr) : e ∈ (frame.fill e).children := by
  cases frame <;> simp [fill, children]

/-- Every child is what fills the hole of a frame. -/
theorem exists_fill_eq {c e : Expr} (h : c ∈ e.children) : ∃ frame : Frame, frame.fill c = e := by
  cases e with
  | binary op left right =>
    rcases List.mem_pair.1 h with rfl | rfl
    · exact ⟨.left op right, rfl⟩
    · exact ⟨.right op left, rfl⟩
  | unary op operand => exact ⟨.operand op, by rw [List.mem_singleton.1 h]; rfl⟩
  | field scope name => exact ⟨.scope name, by rw [List.mem_singleton.1 h]; rfl⟩
  | index base position =>
    rcases List.mem_pair.1 h with rfl | rfl
    · exact ⟨.base position, rfl⟩
    · exact ⟨.position base, rfl⟩
  | call name args =>
    obtain ⟨before, after, rfl⟩ := List.append_of_mem h
    exact ⟨.argument name before after, rfl⟩
  | send receiver name args =>
    rcases List.mem_cons.1 h with rfl | h
    · exact ⟨.receiver name args, rfl⟩
    · obtain ⟨before, after, rfl⟩ := List.append_of_mem h
      exact ⟨.sendArgument receiver name before after, rfl⟩
  | create type args =>
    obtain ⟨before, after, rfl⟩ := List.append_of_mem h
    exact ⟨.createArgument type before after, rfl⟩
  | set elements =>
    obtain ⟨before, after, rfl⟩ := List.append_of_mem h
    exact ⟨.setElement before after, rfl⟩
  | map entries =>
    obtain ⟨⟨key, value⟩, hentry, hc⟩ := List.mem_flatMap.1 h
    obtain ⟨before, after, rfl⟩ := List.append_of_mem hentry
    rcases List.mem_pair.1 hc with rfl | rfl
    · exact ⟨.key before value after, rfl⟩
    · exact ⟨.value before key after, rfl⟩
  | tuple elements =>
    obtain ⟨before, after, rfl⟩ := List.append_of_mem h
    exact ⟨.tupleElement before after, rfl⟩
  | conditional condition yes no =>
    simp only [children, List.mem_cons, List.not_mem_nil, or_false] at h
    rcases h with rfl | rfl | rfl
    · exact ⟨.condition yes no, rfl⟩
    · exact ⟨.yes condition no, rfl⟩
    · exact ⟨.no condition yes, rfl⟩
  | cast type operand => exact ⟨.castOperand type, by rw [List.mem_singleton.1 h]; rfl⟩
  | literal => cases h
  | var => cases h
  | postState => cases h
  | self => cases h

end Frame

/-- The nodes around a hole, the innermost first. -/
abbrev Context := List Frame

namespace Context

/-- The expression with `e` in the hole. -/
def fill (context : Context) (e : Expr) : Expr :=
  context.foldl (fun inner frame => frame.fill inner) e

/-- Whether the hole is itself the only argument of a post-state wrapper. -/
def isWrapperArgument (context : Context) : Bool := context.head?.any Frame.isWrapperArgument

end Context

theorem mem_subterms_iff_exists_fill {x e : Expr} :
    x ∈ e.subterms ↔ ∃ context : Context, context.fill x = e := by
  constructor
  · intro h
    induction e using children_induction with
    | node e ih =>
      rcases mem_subterms_iff.1 h with rfl | ⟨c, hc, hx⟩
      · exact ⟨[], rfl⟩
      · obtain ⟨context, rfl⟩ := ih c hc hx
        obtain ⟨frame, rfl⟩ := Frame.exists_fill_eq hc
        exact ⟨context ++ [frame], by simp [Context.fill]⟩
  · rintro ⟨context, rfl⟩
    induction context generalizing x with
    | nil => exact self_mem_subterms x
    | cons frame context ih =>
      refine subterms_trans ?_ (ih (x := frame.fill x))
      exact mem_subterms_of_mem_children (frame.mem_children_fill x) (self_mem_subterms x)

/-! ## Normal forms in a context -/

theorem normalForm_of_marked? {e : Expr} {v : String} (h : e.marked? = some v) :
    e.normalForm = .postState v :=
  replace_of_some (by rw [h]; rfl)

theorem normalForm_of_unmarked {e : Expr} (h : e.marked? = none) :
    e.normalForm = e.mapChildren normalForm :=
  replace_of_none (by rw [h]; rfl)

/-- A frame makes no notation, except around a variable that it wraps. -/
theorem Frame.marked?_fill {frame : Frame} {e : Expr}
    (h : e.varName? = none ∨ frame.isWrapperArgument = false) : (frame.fill e).marked? = none := by
  cases frame with
  | argument name before after =>
    cases before with
    | nil =>
      cases after with
      | nil =>
        cases e with
        | var v =>
          rcases h with h | h
          · cases h
          · simp only [fill, List.nil_append, marked?]
            rw [if_neg (by rw [show isWrapperName name 1 = false from h]; decide)]
        | _ => rfl
      | cons => cases e <;> rfl
    | cons first rest =>
      cases first <;> cases rest <;> rfl
  | _ => rfl

/-- What a frame becomes depends on what fills it only by the normal form of that. -/
theorem Frame.normalForm_fill_congr {frame : Frame} {a b : Expr}
    (ha : (frame.fill a).marked? = none) (hb : (frame.fill b).marked? = none)
    (h : a.normalForm = b.normalForm) : (frame.fill a).normalForm = (frame.fill b).normalForm := by
  rw [normalForm_of_unmarked ha, normalForm_of_unmarked hb]
  cases frame <;> simp [fill, mapChildren, mapChildrenM, h]

theorem Frame.varName?_fill (frame : Frame) (e : Expr) : (frame.fill e).varName? = none := by
  cases frame <;> rfl

/-- Two expressions of one normal form have one normal form in every context, if they are no
variables that the context wraps. -/
theorem Context.normalForm_fill_congr {context : Context} {a b : Expr}
    (ha : a.varName? = none ∨ context.isWrapperArgument = false)
    (hb : b.varName? = none ∨ context.isWrapperArgument = false)
    (h : a.normalForm = b.normalForm) :
    (context.fill a).normalForm = (context.fill b).normalForm := by
  induction context generalizing a b with
  | nil => exact h
  | cons frame context ih =>
    exact ih (.inl (frame.varName?_fill a)) (.inl (frame.varName?_fill b))
      (Frame.normalForm_fill_congr (Frame.marked?_fill ha) (Frame.marked?_fill hb) h)

/-! ## The notations -/

theorem suffixed?_append {v : String} (hv : v ≠ "") : suffixed? (v ++ "_post") = some v := by
  have hsuffix : "_post".toList.isSuffixOf (v ++ "_post").toList = true := by
    rw [List.isSuffixOf_iff_suffix, String.toList_append]
    exact List.suffix_append _ _
  have htake : (v ++ "_post").toList.take ((v ++ "_post").toList.length - "_post".toList.length) =
      v.toList := by
    rw [String.toList_append, List.length_append, Nat.add_sub_cancel, List.take_left]
  rw [suffixed?, Text.stripEnd?, if_pos hsuffix, htake]
  cases hcs : v.toList with
  | nil => exact absurd (String.toList_inj.1 (hcs.trans String.toList_empty.symm)) hv
  | cons c cs =>
    change some (String.ofList (c :: cs)) = some v
    rw [← hcs, String.ofList_toList]

/-- The ways to write the post-state of a variable: `'(v)`, `post(v)`, `v_post`, and the node that
they stand for. -/
def spellings (v : String) : List Expr :=
  [.call "'" [.var v], .call "post" [.var v], .var (v ++ "_post"), .postState v]

theorem normalForm_of_mem_spellings {v : String} (hv : v ≠ "") {a : Expr} (ha : a ∈ spellings v) :
    a.normalForm = .postState v := by
  simp only [spellings, List.mem_cons, List.not_mem_nil, or_false] at ha
  rcases ha with rfl | rfl | rfl | rfl
  · exact normalForm_of_marked? rfl
  · exact normalForm_of_marked? rfl
  · exact normalForm_of_marked? (suffixed?_append hv)
  · exact normalForm_of_unmarked rfl

/-- No variable with the ending `_post` and no wrapper of a variable is left in a normal form, which
is its own normal form. All spellings of a post-state become the variable under post-state, and in a
context whose hole is not the argument of a wrapper they have the same normal form. -/
theorem normalForm_spellings :
    (∀ e : Expr,
      (∀ x ∈ e.normalForm.subterms, ∀ v,
        (v ≠ "" → x ≠ .var (v ++ "_post")) ∧ x ≠ .call "'" [.var v] ∧ x ≠ .call "post" [.var v]) ∧
      e.normalForm.normalForm = e.normalForm) ∧
    (∀ v, v ≠ "" → ∀ a ∈ spellings v, a.normalForm = .postState v) ∧
    ∀ (v : String) (context : Context), v ≠ "" → context.isWrapperArgument = false →
      ∀ a ∈ spellings v, ∀ b ∈ spellings v,
        (context.fill a).normalForm = (context.fill b).normalForm := by
  refine ⟨fun e => ⟨fun x hx v => ?_, normalForm_normalForm e⟩,
    fun _ hv _ ha => normalForm_of_mem_spellings hv ha, ?_⟩
  · have hunmarked := marked?_eq_none_of_mem_normalForm hx
    refine ⟨?_, ?_, ?_⟩
    · rintro hv rfl
      rw [marked?, suffixed?_append hv] at hunmarked
      cases hunmarked
    · rintro rfl
      cases hunmarked
    · rintro rfl
      cases hunmarked
  · intro v context hv hcontext a ha b hb
    refine Context.normalForm_fill_congr (.inr hcontext) (.inr hcontext) ?_
    rw [normalForm_of_mem_spellings hv ha, normalForm_of_mem_spellings hv hb]

/-- A doubled ending, inside the argument of a wrapper that cannot be replaced:
`post(x_post_post + y)` and `post('(x_post) + y)`. -/
theorem normalForm_doubled_ending :
    "x_post" ≠ "" ∧
    Context.isWrapperArgument [.left .plus (.var "y"), .argument "post" [] []] = false ∧
    (Expr.call "post" [.binary .plus (.var "x_post_post") (.var "y")]).normalForm =
      (Expr.call "post" [.binary .plus (.call "'" [.var "x_post"]) (.var "y")]).normalForm := by
  refine ⟨by decide, rfl, ?_⟩
  exact normalForm_spellings.2.2 "x_post" [.left .plus (.var "y"), .argument "post" [] []]
    (by decide) rfl _ (by simp [spellings]) _ (by simp [spellings])

end ContractTests.Expr
