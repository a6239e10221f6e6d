import ContractTests.Proofs.TestClass.Written

/-! # Every test class that is built has a Java text

The conditions of a contract may be written with post-state in any place; what `TestClass.build`
makes of them is plain, and so is all that it adds (`TestClass.isPlain_of_build`). So a class that is
built can be rendered, and its symbolic form can too (`TestClass.build_rendered`).
-/

set_option autoImplicit false

namespace ContractTests

/-! ## Conditions -/

namespace Expr

variable {params : List Parameter} {e e' : Expr}

theorem assumptionStep_eq_ok (h : assumptionStep params e = some (.ok e')) :
    ∃ name, e' = .var name := by
  unfold assumptionStep at h
  split at h
  · cases h; exact ⟨_, rfl⟩
  · cases h
  · split at h <;> cases h

theorem isPlain_of_asAssumption {pre : Expr} (h : pre.asAssumption params = .ok e') :
    e'.IsPlain := by
  refine replaceM_spec (P := fun _ e' => e'.IsPlain) (fun e e' hstep => ?_)
    (fun e e' hstep hp => hp.isPlain ?_) h
  · obtain ⟨name, rfl⟩ := assumptionStep_eq_ok hstep
    exact isPlain_var name
  · obtain ⟨hmentioned, hwrapper, -⟩ :=
      assertionStep_eq_none ((assumptionStep_eq_none_iff none []).1 hstep)
    exact ⟨by cases e <;> simp_all [mentioned?, postState?], hwrapper⟩

end Expr

/-! ## The vocabulary of plain blocks -/

namespace Vocabulary

/-- Any names, and plain nodes. -/
def plain : Vocabulary := ⟨fun _ => True, Expr.IsPlainNode⟩

theorem lawful_plain : plain.Lawful where
  bare _ := trivial
  append _ _ := trivial
  trimmed _ := trivial
  base _ := trivial
  implementation _ := trivial
  ignoresChildren := Expr.ignoresChildren_isPlainNode
  added {e} hadded _ := by
    cases e with
    | postState => cases hadded
    | call => cases hadded
    | _ => exact ⟨rfl, rfl⟩

theorem ofBlock_plain_iff {body : List Stmt} : plain.OfBlock body ↔ Stmt.ArePlain body :=
  forall₂_congr fun _ _ => ⟨fun h => h.expression, fun h => ⟨fun _ _ => trivial, h⟩⟩

end Vocabulary

theorem Contract.ofVocabulary_plain (c : Contract) : c.OfVocabulary .plain where
  function := trivial
  returnType := trivial
  parameters _ _ := ⟨trivial, trivial⟩
  precondition _ _ _ hout := Expr.isPlain_of_asAssumption hout
  postcondition _ _ _ _ _ hout := Expr.isPlainNode_of_asAssertion hout

/-! ## Test classes -/

namespace TestClass

variable {options : ClassOptions} {table : ContractTable} {calls : CallSequence} {c : TestClass}

theorem isPlain_of_build (h : build options table calls = .ok c) : c.IsPlain := by
  have hfrom : BuiltFrom .plain options table calls :=
    ⟨trivial, trivial, fun _ _ => trivial, fun _ _ contract _ => contract.ofVocabulary_plain⟩
  obtain ⟨hmethods, hmain⟩ := ofBlock_of_build Vocabulary.lawful_plain hfrom h
  exact ⟨fun m hm => Vocabulary.ofBlock_plain_iff.1 (hmethods m hm),
    Vocabulary.ofBlock_plain_iff.1 hmain⟩

theorem IsPlain.symbolic (h : c.IsPlain) : c.symbolic.IsPlain := by
  have hsymbolic {body : List Stmt} (hbody : Stmt.ArePlain body) :
      Stmt.ArePlain (Stmt.symbolicAll body) :=
    Vocabulary.ofBlock_plain_iff.1
      (Vocabulary.lawful_plain.symbolicAll (Vocabulary.ofBlock_plain_iff.2 hbody))
  exact ⟨List.forall_mem_map.2 fun m hm => hsymbolic (h.methods m hm), hsymbolic h.main⟩

/-- Nothing of the class lacks a form in Java, before and after repeated calls are shared, and so the
class has a text. -/
structure Rendered (c : TestClass) : Prop where
  plain : c.IsPlain
  shared : ∀ m ∈ c.methods, ∃ body, Stmt.shareCalls m.body = .ok body ∧ Stmt.ArePlain body
  text : ∃ text, c.render = .ok text

theorem IsPlain.rendered (h : c.IsPlain) : c.Rendered where
  plain := h
  shared m hm := (h.methods m hm).exists_shareCalls
  text := h.exists_render

/-- A class that is built is rendered, in its own form and in its symbolic form. -/
theorem build_rendered (h : build options table calls = .ok c) :
    c.Rendered ∧ c.symbolic.Rendered :=
  have hplain := isPlain_of_build h
  ⟨hplain.rendered, hplain.symbolic.rendered⟩

/-- The contract of `String trim(String s)` with the postcondition
`'(s) == s || len('(s)) < len(s) && len('(s)) > 0`. -/
def trim : Contract where
  name := "trim"
  signature := ⟨"trim", [⟨"s", "String"⟩], "String"⟩
  precondition := none
  postcondition := some (.binary .or (.binary .equal (.postState "s") (.var "s"))
    (.binary .and
      (.binary .less (.call "len" [.postState "s"]) (.call "len" [.var "s"]))
      (.binary .greater (.call "len" [.postState "s"]) (.int 0))))

theorem trim_rendered : ∃ c, build {} ⟨[trim]⟩ ["trim"] = .ok c ∧
    c.Rendered ∧ c.symbolic.Rendered := by
  obtain ⟨c, h⟩ : ∃ c, build {} ⟨[trim]⟩ ["trim"] = .ok c := ⟨_, rfl⟩
  exact ⟨c, h, build_rendered h⟩

end TestClass

end ContractTests
