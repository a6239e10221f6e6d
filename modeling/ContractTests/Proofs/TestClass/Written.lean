import ContractTests.Proofs.TestClass.Build
import ContractTests.Proofs.TestClass.Vocabulary

/-! # What is built is of the vocabulary of the contracts

Of a lawful vocabulary that has the names and the translated conditions of a contract, the test
method of the contract is, too (`Contract.OfVocabulary.testMethod`), and so are the methods and the
main method of a class that is built (`TestClass.ofBlock_of_build`).
-/

set_option autoImplicit false

namespace ContractTests

open Java

namespace Contract

/-- The names and types of the signature are in the vocabulary, and so is what the conditions are
translated to. -/
structure OfVocabulary (v : Vocabulary) (c : Contract) : Prop where
  function : v.name c.signature.name
  returnType : v.name c.signature.returnType
  parameters : ∀ p ∈ c.parameters, v.name p.name ∧ v.name p.type
  precondition : ∀ pre ∈ c.precondition, ∀ e,
    pre.asAssumption c.parameters = .ok e → v.OfExpr e
  postcondition : ∀ post ∈ c.postcondition, ∀ binding e, (∀ written ∈ binding, v.name written) →
    post.asAssertion binding c.snapshots c.parameters = .ok e → v.OfExpr e

variable {v : Vocabulary} {c : Contract} {options : ClassOptions}

/-! ## Names -/

theorem name_containerName (hv : v.Lawful) {written : String} (h : v.name written) :
    v.name (containerName written) :=
  hv.append h (hv.bare (by decide))

theorem name_snapshotName (hv : v.Lawful) {written : String} (h : v.name written) :
    v.name (snapshotName written) :=
  hv.append h (hv.bare (by decide))

theorem name_resultName (hv : v.Lawful) (c : Contract) : v.name c.resultName := by
  obtain ⟨n, hn, -⟩ := Text.fresh_spec resultNames_injective c.signature.parameterNames
  rw [resultName, hn]
  split
  · exact hv.bare (by decide)
  · exact hv.append (hv.bare (by decide)) (hv.bare (isBare_natText n))

theorem echoed_sublist (seen : Bool) (ps : List Parameter) : (echoed seen ps).Sublist ps := by
  induction ps generalizing seen with
  | nil => exact .slnil
  | cons p rest ih =>
    rw [echoed]
    split
    · exact (ih _).cons_cons p
    · split
      · exact (ih _).cons p
      · exact (ih _).cons_cons p
    · split
      · exact (ih _).cons_cons p
      · exact (ih _).cons p

theorem ofExpr_defaultValue (hv : v.Lawful) (type : String) : v.OfExpr (defaultValue type) := by
  have hcast : ∀ t ∈ ["long", "short", "byte", "char", "float"], IsBare t := by
    simp only [List.forall_mem_cons]
    exact ⟨by decide, by decide, by decide, by decide, by decide, List.forall_mem_nil _⟩
  simp only [defaultValue]
  split
  · exact hv.bool false
  · split
    · exact hv.int 0
    · split
      · exact hv.float .zero
      · split
        · rename_i hmem
          exact hv.cast (hv.bare (hcast _ (List.contains_iff_mem.1 hmem))) (hv.int 0)
        · exact hv.null

namespace OfVocabulary

variable {condition : Expr}

theorem contained (h : c.OfVocabulary v) : ∀ written ∈ c.contained, v.name written := by
  intro written hwritten
  obtain ⟨p, hp, -, rfl⟩ := mem_contained_iff_exists.1 hwritten
  exact (h.parameters p hp).1

theorem observed (h : c.OfVocabulary v) : ∀ written ∈ c.observed?, v.name written := by
  intro written hwritten
  obtain ⟨p, hp, rfl, -⟩ := observed?_eq_some hwritten
  exact (h.parameters p hp).1

/-! ## Before the call -/

theorem assumption (h : c.OfVocabulary v) (hv : v.Lawful)
    (hcondition : c.assumption = .ok condition) : v.OfExpr condition := by
  obtain ⟨-, rfl⟩ | ⟨pre, hpre, hout⟩ := assumption_eq_ok hcondition
  · exact hv.bool true
  · exact h.precondition pre hpre _ hout

theorem inputs (h : c.OfVocabulary v) (hv : v.Lawful) : v.OfBlock c.inputs := by
  have hbrackets : v.name "[]" := hv.bare (by decide)
  simp only [Contract.inputs, Vocabulary.ofBlock_append, Vocabulary.ofBlock_map,
    Vocabulary.ofStmt_input, Vocabulary.ofStmt_declare]
  refine ⟨fun p hp => (h.parameters p hp).symm, fun p hp => ?_⟩
  obtain ⟨hname, htype⟩ := h.parameters p (List.mem_of_mem_filter hp)
  have harray := hv.append htype hbrackets
  exact ⟨⟨harray, name_containerName hv hname⟩,
    hv.create harray (List.forall_mem_singleton.2 (hv.var hname))⟩

theorem snapshotDeclarations (h : c.OfVocabulary v) (hv : v.Lawful) :
    v.OfBlock c.snapshotDeclarations := by
  simp only [Contract.snapshotDeclarations, Vocabulary.ofBlock_map, Vocabulary.ofStmt_declare]
  intro p hp
  obtain ⟨hname, htype⟩ := h.parameters p (mem_parameters_of_mem_snapshotted hp)
  have hvar := hv.var hname
  refine ⟨⟨htype, name_snapshotName hv hname⟩, ?_⟩
  unfold snapshotValue
  split
  · have hcopied := hv.append (hv.implementation htype) (hv.bare (s := "<>") (by decide))
    exact hv.conditional (hv.binary _ hvar hv.null) hv.null
      (hv.create hcopied (List.forall_mem_singleton.2 hvar))
  · exact hvar
  · exact hvar

theorem nullTests (h : c.OfVocabulary v) (hv : v.Lawful) (op : BinaryOp) :
    ∀ e ∈ c.nullable.map (nullTest op), v.OfExpr e :=
  List.forall_mem_map.2 fun p hp =>
    hv.binary op (hv.var (h.parameters p (List.mem_of_mem_filter hp)).1) hv.null

theorem nullGuard (h : c.OfVocabulary v) (hv : v.Lawful) : v.OfBlock c.nullGuard := by
  unfold Contract.nullGuard
  split
  · exact Vocabulary.ofBlock_nil
  · rename_i anyNull hany
    have hassumed := List.forall_mem_map.1 (h.nullTests hv .notEqual)
    simp only [Vocabulary.ofBlock_cons, Vocabulary.ofStmt_whenever, Vocabulary.ofBlock_map,
      Vocabulary.ofStmt_assume]
    exact ⟨⟨hv.joined hany (h.nullTests hv _), Vocabulary.ofBlock_nil⟩, hassumed⟩

theorem echoes (h : c.OfVocabulary v) (hv : v.Lawful) (options : ClassOptions) :
    v.OfBlock (c.echoes options) := by
  unfold Contract.echoes
  split
  · rw [Vocabulary.ofBlock_map]
    intro p hp
    have hname := (h.parameters p ((echoed_sublist _ _).subset hp)).1
    have hlabel : v.name ("Test Input: " ++ p.name ++ " = ") :=
      hv.append (hv.append (hv.bare (by decide)) hname) (hv.bare (by decide))
    have hout := hv.field (hv.var (hv.bare (s := "System") (by decide)))
      (hv.bare (s := "out") (by decide))
    have htext := hv.binary .plus (hv.string hlabel) (hv.var hname)
    rw [echo, Vocabulary.ofStmt_perform]
    exact hv.send hout (hv.bare (by decide)) (List.forall_mem_singleton.2 htext)
  · exact Vocabulary.ofBlock_nil

/-! ## The call -/

theorem testedCall (h : c.OfVocabulary v) (hv : v.Lawful) (htarget : v.name options.targetClass) :
    v.OfExpr (c.testedCall options) := by
  refine hv.send (hv.var htarget) h.function (List.forall_mem_map.2 fun p hp => hv.var ?_)
  have hname := (h.parameters p hp).1
  split
  · exact name_containerName hv hname
  · exact hname

/-- The statements of the call, and the variable that its result is bound to. -/
theorem invocation (h : c.OfVocabulary v) (hv : v.Lawful) (htarget : v.name options.targetClass) :
    v.OfBlock (c.invocation options).before ∧ v.OfBlock (c.invocation options).block ∧
      ∀ written ∈ (c.invocation options).binding, v.name written := by
  have hcall := h.testedCall hv htarget
  have hresult := name_resultName hv c
  cases hobserved : c.observed? with
  | some observed =>
    have hname := h.observed observed hobserved
    by_cases hcontained : observed ∈ c.contained
    · rw [invocation_of_contained options hobserved hcontained]
      simp [hcall, hname]
    · rw [invocation_of_rebound options hobserved hcontained]
      simp [hcall, hname]
  | none =>
    cases hvoid : c.signature.returnsVoid with
    | true =>
      rw [invocation_of_void options hobserved hvoid]
      simp [hcall]
    | false =>
      rw [invocation_of_result options hobserved hvoid]
      split <;> simp [hcall, hresult, h.returnType, ofExpr_defaultValue hv]

theorem writeBacks (h : c.OfVocabulary v) (hv : v.Lawful) : v.OfBlock c.writeBacks := by
  simp only [Contract.writeBacks, Vocabulary.ofBlock_map, Vocabulary.ofStmt_assign]
  intro written hwritten
  have hname := h.contained written hwritten
  exact ⟨hname, hv.index (hv.var (name_containerName hv hname)) (hv.int 0)⟩

theorem callStatements (h : c.OfVocabulary v) (hv : v.Lawful)
    (htarget : v.name options.targetClass) : v.OfBlock (c.callStatements options) := by
  obtain ⟨hbefore, hblock, -⟩ := h.invocation hv htarget
  simp only [Contract.callStatements]
  split
  · rename_i allPresent hall
    simp [hbefore, hblock, h.writeBacks hv, hv.joined hall (h.nullTests hv _)]
  · simp [hbefore, hblock, h.writeBacks hv]

/-! ## After the call -/

theorem assertion (h : c.OfVocabulary v) (hv : v.Lawful) {binding : Option String}
    (hbinding : ∀ written ∈ binding, v.name written) {checks : List Stmt}
    (hchecks : c.assertion binding = .ok checks) : v.OfBlock checks := by
  obtain ⟨-, rfl⟩ | ⟨post, out, hpost, hout, rfl⟩ := assertion_eq_ok hchecks
  · exact Vocabulary.ofBlock_nil
  · have hcondition := h.postcondition post hpost binding out hbinding hout
    simp [hv.nullSafe hcondition]

/-- The test method of a contract. -/
theorem testMethod (h : c.OfVocabulary v) (hv : v.Lawful) (htarget : v.name options.targetClass)
    {test : TestMethod} (htest : c.testMethod options = .ok test) : v.OfBlock test.body := by
  obtain ⟨condition, checks, hassumption, hchecks, hbody⟩ := testMethod_eq_ok htest
  rw [hbody]
  simp [h.assumption hv hassumption, h.assertion hv (h.invocation hv htarget).2.2 hchecks,
    h.inputs hv, h.snapshotDeclarations hv, h.nullGuard hv, h.echoes hv,
    h.callStatements hv htarget]

end OfVocabulary

end Contract

namespace TestClass

variable {v : Vocabulary} {options : ClassOptions} {table : ContractTable} {calls : CallSequence}
  {c : TestClass}

/-- The vocabulary has what a class is built from. -/
structure BuiltFrom (v : Vocabulary) (options : ClassOptions) (table : ContractTable)
    (calls : CallSequence) : Prop where
  className : v.name options.className
  targetClass : v.name options.targetClass
  functions : ∀ function ∈ calls, v.name function
  contracts : ∀ function ∈ calls, ∀ contract ∈ table.get? function, contract.OfVocabulary v

/-- The statements of a class that is built. -/
theorem ofBlock_of_build (hv : v.Lawful) (hfrom : BuiltFrom v options table calls)
    (h : build options table calls = .ok c) :
    (∀ m ∈ c.methods, v.OfBlock m.body) ∧ v.OfBlock c.main := by
  refine ⟨fun m hm => ?_, ?_⟩
  · obtain ⟨function, hfunction, contract, hcontract, htest⟩ := exists_isTestFor h m hm
    exact (hfrom.contracts function hfunction contract hcontract).testMethod hv hfrom.targetClass
      htest
  · obtain ⟨methods, -, h⟩ := bind_eq_ok_iff.1 h
    cases h
    have hinstance : v.name instanceName := hv.bare (by decide)
    simp only [mainFor, Vocabulary.ofBlock_cons, Vocabulary.ofBlock_map, Vocabulary.ofStmt_declare,
      Vocabulary.ofStmt_perform]
    refine ⟨⟨⟨hfrom.className, hinstance⟩, hv.create hfrom.className (List.forall_mem_nil _)⟩,
      fun function hfunction => ?_⟩
    have hcalled := hfrom.functions function (List.mem_of_mem_filter hfunction)
    exact hv.send (hv.var hinstance) (hv.append hcalled (hv.bare (by decide)))
      (List.forall_mem_nil _)

end TestClass

end ContractTests
