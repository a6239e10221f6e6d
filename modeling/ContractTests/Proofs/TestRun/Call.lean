import ContractTests.Proofs.TestRun.Entry
import Mathlib.Data.List.Forall2

/-! # The call

`Contract.invocation` places the result of the call in one of four ways; `Invokes` is what they
have in common. `Returned` is what holds of the memory from the call on: live objects have the
contents that the call left, snapshots have those on entry, and the result is where post-state reads
it. The write-backs complete it for the parameters passed in containers.
-/

set_option autoImplicit false

universe u

namespace ContractTests.Contract

variable {D : Type u} {s : Scenario D} {c : Contract} {options : ClassOptions}
  {start m : Memory D} {p : Parameter}

/-! ## The place of the result -/

/-- The observed parameter is primitive, and passed in a container when nothing is returned. -/
theorem observed?_eq_some {name : String} (h : c.observed? = some name) :
    ∃ p ∈ c.parameters, p.name = name ∧ p.category = .primitive := by
  obtain ⟨-, hcategory⟩ := Option.filter_eq_some_iff.1 h
  have hcategory := beq_iff_eq.1 hcategory
  obtain ⟨p, hfind, hp⟩ := Option.map_eq_some_iff.1 hcategory
  exact ⟨p, List.mem_of_find?_eq_some hfind, by simpa using List.find?_some hfind, hp⟩

theorem mem_contained_of_void {name : String} (h : c.observed? = some name)
    (hvoid : c.signature.returnsVoid = true) : name ∈ c.contained := by
  obtain ⟨p, hp, rfl, hcategory⟩ := observed?_eq_some h
  refine mem_contained_iff_exists.2 ⟨p, hp, ?_, rfl⟩
  rw [isContained, hcategory, hvoid, h]
  simp

section

variable {name : String}

theorem invocation_of_contained (options : ClassOptions) (h : c.observed? = some name)
    (hcontained : name ∈ c.contained) :
    c.invocation options = ⟨[], [.perform (c.testedCall options)], some name⟩ := by
  simp only [invocation, h, List.contains_iff_mem.2 hcontained, if_true]

theorem invocation_of_rebound (options : ClassOptions) (h : c.observed? = some name)
    (hcontained : name ∉ c.contained) :
    c.invocation options = ⟨[], [.assign name (c.testedCall options)], some name⟩ := by
  have hvoid : c.signature.returnsVoid = false := by
    rw [← Bool.not_eq_true]
    exact fun hvoid => hcontained (mem_contained_of_void h hvoid)
  simp only [invocation, h, hvoid, List.contains_iff_mem, if_neg hcontained, Bool.false_eq_true,
    if_false]

theorem invocation_of_void (options : ClassOptions) (h : c.observed? = none)
    (hvoid : c.signature.returnsVoid = true) :
    c.invocation options = ⟨[], [.perform (c.testedCall options)], none⟩ := by
  simp only [invocation, h, hvoid, if_true]

theorem invocation_of_result (options : ClassOptions) (h : c.observed? = none)
    (hvoid : c.signature.returnsVoid = false) :
    c.invocation options =
      if c.isGuarded then
        ⟨[.declare c.signature.returnType c.resultName (defaultValue c.signature.returnType)],
          [.assign c.resultName (c.testedCall options)], some c.resultName⟩
      else
        ⟨[], [.declare c.signature.returnType c.resultName (c.testedCall options)],
          some c.resultName⟩ := by
  simp only [invocation, h, hvoid, Bool.false_eq_true, if_false]

theorem resultName_not_mem_contained (c : Contract) : c.resultName ∉ c.contained := by
  rw [mem_contained_iff_exists]
  rintro ⟨p, hp, -, hname⟩
  exact c.resultName_not_mem (hname ▸ mem_parameterNames hp)

end

/-! ## The call -/

/-- The variable that is passed for a parameter. -/
def passed (c : Contract) (p : Parameter) : String :=
  if c.contained.contains p.name then containerName p.name else p.name

/-- The values passed to the call. -/
def arguments (c : Contract) (m : Memory D) : List (Datum D) :=
  c.parameters.map fun p => m.store (c.passed p)

/-- What the call does. -/
def effect (c : Contract) (options : ClassOptions) (s : Scenario D) (m : Memory D) : Effect D :=
  s.effect options.targetClass c.signature.name (c.arguments m) m

/-- The call, as it is met in the run. -/
def callEvent (c : Contract) (options : ClassOptions) (m : Memory D) : Event D :=
  .called options.targetClass c.signature.name (c.arguments m) m

/-- The memory after the call. -/
def called (c : Contract) (options : ClassOptions) (s : Scenario D) (m : Memory D) : Memory D :=
  m.after (c.arguments m) (c.effect options s m)

theorem evaluate_testedCall : s.evaluate m (c.testedCall options) =
    ⟨(c.effect options s m).result, c.called options s m, [c.callEvent options m]⟩ := by
  have hargs : (c.parameters.map fun p => Expr.var (c.passed p)).map (s.argument m) =
      c.arguments m := by
    rw [List.map_map]
    rfl
  simp only [passed] at hargs
  rw [testedCall, Scenario.evaluate, hargs]
  rfl

/-- The statements of an invocation make the call from the memory `before`, in which the variable of
the result may be declared already, and assign the result to `target`. -/
structure Invokes (c : Contract) (options : ClassOptions) (s : Scenario D) (m before : Memory D)
    (target : Option String) : Prop where
  declared : before = m ∨ ∃ v, before = m.set c.resultName v
  run_before : s.runAll m (c.invocation options).before = ⟨.finished, before, []⟩
  run_block : s.runAll before (c.invocation options).block =
    ⟨.finished,
      target.elim (c.called options s before)
        ((c.called options s before).set · (c.effect options s before).result),
      [c.callEvent options before]⟩
  /-- Post-state reads the result, unless it reads a parameter passed in a container. -/
  target_of_binding : ∀ name, (c.invocation options).binding = some name → name ∉ c.contained →
    target = some name
  binding_of_target : ∀ name, target = some name → (c.invocation options).binding = some name
  target_not_mem : ∀ name, target = some name → name ∉ c.contained
  target_name : ∀ name, target = some name →
    name ∈ c.signature.parameterNames ∨ name = c.resultName

namespace Invokes

variable {before : Memory D}

/-- No variable receives the result. -/
theorem of_none (hbinding : ∀ name, (c.invocation options).binding = some name → name ∈ c.contained)
    (hbefore : (c.invocation options).before = [])
    (hblock : (c.invocation options).block = [.perform (c.testedCall options)]) :
    Invokes c options s m m none where
  declared := .inl rfl
  run_before := by rw [hbefore, Scenario.runAll_nil]
  run_block := by
    rw [hblock, Scenario.runAll_singleton, Scenario.run, evaluate_testedCall]
    rfl
  target_of_binding name h hname := absurd (hbinding name h) hname
  binding_of_target := nofun
  target_not_mem := nofun
  target_name := nofun

/-- The variable that post-state reads receives the result. -/
theorem of_binding {name : String} (hbinding : (c.invocation options).binding = some name)
    (hcontained : name ∉ c.contained)
    (hname : name ∈ c.signature.parameterNames ∨ name = c.resultName)
    (hdeclared : before = m ∨ ∃ v, before = m.set c.resultName v)
    (hbefore : s.runAll m (c.invocation options).before = ⟨.finished, before, []⟩)
    (hblock : s.runAll before (c.invocation options).block =
      ⟨.finished, (c.called options s before).set name (c.effect options s before).result,
        [c.callEvent options before]⟩) :
    Invokes c options s m before (some name) where
  declared := hdeclared
  run_before := hbefore
  run_block := hblock
  target_of_binding other h _ := by rw [← hbinding, h]
  binding_of_target other h := by rw [hbinding, h]
  target_not_mem other h := Option.some.inj h ▸ hcontained
  target_name other h := Option.some.inj h ▸ hname

end Invokes

theorem evaluate_defaultValue (s : Scenario D) (m : Memory D) (type : String) :
    ∃ v, s.evaluate m (defaultValue type) = ⟨v, m, []⟩ := by
  simp only [defaultValue, apply_ite (s.evaluate m)]
  split
  · exact ⟨_, rfl⟩
  · split
    · exact ⟨_, rfl⟩
    · split
      · exact ⟨_, rfl⟩
      · split
        · exact ⟨_, rfl⟩
        · exact ⟨_, rfl⟩

theorem exists_invokes (c : Contract) (options : ClassOptions) (s : Scenario D) (m : Memory D) :
    ∃ before target, Invokes c options s m before target := by
  cases hobserved : c.observed? with
  | some name =>
    obtain ⟨p, hp, rfl, -⟩ := observed?_eq_some hobserved
    by_cases hcontained : p.name ∈ c.contained
    · have heq := invocation_of_contained options hobserved hcontained
      refine ⟨m, none, .of_none ?_ (by rw [heq]) (by rw [heq])⟩
      rw [heq]
      rintro name ⟨⟩
      exact hcontained
    · have heq := invocation_of_rebound options hobserved hcontained
      refine ⟨m, some p.name, .of_binding (by rw [heq]) hcontained (.inl (mem_parameterNames hp))
        (.inl rfl) (by rw [heq, Scenario.runAll_nil]) ?_⟩
      rw [heq, Scenario.runAll_singleton, Scenario.run, evaluate_testedCall]
  | none =>
    cases hvoid : c.signature.returnsVoid with
    | true =>
      have heq := invocation_of_void options hobserved hvoid
      refine ⟨m, none, .of_none ?_ (by rw [heq]) (by rw [heq])⟩
      rw [heq]
      intro name h
      cases h
    | false =>
      have hresult := c.resultName_not_mem_contained
      have heq := invocation_of_result options hobserved hvoid
      cases hguarded : c.isGuarded with
      | true =>
        rw [hguarded, if_pos rfl] at heq
        obtain ⟨v, hv⟩ := evaluate_defaultValue s m c.signature.returnType
        refine ⟨m.set c.resultName v, some c.resultName, .of_binding (by rw [heq]) hresult
          (.inr rfl) (.inr ⟨v, rfl⟩) ?_ ?_⟩
        · rw [heq, Scenario.runAll_singleton, Scenario.run, hv]
        · rw [heq, Scenario.runAll_singleton, Scenario.run, evaluate_testedCall]
      | false =>
        rw [hguarded, if_neg Bool.false_ne_true] at heq
        refine ⟨m, some c.resultName, .of_binding (by rw [heq]) hresult (.inr rfl) (.inl rfl)
          (by rw [heq, Scenario.runAll_nil]) ?_⟩
        rw [heq, Scenario.runAll_singleton, Scenario.run, evaluate_testedCall]

/-! ## From the call on -/

/-- What holds of the memory after the call, when the parameters in `written` have been written
back: the given objects and the containers have the contents that the call left, the snapshots those
on entry, post-state reads the result, and every other parameter is as it was. -/
structure Returned (c : Contract) (options : ClassOptions) (s : Scenario D)
    (start before : Memory D) (written : List String) (m : Memory D) : Prop where
  live : ∀ n, m.heap (.given n) = (c.effect options s before).contents (.given n)
  snapshots : ∀ p ∈ c.snapshotted, IsSnapshot s start 0 m p (m.store (snapshotName p.name))
  containers : ∀ p ∈ c.parameters, c.isContained p = true → ∃ n,
    m.store (containerName p.name) = .object (.made n) ∧
      m.heap (.made n) = (c.effect options s before).contents (.made n)
  writtenBack : ∀ p ∈ c.parameters, c.isContained p = true → p.name ∈ written →
    m.store p.name = m.element (m.store (containerName p.name)) 0
  result : ∀ name, (c.invocation options).binding = some name → name ∉ c.contained →
    m.store name = (c.effect options s before).result
  kept : ∀ p ∈ c.parameters, c.isContained p = false →
    (c.invocation options).binding ≠ some p.name → m.store p.name = s.input p.name

section

variable {before : Memory D} {bound : Nat} {target : Option String}

theorem passed_of_isContained (hnames : c.NamesApart) (hp : p ∈ c.parameters)
    (hcontained : c.isContained p = true) : c.passed p = containerName p.name := by
  rw [passed, if_pos (List.contains_iff_mem.2 ((hnames.mem_contained_iff hp).2 hcontained))]

theorem passed_of_not_isContained (hnames : c.NamesApart) (hp : p ∈ c.parameters)
    (hcontained : c.isContained p = false) : c.passed p = p.name := by
  refine if_neg fun h => ?_
  have hmem := (hnames.mem_contained_iff hp).1 (List.contains_iff_mem.1 h)
  rw [hcontained] at hmem
  exact Bool.false_ne_true hmem

/-- The call has no way to the copies. -/
theorem isReached_copy (hnames : c.NamesApart)
    (h : Prepared c s start bound (c.parameters.filter c.isContained) c.snapshotted before)
    {n : Nat} (hn : bound ≤ n) : (Location.made n).isReached (c.arguments before) = false := by
  rw [Location.isReached, List.any_eq_false]
  intro v hv
  obtain ⟨p, hp, rfl⟩ := List.mem_map.1 hv
  cases hcontained : c.isContained p with
  | true =>
    obtain ⟨k, hk, hstore, -⟩ := h.containers p (List.mem_filter.2 ⟨hp, hcontained⟩)
    rw [passed_of_isContained hnames hp hcontained, hstore]
    simp only [Datum.refersTo, beq_iff_eq, Location.made.injEq]
    omega
  | false =>
    rw [passed_of_not_isContained hnames hp hcontained, h.inputs p hp]
    cases hinput : s.input p.name with
    | object l =>
      obtain ⟨k, rfl⟩ := s.input_given p.name l hinput
      simp [Datum.refersTo]
    | _ => simp [Datum.refersTo]

/-- The call leaves its contents in the containers. -/
theorem isReached_container (hnames : c.NamesApart) (hp : p ∈ c.parameters)
    (hcontained : c.isContained p = true) {n : Nat}
    (hstore : before.store (containerName p.name) = .object (.made n)) :
    (Location.made n).isReached (c.arguments before) = true := by
  rw [Location.isReached, List.any_eq_true]
  refine ⟨.object (.made n), List.mem_map.2 ⟨p, hp, ?_⟩, by simp [Datum.refersTo]⟩
  rw [passed_of_isContained hnames hp hcontained, hstore]

/-- The call and the assignment of its result. -/
theorem returned_of_invokes (hnames : c.NamesApart)
    (h : Prepared c s start bound (c.parameters.filter c.isContained) c.snapshotted before)
    (hi : Invokes c options s m before target) :
    Returned c options s start before []
      (target.elim (c.called options s before)
        ((c.called options s before).set · (c.effect options s before).result)) := by
  generalize hafter : (target.elim (c.called options s before)
    ((c.called options s before).set · (c.effect options s before).result)) = after
  have hmade : after.made = before.made := by
    subst hafter
    cases target <;> rfl
  have hheap (l : Location) : after.heap l = if l.isReached (c.arguments before)
      then (c.effect options s before).contents l else before.heap l := by
    subst hafter
    cases target <;> rfl
  have hstore {name : String} (hne : target ≠ some name) :
      after.store name = before.store name := by
    subst hafter
    cases target with
    | none => rfl
    | some other => exact Memory.set_store_of_ne _ _ fun heq => hne (by rw [heq])
  -- the result goes to a parameter or to a variable of its own, never to a snapshot or container
  have hsnapshot : ∀ p ∈ c.snapshotted, target ≠ some (snapshotName p.name) := by
    intro p hp htarget
    rcases hi.target_name _ htarget with hmem | heq
    · exact hnames.snapshots p hp hmem
    · exact c.snapshotName_ne_resultName p.name heq
  have hcontainer : ∀ p ∈ c.parameters, c.isContained p = true →
      target ≠ some (containerName p.name) := by
    intro p hp hcontained htarget
    rcases hi.target_name _ htarget with hmem | heq
    · exact hnames.containers p hp hcontained hmem
    · exact c.containerName_ne_resultName p.name heq
  constructor
  case live => exact fun n => hheap (.given n)
  case snapshots =>
    intro p hp
    rw [hstore (hsnapshot p hp)]
    refine (h.snapshots p hp).mono (Nat.zero_le _) (Nat.le_of_eq hmade.symm) fun n hn _ => ?_
    rw [hheap, isReached_copy hnames h hn, if_neg Bool.false_ne_true]
  case containers =>
    intro p hp hcontained
    obtain ⟨n, -, hold, -⟩ := h.containers p (List.mem_filter.2 ⟨hp, hcontained⟩)
    refine ⟨n, by rw [hstore (hcontainer p hp hcontained), hold], ?_⟩
    rw [hheap, isReached_container hnames hp hcontained hold, if_pos rfl]
  case writtenBack =>
    intro p _ _ hwritten
    cases hwritten
  case result =>
    intro name hbinding hname
    have htarget := hi.target_of_binding name hbinding hname
    subst hafter htarget
    exact Memory.set_store_self _ _ _
  case kept =>
    intro p hp hcontained hbinding
    rw [hstore fun htarget => hbinding (hi.binding_of_target _ htarget), h.inputs p hp]

/-- One write-back. -/
theorem Returned.writeBack (hnames : c.NamesApart) {written : List String}
    (h : Returned c options s start before written m) (hp : p ∈ c.parameters)
    (hcontained : c.isContained p = true) :
    Returned c options s start before (written ++ [p.name])
      (m.set p.name (m.element (m.store (containerName p.name)) 0)) := by
  have hname := mem_parameterNames hp
  have hcontainer : ∀ q ∈ c.parameters, c.isContained q = true →
      containerName q.name ≠ p.name := by
    intro q hq hcontainedq heq
    exact hnames.containers q hq hcontainedq (heq ▸ hname)
  constructor
  case live => exact h.live
  case snapshots =>
    intro q hq
    have hne : snapshotName q.name ≠ p.name := fun heq => hnames.snapshots q hq (heq ▸ hname)
    rw [m.set_store_of_ne _ hne]
    exact (h.snapshots q hq).set _ _
  case containers =>
    intro q hq hcontainedq
    rw [m.set_store_of_ne _ (hcontainer q hq hcontainedq)]
    exact h.containers q hq hcontainedq
  case writtenBack =>
    intro q hq hcontainedq hwritten
    rw [m.set_store_of_ne _ (hcontainer q hq hcontainedq)]
    by_cases hsame : q.name = p.name
    · rw [hsame, m.set_store_self]
      rfl
    · rw [m.set_store_of_ne _ hsame]
      refine h.writtenBack q hq hcontainedq ((List.mem_append.1 hwritten).resolve_right ?_)
      exact fun hlast => hsame (List.mem_singleton.1 hlast)
  case result =>
    intro name hbinding hnot
    have hne : name ≠ p.name := by
      rintro rfl
      exact hnot ((hnames.mem_contained_iff hp).2 hcontained)
    rw [m.set_store_of_ne _ hne]
    exact h.result name hbinding hnot
  case kept =>
    intro q hq hcontainedq hbinding
    have hne : q.name ≠ p.name := by
      intro heq
      obtain rfl := hnames.eq_of_name_eq hq hp heq
      rw [hcontained] at hcontainedq
      cases hcontainedq
    rw [m.set_store_of_ne _ hne]
    exact h.kept q hq hcontainedq hbinding

/-- The write-backs. -/
theorem runAll_writeBacks (hnames : c.NamesApart)
    (h : Returned c options s start before [] m) :
    ∃ m', s.runAll m c.writeBacks = ⟨.finished, m', []⟩ ∧
      Returned c options s start before c.contained m' := by
  apply Scenario.runAll_map (Returned c options s start before) h
  intro written name m hmem hm
  obtain ⟨p, hp, hcontained, rfl⟩ := mem_contained_iff_exists.1 hmem
  exact ⟨m.set p.name (m.element (m.store (containerName p.name)) 0), rfl,
    hm.writeBack hnames hp hcontained⟩

/-- The call with everything around it. -/
theorem runAll_callStatements (options : ClassOptions) (hnames : c.NamesApart)
    (h : Prepared c s start bound (c.parameters.filter c.isContained) c.snapshotted m)
    (hpresent : ∀ p ∈ c.nullable, s.input p.name ≠ .null) :
    ∃ before after, s.runAll m (c.callStatements options) =
        ⟨.finished, after, [c.callEvent options before]⟩ ∧
      Prepared c s start bound (c.parameters.filter c.isContained) c.snapshotted before ∧
      Returned c options s start before c.contained after := by
  obtain ⟨before, target, hi⟩ := exists_invokes c options s m
  have hbefore : Prepared c s start bound (c.parameters.filter c.isContained) c.snapshotted
      before := by
    rcases hi.declared with rfl | ⟨v, rfl⟩
    · exact h
    · exact h.set v c.resultName_not_mem (fun p _ => c.containerName_ne_resultName p.name)
        fun p _ => c.snapshotName_ne_resultName p.name
  obtain ⟨after, hwrite, hafter⟩ := runAll_writeBacks hnames (returned_of_invokes hnames hbefore hi)
  have hblock : s.runAll before ((c.invocation options).block ++ c.writeBacks) =
      ⟨.finished, after, [c.callEvent options before]⟩ := by
    rw [Scenario.runAll_append_of_finished _ hi.run_block, hwrite]
    rfl
  refine ⟨before, after, ?_, hbefore, hafter⟩
  simp only [callStatements]
  rw [Scenario.runAll_append_of_finished _ hi.run_before]
  cases hall : Expr.conjunction? (c.nullable.map (nullTest .notEqual)) with
  | none => simp only [hblock, List.nil_append]
  | some allPresent =>
    have htruth : s.truth before allPresent = true := by
      rw [truth_conjunction hall, List.all_map, List.all_eq_true]
      intro p hp
      rw [Function.comp_apply, truth_nullTest_notEqual,
        hbefore.inputs p (mem_parameters_of_mem_nullable hp), Bool.not_eq_true', ← Bool.not_eq_true,
        Datum.isNull_iff]
      exact hpresent p hp
    simp only [Scenario.runAll_singleton, Scenario.run, htruth, if_true, hblock, Run.andThen,
      Bool.false_eq_true, if_false, List.nil_append, List.append_nil]

/-- No null is passed where a parameter may not be null. -/
theorem arguments_present (hnames : c.NamesApart)
    (hinputs : ∀ p ∈ c.parameters, before.store p.name = s.input p.name)
    (hpresent : ∀ p ∈ c.nullable, s.input p.name ≠ .null) :
    List.Forall₂ (fun p v => p.category.isNullable = true → v ≠ .null) c.parameters
      (c.arguments before) := by
  rw [arguments, List.forall₂_map_right_iff, List.forall₂_same]
  intro p hp hnullable
  have hcontained : c.isContained p = false := by
    rw [isContained]
    cases hcategory : p.category with
    | primitive => rw [hcategory] at hnullable; cases hnullable
    | _ => rfl
  rw [passed_of_not_isContained hnames hp hcontained, hinputs p hp]
  exact hpresent p (List.mem_filter.2 ⟨hp, hnullable⟩)

end

end ContractTests.Contract
