import ContractTests.Proofs.TestRun.Machine
import ContractTests.Proofs.TestRun.Names

/-! # Before the call

`Prepared` is what holds of the memory while a test method gets ready for the call: parameters hold
their inputs, containers their parameter's input, and snapshots the value on entry. Objects made
before `bound` are the containers, those made from there on are the copies of collections, so that
the call has no way to a copy. The inputs, containers and snapshots establish it statement by
statement; the guard against null (`runAll_nullGuard`) and the echoes leave the memory as it is.
-/

set_option autoImplicit false

universe u

namespace ContractTests.Contract

variable {D : Type u} {s : Scenario D} {c : Contract} {start m : Memory D} {p : Parameter}

/-! ## Truth of null tests -/

theorem truth_nullTest_equal : s.truth m (nullTest .equal p) = (m.store p.name).isNull := rfl

theorem truth_nullTest_notEqual :
    s.truth m (nullTest .notEqual p) = !(m.store p.name).isNull := rfl

theorem truth_disjunction {es : List Expr} {e : Expr} (h : Expr.disjunction? es = some e) :
    s.truth m e = es.any (s.truth m) := by
  have hfold (es : List Expr) (e : Expr) :
      s.truth m (es.foldl (.binary .or) e) = (s.truth m e || es.any (s.truth m)) := by
    induction es generalizing e with
    | nil => simp
    | cons e' es ih => rw [List.foldl_cons, ih, List.any_cons, Scenario.truth, Bool.or_assoc]
  cases es with
  | nil => cases h
  | cons e' es =>
    cases h
    exact hfold es e'

theorem truth_conjunction {es : List Expr} {e : Expr} (h : Expr.conjunction? es = some e) :
    s.truth m e = es.all (s.truth m) := by
  have hfold (es : List Expr) (e : Expr) :
      s.truth m (es.foldl (.binary .and) e) = (s.truth m e && es.all (s.truth m)) := by
    induction es generalizing e with
    | nil => simp
    | cons e' es ih => rw [List.foldl_cons, ih, List.all_cons, Scenario.truth, Bool.and_assoc]
  cases es with
  | nil => cases h
  | cons e' es =>
    cases h
    exact hfold es e'

/-! ## Types of new objects -/

theorem isArrayType_append (type : String) : isArrayType (type ++ "[]") = true := by
  have hsuffix : "[]".toList.isSuffixOf (type ++ "[]").toList = true := by
    rw [List.isSuffixOf_iff_suffix, String.toList_append]
    exact List.suffix_append _ _
  rw [isArrayType, Text.stripEnd?, if_pos hsuffix]
  rfl

theorem isArrayType_diamond (type : String) : isArrayType (type ++ "<>") = false := by
  have hsuffix : ¬ "[]".toList.isSuffixOf (type ++ "<>").toList = true := by
    rw [List.isSuffixOf_iff_suffix]
    rintro ⟨before, h⟩
    have hlast := congrArg List.getLast? h
    rw [List.getLast?_append_of_ne_nil _ (by decide),
      getLast?_append_string type "<>" (by decide)] at hlast
    exact absurd hlast (by decide)
  rw [isArrayType, Text.stripEnd?, if_neg hsuffix]
  rfl

/-! ## The memory before the call -/

/-- A collection's copy: null for null, and else a new object with the contents on entry. -/
def IsCopy (start : Memory D) (input : Datum D) (bound : Nat) (m : Memory D) (v : Datum D) : Prop :=
  (input = .null ∧ v = .null) ∨
    ∃ n, bound ≤ n ∧ n < m.made ∧ v = .object (.made n) ∧ m.heap (.made n) = start.contents input

/-- The value of a snapshot of a parameter: a copy of a collection, and else the value on entry. -/
structure IsSnapshot (s : Scenario D) (start : Memory D) (bound : Nat) (m : Memory D)
    (p : Parameter) (v : Datum D) : Prop where
  copied : p.category = .collection → IsCopy start (s.input p.name) bound m v
  same : p.category ≠ .collection → v = s.input p.name

/-- A copy is kept as long as the object is. -/
theorem IsSnapshot.mono {bound bound' : Nat} {v : Datum D} {m' : Memory D}
    (h : IsSnapshot s start bound m p v) (hbound : bound' ≤ bound) (hmade : m.made ≤ m'.made)
    (hheap : ∀ n, bound ≤ n → n < m.made → m'.heap (.made n) = m.heap (.made n)) :
    IsSnapshot s start bound' m' p v where
  copied hcategory := by
    rcases h.copied hcategory with hnull | ⟨n, hn, hlt, hv, hcontents⟩
    · exact .inl hnull
    · refine .inr ⟨n, Nat.le_trans hbound hn, Nat.lt_of_lt_of_le hlt hmade, hv, ?_⟩
      rw [hheap n hn hlt, hcontents]
  same := h.same

theorem IsSnapshot.set {bound : Nat} {v : Datum D} (h : IsSnapshot s start bound m p v)
    (name : String) (w : Datum D) : IsSnapshot s start bound (m.set name w) p v :=
  h.mono (Nat.le_refl _) (Nat.le_refl _) fun _ _ _ => rfl

/-- The memory on the way to the call, when the parameters in `contained` have their containers and
those in `snapshotted` their snapshots. -/
structure Prepared (c : Contract) (s : Scenario D) (start : Memory D) (bound : Nat)
    (contained snapshotted : List Parameter) (m : Memory D) : Prop where
  inputs : ∀ p ∈ c.parameters, m.store p.name = s.input p.name
  given : ∀ n, m.heap (.given n) = start.heap (.given n)
  bound_le : bound ≤ m.made
  containers : ∀ p ∈ contained, ∃ n < bound,
    m.store (containerName p.name) = .object (.made n) ∧ m.heap (.made n) = [s.input p.name]
  snapshots : ∀ p ∈ snapshotted, IsSnapshot s start bound m p (m.store (snapshotName p.name))

namespace Prepared

variable {bound : Nat} {contained snapshotted : List Parameter}

/-- An input's contents are those on entry. -/
theorem contents_input (h : Prepared c s start bound contained snapshotted m) (name : String) :
    m.contents (s.input name) = start.contents (s.input name) := by
  cases hinput : s.input name with
  | object l =>
    obtain ⟨n, rfl⟩ := s.input_given name l hinput
    exact h.given n
  | _ => rfl

/-- A variable that is neither a parameter, a container nor a snapshot may be set. -/
theorem set (h : Prepared c s start bound contained snapshotted m) {name : String} (v : Datum D)
    (hparameters : name ∉ c.signature.parameterNames)
    (hcontainers : ∀ p ∈ contained, containerName p.name ≠ name)
    (hsnapshots : ∀ p ∈ snapshotted, snapshotName p.name ≠ name) :
    Prepared c s start bound contained snapshotted (m.set name v) where
  inputs p hp := by
    rw [m.set_store_of_ne v (ne_of_not_mem_parameterNames hp hparameters), h.inputs p hp]
  given := h.given
  bound_le := h.bound_le
  containers p hp := by
    rw [m.set_store_of_ne v (hcontainers p hp)]
    exact h.containers p hp
  snapshots p hp := by
    rw [m.set_store_of_ne v (hsnapshots p hp)]
    exact (h.snapshots p hp).set _ _

/-- Objects made before stay as they are. -/
theorem make (h : Prepared c s start bound contained snapshotted m) (contents : List (Datum D)) :
    Prepared c s start bound contained snapshotted (m.make contents) where
  inputs := h.inputs
  given n := by rw [m.make_heap_of_ne contents (by simp), h.given]
  bound_le := Nat.le_succ_of_le h.bound_le
  containers p hp := by
    obtain ⟨n, hn, hstore, hheap⟩ := h.containers p hp
    have hne : Location.made n ≠ .made m.made := by
      have := h.bound_le
      simp only [ne_eq, Location.made.injEq]
      omega
    exact ⟨n, hn, hstore, by rw [m.make_heap_of_ne contents hne, hheap]⟩
  snapshots p hp := by
    refine (h.snapshots p hp).mono (Nat.le_refl _) (Nat.le_succ _) fun n _ hn => ?_
    have hne : Location.made n ≠ .made m.made := by
      simp only [ne_eq, Location.made.injEq]
      omega
    exact m.make_heap_of_ne contents hne

end Prepared

/-! ## Inputs and containers -/

theorem mem_of_mem_concat {done : List Parameter} {q : Parameter} (hq : q ∈ done ++ [p])
    (hname : q.name ≠ p.name) : q ∈ done := by
  refine (List.mem_append.1 hq).resolve_right fun hlast => hname ?_
  rw [List.mem_singleton.1 hlast]

theorem runAll_inputs (s : Scenario D) (start : Memory D) (ps : List Parameter) :
    ∃ m, s.runAll start (ps.map fun p => .input p.type p.name) = ⟨.finished, m, []⟩ ∧
      (∀ p ∈ ps, m.store p.name = s.input p.name) ∧ m.heap = start.heap := by
  refine Scenario.runAll_map
    (fun (done : List Parameter) m =>
      (∀ p ∈ done, m.store p.name = s.input p.name) ∧ m.heap = start.heap)
    ⟨nofun, rfl⟩ fun done p m _ hdone =>
      ⟨m.set p.name (s.input p.name), rfl, fun q hq => ?_, hdone.2⟩
  by_cases hname : q.name = p.name
  · rw [hname, m.set_store_self]
  · rw [m.set_store_of_ne _ hname]
    exact hdone.1 q (mem_of_mem_concat hq hname)

/-- One container, a new array with the parameter's input. -/
theorem Prepared.addContainer {done : List Parameter} (hnames : c.NamesApart)
    (h : Prepared c s start m.made done [] m) (hp : p ∈ c.parameters)
    (hcontained : c.isContained p = true) :
    Prepared c s start (m.made + 1) (done ++ [p]) []
      ((m.make [m.store p.name]).set (containerName p.name) (.object (.made m.made))) := by
  have hfree := hnames.containers p hp hcontained
  have hmade := h.make [m.store p.name]
  constructor
  case inputs =>
    intro q hq
    rw [Memory.set_store_of_ne _ _ (ne_of_not_mem_parameterNames hq hfree), hmade.inputs q hq]
  case given => exact hmade.given
  case bound_le => exact Nat.le_refl _
  case containers =>
    intro q hq
    by_cases hname : q.name = p.name
    · refine ⟨m.made, Nat.lt_succ_self _, ?_, ?_⟩
      · rw [hname, Memory.set_store_self]
      · rw [Memory.set_heap, Memory.make_heap_self, hname, h.inputs p hp]
    · obtain ⟨n, hn, hstore, hheap⟩ := hmade.containers q (mem_of_mem_concat hq hname)
      refine ⟨n, Nat.lt_succ_of_lt hn, ?_, hheap⟩
      rw [Memory.set_store_of_ne _ _ fun heq => hname (containerName_inj.1 heq), hstore]
  case snapshots =>
    intro q hq
    cases hq

theorem run_container (s : Scenario D) (m : Memory D) (p : Parameter) :
    s.run m (.declare (p.type ++ "[]") (containerName p.name)
        (.create (p.type ++ "[]") [.var p.name])) =
      ⟨.finished,
        (m.make [m.store p.name]).set (containerName p.name) (.object (.made m.made)), []⟩ := by
  simp only [Scenario.run, Scenario.evaluate, isArrayType_append, if_true]

/-- The first statements declare the inputs and the containers. -/
theorem runAll_entry (hnames : c.NamesApart) :
    ∃ m, s.runAll start c.inputs = ⟨.finished, m, []⟩ ∧
      Prepared c s start m.made (c.parameters.filter c.isContained) [] m := by
  obtain ⟨m, hrun, hinputs, hheap⟩ := runAll_inputs s start c.parameters
  obtain ⟨m', hrun', hprepared⟩ := Scenario.runAll_map
    (fun done m => Prepared c s start m.made done [] m)
    ⟨hinputs, fun n => by rw [hheap], Nat.le_refl _, nofun, nofun⟩ fun done p m hp h => by
      obtain ⟨hp, hcontained⟩ := List.mem_filter.1 hp
      exact ⟨_, run_container s m p, h.addContainer hnames hp hcontained⟩
  refine ⟨m', ?_, hprepared⟩
  rw [inputs, Scenario.runAll_append_of_finished _ hrun, hrun']
  rfl

/-! ## Snapshots -/

section

variable {bound : Nat} {contained : List Parameter}

theorem evaluate_snapshotValue {done : List Parameter}
    (h : Prepared c s start bound contained done m) (hp : p ∈ c.parameters) :
    ∃ m' v, s.evaluate m (snapshotValue p) = ⟨v, m', []⟩ ∧
      Prepared c s start bound contained done m' ∧ IsSnapshot s start bound m' p v := by
  have hinput := h.inputs p hp
  unfold snapshotValue
  cases hcategory : p.category with
  | collection =>
    have hcopied {m' : Memory D} {v : Datum D} (hv : IsCopy start (s.input p.name) bound m' v) :
        IsSnapshot s start bound m' p v := ⟨fun _ => hv, fun hne => absurd hcategory hne⟩
    cases hnull : (s.input p.name).isNull with
    | true =>
      refine ⟨m, .null, ?_, h, hcopied (.inl ⟨Datum.isNull_iff.1 hnull, rfl⟩)⟩
      simp [Scenario.evaluate, Scenario.truth, Expr.null, hinput, hnull]
    | false =>
      refine ⟨m.make (m.contents (s.input p.name)), .object (.made m.made), ?_, h.make _,
        hcopied (.inr ⟨m.made, h.bound_le, Nat.lt_succ_self _, rfl, ?_⟩)⟩
      · simp [Scenario.evaluate, Scenario.truth, Expr.null, hinput, hnull, isArrayType_diamond]
      · rw [Memory.make_heap_self, h.contents_input]
  | primitive | reference =>
    refine ⟨m, _, rfl, h, fun heq => ?_, fun _ => hinput⟩
    rw [hcategory] at heq
    cases heq

/-- One snapshot. -/
theorem Prepared.addSnapshot {done : List Parameter} {v : Datum D} (hnames : c.NamesApart)
    (h : Prepared c s start bound contained done m) (hp : p ∈ c.snapshotted)
    (hdone : ∀ q ∈ done, q ∈ c.snapshotted) (hv : IsSnapshot s start bound m p v) :
    Prepared c s start bound contained (done ++ [p]) (m.set (snapshotName p.name) v) := by
  have hmem := mem_parameters_of_mem_snapshotted hp
  have hfree := hnames.snapshots p hp
  constructor
  case inputs =>
    intro q hq
    rw [m.set_store_of_ne v (ne_of_not_mem_parameterNames hq hfree), h.inputs q hq]
  case given => exact h.given
  case bound_le => exact h.bound_le
  case containers =>
    intro q hq
    rw [m.set_store_of_ne v (snapshotName_ne_containerName p.name q.name).symm]
    exact h.containers q hq
  case snapshots =>
    intro q hq
    by_cases hname : q.name = p.name
    · have hq : q ∈ c.snapshotted := by
        rcases List.mem_append.1 hq with hq | hq
        · exact hdone q hq
        · rwa [List.mem_singleton.1 hq]
      obtain rfl := hnames.eq_of_name_eq (mem_parameters_of_mem_snapshotted hq) hmem hname
      rw [m.set_store_self]
      exact hv.set _ _
    · rw [m.set_store_of_ne v fun heq => hname (snapshotName_inj.1 heq)]
      exact (h.snapshots q (mem_of_mem_concat hq hname)).set _ _

theorem run_snapshot {done : List Parameter} (hnames : c.NamesApart)
    (h : Prepared c s start bound contained done m) (hp : p ∈ c.snapshotted)
    (hdone : ∀ q ∈ done, q ∈ c.snapshotted) :
    ∃ m', s.run m (.declare p.type (snapshotName p.name) (snapshotValue p)) =
        ⟨.finished, m', []⟩ ∧ Prepared c s start bound contained (done ++ [p]) m' := by
  have hmem := mem_parameters_of_mem_snapshotted hp
  obtain ⟨m', v, hrun, hprepared, hv⟩ := evaluate_snapshotValue h hmem
  refine ⟨m'.set (snapshotName p.name) v, ?_, hprepared.addSnapshot hnames hp hdone hv⟩
  rw [Scenario.run, hrun]

theorem runAll_snapshotDeclarations (hnames : c.NamesApart)
    (h : Prepared c s start bound contained [] m) :
    ∃ m', s.runAll m c.snapshotDeclarations = ⟨.finished, m', []⟩ ∧
      Prepared c s start bound contained c.snapshotted m' := by
  obtain ⟨m', hrun, hprepared, -⟩ := Scenario.runAll_map
    (fun done m => Prepared c s start bound contained done m ∧ ∀ q ∈ done, q ∈ c.snapshotted)
    ⟨h, nofun⟩ fun done p m hp hdone => by
      obtain ⟨m', hrun, hprepared⟩ := run_snapshot hnames hdone.1 hp hdone.2
      refine ⟨m', hrun, hprepared, fun q hq => ?_⟩
      rcases List.mem_append.1 hq with hq | hq
      · exact hdone.2 q hq
      · rwa [List.mem_singleton.1 hq]
  exact ⟨m', hrun, hprepared⟩

end

/-! ## The guard against null -/

theorem mem_parameters_of_mem_nullable (hp : p ∈ c.nullable) : p ∈ c.parameters :=
  (List.mem_filter.1 hp).1

/-- The guard ends the method when a parameter is null that may be. -/
theorem runAll_nullGuard_of_null (hnull : ∃ p ∈ c.nullable, m.store p.name = .null) :
    s.runAll m c.nullGuard = ⟨.returned, m, []⟩ := by
  obtain ⟨p, hp, hstore⟩ := hnull
  unfold nullGuard
  cases hany : Expr.disjunction? (c.nullable.map (nullTest .equal)) with
  | none =>
    cases hnullable : c.nullable with
    | nil => rw [hnullable] at hp; cases hp
    | cons q rest => rw [hnullable] at hany; cases hany
  | some anyNull =>
    have htruth : s.truth m anyNull = true := by
      rw [truth_disjunction hany, List.any_map, List.any_eq_true]
      refine ⟨p, hp, ?_⟩
      rw [Function.comp_apply, truth_nullTest_equal, Datum.isNull_iff, hstore]
    simp only [Scenario.runAll_cons, Scenario.run, htruth, if_true, Scenario.runAll_nil,
      Run.andThen, List.append_nil]

/-- Without such a parameter the guard lets the method go on. -/
theorem runAll_nullGuard (hpresent : ∀ p ∈ c.nullable, m.store p.name ≠ .null) :
    s.runAll m c.nullGuard =
      ⟨.finished, m, c.nullable.map fun p => .assumed (nullTest .notEqual p) m⟩ := by
  have hstore : ∀ p ∈ c.nullable, (m.store p.name).isNull = false := by
    intro p hp
    rw [← Bool.not_eq_true, Datum.isNull_iff]
    exact hpresent p hp
  have hassumes : ∀ ps : List Parameter, (∀ p ∈ ps, (m.store p.name).isNull = false) →
      s.runAll m (ps.map fun p => .assume (nullTest .notEqual p)) =
        ⟨.finished, m, ps.map fun p => .assumed (nullTest .notEqual p) m⟩ := by
    intro ps hps
    induction ps with
    | nil => exact Scenario.runAll_nil
    | cons p ps ih =>
      obtain ⟨hp, hps⟩ := List.forall_mem_cons.1 hps
      rw [List.map_cons, Scenario.runAll_cons, Scenario.run, truth_nullTest_notEqual, hp]
      simp only [Run.andThen, Bool.not_false, if_true, ih hps, List.map_cons,
        List.singleton_append]
  unfold nullGuard
  cases hany : Expr.disjunction? (c.nullable.map (nullTest .equal)) with
  | none =>
    cases hnullable : c.nullable with
    | nil => exact Scenario.runAll_nil
    | cons q rest => rw [hnullable] at hany; cases hany
  | some anyNull =>
    have htruth : s.truth m anyNull = false := by
      rw [truth_disjunction hany, List.any_map, List.any_eq_false]
      intro p hp
      rw [Function.comp_apply, truth_nullTest_equal, hstore p hp]
      exact Bool.false_ne_true
    rw [Scenario.runAll_cons, Scenario.run, htruth, if_neg Bool.false_ne_true]
    simp only [Run.andThen, hassumes c.nullable hstore, List.nil_append]

/-! ## Echoes -/

theorem runAll_echoes (options : ClassOptions) :
    s.runAll m (c.echoes options) = ⟨.finished, m, []⟩ := by
  unfold echoes
  split
  · obtain ⟨m', hrun, hm⟩ : ∃ m', s.runAll m ((echoed false c.parameters).map echo) =
        ⟨.finished, m', []⟩ ∧ m' = m :=
      Scenario.runAll_map (fun _ m' => m' = m) rfl fun _ p m' _ hm => ⟨m', rfl, hm⟩
    rw [hrun, hm]
  · exact Scenario.runAll_nil

end ContractTests.Contract
