import ContractTests.Proofs.Text.Fresh
import ContractTests.TestClass.Method

/-! # The names that a test method introduces

A container, a snapshot and the result have names of different endings, so that none of them is
another one. The result's name is no parameter's by choice (`resultName_not_mem`). That the others
are no parameters' either is up to the contract: `Contract.NamesApart`.
-/

set_option autoImplicit false

namespace ContractTests.Contract

/-! ## Endings -/

theorem getLast?_append_string (s t : String) (ht : t.toList ≠ []) :
    (s ++ t).toList.getLast? = t.toList.getLast? := by
  rw [String.toList_append, List.getLast?_append_of_ne_nil _ ht]

theorem getLast?_snapshotName (name : String) :
    (snapshotName name).toList.getLast? = some 'd' :=
  getLast?_append_string name "_old" (by decide)

theorem getLast?_containerName (name : String) :
    (containerName name).toList.getLast? = some 'f' :=
  getLast?_append_string name "Ref" (by decide)

theorem snapshotName_ne_containerName (name other : String) :
    snapshotName name ≠ containerName other := by
  intro h
  have hlast := getLast?_snapshotName name
  rw [h, getLast?_containerName] at hlast
  exact absurd hlast (by decide)

theorem snapshotName_inj {name other : String} :
    snapshotName name = snapshotName other ↔ name = other := String.append_left_inj _

theorem containerName_inj {name other : String} :
    containerName name = containerName other ↔ name = other := String.append_left_inj _

/-! ## The result -/

theorem resultNames_injective :
    Function.Injective fun n => if n = 0 then "result" else "result_" ++ natText n :=
  Text.numbered_injective (by decide) Function.injective_id

theorem resultName_not_mem (c : Contract) : c.resultName ∉ c.signature.parameterNames :=
  Text.fresh_not_mem resultNames_injective _

/-- The result's name ends in `t` or a digit. -/
theorem getLast?_resultName (c : Contract) :
    ∃ last, c.resultName.toList.getLast? = some last ∧ last ≠ 'd' ∧ last ≠ 'f' := by
  obtain ⟨n, hn, -⟩ := Text.fresh_spec resultNames_injective c.signature.parameterNames
  rw [resultName, hn]
  by_cases h0 : n = 0
  · rw [if_pos h0]
    exact ⟨'t', by decide, by decide, by decide⟩
  · have hdigits : decimalDigits n ≠ [] := List.ne_nil_of_length_pos Nat.length_toDigits_pos
    have htext : (natText n).toList = decimalDigits n := String.toList_ofList
    have hmem := List.getLast_mem hdigits
    have hdigit := Nat.isDigit_of_mem_toDigits (by decide) (by decide) hmem
    refine ⟨(decimalDigits n).getLast hdigits, ?_, ?_, ?_⟩
    · rw [if_neg h0, getLast?_append_string _ _ (htext ▸ hdigits), htext,
        List.getLast?_eq_some_getLast]
    · intro h; rw [h] at hdigit; exact absurd hdigit (by decide)
    · intro h; rw [h] at hdigit; exact absurd hdigit (by decide)

theorem snapshotName_ne_resultName (c : Contract) (name : String) :
    snapshotName name ≠ c.resultName := by
  intro h
  obtain ⟨last, hlast, hd, -⟩ := c.getLast?_resultName
  rw [← h, getLast?_snapshotName] at hlast
  exact hd (Option.some.inj hlast).symm

theorem containerName_ne_resultName (c : Contract) (name : String) :
    containerName name ≠ c.resultName := by
  intro h
  obtain ⟨last, hlast, -, hf⟩ := c.getLast?_resultName
  rw [← h, getLast?_containerName] at hlast
  exact hf (Option.some.inj hlast).symm

/-! ## Names apart -/

/-- No two parameters have one name, and no parameter has the name of a snapshot or container that
the test declares. -/
structure NamesApart (c : Contract) : Prop where
  parameters : c.signature.parameterNames.Nodup
  snapshots : ∀ p ∈ c.snapshotted, snapshotName p.name ∉ c.signature.parameterNames
  containers : ∀ p ∈ c.parameters, c.isContained p = true →
    containerName p.name ∉ c.signature.parameterNames

variable {c : Contract} {p q : Parameter}

theorem mem_parameterNames (hp : p ∈ c.parameters) : p.name ∈ c.signature.parameterNames :=
  List.mem_map_of_mem hp

theorem ne_of_not_mem_parameterNames {name : String} (hp : p ∈ c.parameters)
    (hname : name ∉ c.signature.parameterNames) : p.name ≠ name :=
  fun heq => hname (heq ▸ mem_parameterNames hp)

/-- A parameter is known by its name. -/
theorem NamesApart.eq_of_name_eq (h : c.NamesApart) (hp : p ∈ c.parameters)
    (hq : q ∈ c.parameters) (hname : p.name = q.name) : p = q :=
  List.inj_on_of_nodup_map h.parameters hp hq hname

theorem mem_contained_iff_exists {name : String} :
    name ∈ c.contained ↔ ∃ p ∈ c.parameters, c.isContained p = true ∧ p.name = name := by
  rw [contained, List.mem_eraseDups, List.mem_map]
  simp only [List.mem_filter, and_assoc]

theorem NamesApart.mem_contained_iff (h : c.NamesApart) (hp : p ∈ c.parameters) :
    p.name ∈ c.contained ↔ c.isContained p = true := by
  rw [mem_contained_iff_exists]
  constructor
  · rintro ⟨q, hq, hcontained, hname⟩
    obtain rfl := h.eq_of_name_eq hq hp hname
    exact hcontained
  · exact fun hcontained => ⟨p, hp, hcontained, rfl⟩

/-- A snapshot is of a parameter. -/
theorem mem_parameters_of_mem_snapshotted (hp : p ∈ c.snapshotted) : p ∈ c.parameters := by
  unfold snapshotted at hp
  split at hp
  · cases hp
  · obtain ⟨name, -, hname⟩ := List.mem_filterMap.1 hp
    exact List.mem_of_find?_eq_some hname

/-- The snapshot of a variable is that of a parameter. -/
theorem exists_of_lookup_snapshots {name snapshot : String}
    (h : c.snapshots.lookup name = some snapshot) :
    ∃ p ∈ c.snapshotted, p.name = name ∧ snapshotName p.name = snapshot := by
  obtain ⟨earlier, later, hsnapshots, -⟩ := List.lookup_eq_some_iff.1 h
  have hmem : (name, snapshot) ∈ c.snapshots := by rw [hsnapshots]; simp
  obtain ⟨p, hp, heq⟩ := List.mem_map.1 hmem
  exact ⟨p, hp, congrArg Prod.fst heq, congrArg Prod.snd heq⟩

end ContractTests.Contract
