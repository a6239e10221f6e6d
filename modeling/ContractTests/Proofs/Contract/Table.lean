import ContractTests.Contract.Table
import Mathlib.Data.List.Nodup

/-! # Tables without repeated names

Inserting keeps names apart (`ContractTable.nodup_names_insert`). Contracts of new names are appended
(`ContractTable.foldl_insert`), so that the table of a list of contracts with different names holds the
list as it is (`ContractTable.ofList_eq_ok_iff`).
-/

set_option autoImplicit false

namespace ContractTests.ContractTable

theorem contains_eq_isSome_get? (t : ContractTable) (name : String) :
    t.contains name = (t.get? name).isSome := by
  rw [Bool.eq_iff_iff, get?, List.find?_isSome]
  exact List.any_eq_true

theorem place_of_not_mem {c : Contract} {contracts : List Contract}
    (h : c.name ∉ contracts.map (·.name)) : place c contracts = contracts ++ [c] := by
  induction contracts with
  | nil => rfl
  | cons other rest ih =>
    rw [List.map_cons, List.mem_cons, not_or] at h
    have hne : (other.name == c.name) = false := beq_eq_false_iff_ne.2 (Ne.symm h.1)
    rw [place, hne, if_neg Bool.false_ne_true, ih h.2, List.cons_append]

theorem mem_place {c other : Contract} {contracts : List Contract}
    (h : other ∈ place c contracts) : other = c ∨ other ∈ contracts := by
  induction contracts with
  | nil => exact .inl (List.mem_singleton.1 h)
  | cons first rest ih =>
    rw [place] at h
    split at h
    · exact (List.mem_cons.1 h).imp_right (List.mem_cons_of_mem _)
    · rcases List.mem_cons.1 h with rfl | h
      · exact .inr List.mem_cons_self
      · exact (ih h).imp_right (List.mem_cons_of_mem _)

/-- Placing a contract of a name that is taken changes no name. -/
theorem map_name_place {c : Contract} {contracts : List Contract}
    (h : c.name ∈ contracts.map (·.name)) :
    (place c contracts).map (·.name) = contracts.map (·.name) := by
  induction contracts with
  | nil => cases h
  | cons first rest ih =>
    rw [place]
    split
    · rename_i hfirst
      rw [List.map_cons, List.map_cons, beq_iff_eq.1 hfirst]
    · rename_i hfirst
      have hrest : c.name ∈ rest.map (·.name) := by
        refine (List.mem_cons.1 h).resolve_left fun heq => hfirst ?_
        exact beq_iff_eq.2 heq.symm
      rw [List.map_cons, List.map_cons, ih hrest]

theorem nodup_names_insert {t : ContractTable} (h : t.names.Nodup) (c : Contract) :
    (t.insert c).names.Nodup := by
  rw [names, insert]
  by_cases hc : c.name ∈ t.contracts.map (·.name)
  · rw [map_name_place hc]
    exact h
  · rw [place_of_not_mem hc, List.map_append, List.map_singleton, List.nodup_append]
    refine ⟨h, List.nodup_singleton _, ?_⟩
    rintro name hname other hother rfl
    exact hc (List.mem_singleton.1 hother ▸ hname)

/-- No name is reported when the names differ from each other and from those seen before. -/
theorem duplicate?_eq_none_iff {contracts : List Contract} {seen : List String} :
    duplicate? contracts seen = none ↔
      (contracts.map (·.name)).Nodup ∧ ∀ name ∈ contracts.map (·.name), name ∉ seen := by
  induction contracts generalizing seen with
  | nil => simp [duplicate?]
  | cons c rest ih =>
    rw [duplicate?, List.map_cons, List.nodup_cons, List.forall_mem_cons]
    by_cases hc : c.name ∈ seen
    · simp [hc]
    · rw [if_neg (by simpa using hc), ih]
      simp only [List.mem_append, List.mem_singleton, not_or]
      constructor
      · rintro ⟨hnodup, hnew⟩
        exact ⟨⟨fun hmem => (hnew _ hmem).2 rfl, hnodup⟩, hc, fun name hname => (hnew name hname).1⟩
      · rintro ⟨⟨hmem, hnodup⟩, -, hnew⟩
        refine ⟨hnodup, fun name hname => ⟨hnew name hname, ?_⟩⟩
        rintro rfl
        exact hmem hname

/-- Contracts of new names go to the end. -/
theorem foldl_insert {contracts : List Contract} {t : ContractTable}
    (hnodup : (contracts.map (·.name)).Nodup) (hnew : ∀ c ∈ contracts, c.name ∉ t.names) :
    contracts.foldl insert t = ⟨t.contracts ++ contracts⟩ := by
  induction contracts generalizing t with
  | nil => rw [List.foldl_nil, List.append_nil]
  | cons c rest ih =>
    rw [List.map_cons, List.nodup_cons] at hnodup
    obtain ⟨hc, hrest⟩ := List.forall_mem_cons.1 hnew
    have hinsert : t.insert c = ⟨t.contracts ++ [c]⟩ := congrArg _ (place_of_not_mem hc)
    have hlater : ∀ c' ∈ rest, c'.name ∉ (t.insert c).names := by
      intro c' hc' hmem
      rw [hinsert, names, List.map_append, List.mem_append, List.map_singleton,
        List.mem_singleton] at hmem
      rcases hmem with hmem | heq
      · exact hrest c' hc' hmem
      · exact hnodup.1 (heq ▸ List.mem_map_of_mem hc')
    rw [List.foldl_cons, ih hnodup.2 hlater, hinsert, List.append_assoc, List.singleton_append]

/-- A list of contracts is a table when their names differ; it holds them as they are. -/
theorem ofList_eq_ok_iff {contracts : List Contract} {t : ContractTable} :
    ofList contracts = .ok t ↔ (contracts.map (·.name)).Nodup ∧ t.contracts = contracts := by
  have hnone : duplicate? contracts [] = none ↔ (contracts.map (·.name)).Nodup := by
    simp [duplicate?_eq_none_iff]
  cases hduplicate : duplicate? contracts [] with
  | some name =>
    have hnodup : ¬(contracts.map (·.name)).Nodup := by
      rw [← hnone, hduplicate]
      nofun
    simp [ofList, hduplicate, hnodup]
  | none =>
    have hnodup := hnone.1 hduplicate
    have hfold : contracts.foldl insert empty = ⟨contracts⟩ :=
      foldl_insert hnodup (by simp [empty, names])
    obtain ⟨held⟩ := t
    simp [ofList, hduplicate, hnodup, hfold, eq_comm]

end ContractTests.ContractTable
