import ContractTests.Proofs.Contract.Wire
import ContractTests.Proofs.Text.Firsts

/-! # Histories of insertions

A table is an ordered map: whatever was inserted, it lists the names in the order of their first
insertions, and under each name it holds the contract that was inserted last (`names_foldl_insert`,
`get?_foldl_insert`). One insertion gives back the contract whose place is taken and changes nothing
else (`Exchanged`). A list of exchange forms, which may not repeat a name, is inserted in order, or
its first repeated name is reported (`history_and_wire`).
-/

set_option autoImplicit false

namespace ContractTests

/-! ## One insertion -/

/-- What `c` does to the contracts of a table: it goes to the end, or into the place of the only
contract of its name, which is given back. -/
inductive Exchanged (c : Contract) : Option Contract → List Contract → List Contract → Prop
  | added {contracts : List Contract} (hnew : ∀ other ∈ contracts, other.name ≠ c.name) :
    Exchanged c none contracts (contracts ++ [c])
  | replaced {earlier later : List Contract} {old : Contract} (hname : old.name = c.name)
    (hothers : ∀ other ∈ earlier ++ later, other.name ≠ c.name) :
    Exchanged c (some old) (earlier ++ old :: later) (earlier ++ c :: later)

namespace ContractTable

variable {t : ContractTable} {c : Contract}

theorem place_append {earlier : List Contract} {old : Contract} (hname : old.name = c.name)
    (hearlier : ∀ other ∈ earlier, other.name ≠ c.name) (later : List Contract) :
    place c (earlier ++ old :: later) = earlier ++ c :: later := by
  induction earlier with
  | nil => rw [List.nil_append, place, if_pos (beq_iff_eq.2 hname), List.nil_append]
  | cons other earlier ih =>
    obtain ⟨hother, hearlier⟩ := List.forall_mem_cons.1 hearlier
    rw [List.cons_append, place, if_neg (mt beq_iff_eq.1 hother), ih hearlier, List.cons_append]

/-- An insertion into a table without repeated names. -/
theorem exchanged_exchange (hnodup : t.names.Nodup) (c : Contract) :
    Exchanged c (t.exchange c).1 t.contracts (t.exchange c).2.contracts := by
  unfold exchange insert
  dsimp only
  cases hget : t.get? c.name with
  | none =>
    have hnew : ∀ other ∈ t.contracts, other.name ≠ c.name := fun other hother heq =>
      List.find?_eq_none.1 hget other hother (beq_iff_eq.2 heq)
    rw [place_of_not_mem fun hmem => (List.exists_of_mem_map hmem).elim fun _ h => hnew _ h.1 h.2]
    exact .added hnew
  | some old =>
    obtain ⟨hold, earlier, later, hsplit, hearlier⟩ := List.find?_eq_some_iff_append.1 hget
    have hname : old.name = c.name := beq_iff_eq.1 hold
    have hbefore : ∀ other ∈ earlier, other.name ≠ c.name := fun other hother => by
      simpa using hearlier other hother
    -- a later contract of the name would repeat the name of `old`
    have hafter : ∀ other ∈ later, other.name ≠ c.name := by
      rintro other hother heq
      rw [names, hsplit, List.map_append, List.map_cons, List.nodup_append, List.nodup_cons]
        at hnodup
      exact hnodup.2.1.1 (hname.trans heq.symm ▸ List.mem_map_of_mem hother)
    rw [hsplit, place_append hname hbefore]
    exact .replaced hname (List.forall_mem_append.2 ⟨hbefore, hafter⟩)

theorem names_insert (t : ContractTable) (c : Contract) :
    (t.insert c).names = if c.name ∈ t.names then t.names else t.names ++ [c.name] := by
  unfold names insert
  split
  · rename_i htaken
    exact map_name_place htaken
  · rename_i hnew
    rw [place_of_not_mem hnew, List.map_append, List.map_singleton]

theorem get?_insert (t : ContractTable) (c : Contract) (name : String) :
    (t.insert c).get? name = if c.name = name then some c else t.get? name := by
  obtain ⟨contracts⟩ := t
  simp only [get?, insert]
  induction contracts with
  | nil =>
    by_cases hname : c.name = name
    · simp [place, hname]
    · simp [place, hname]
  | cons other rest ih =>
    rw [place]
    split
    · rename_i hother
      have hother : other.name = c.name := beq_iff_eq.1 hother
      by_cases hname : c.name = name
      · simp [hname]
      · simp [hname, hother]
    · rename_i hother
      have hother : other.name ≠ c.name := mt beq_iff_eq.2 hother
      rw [List.find?_cons, List.find?_cons, ih]
      by_cases hname : c.name = name
      · have hne : (other.name == name) = false := beq_eq_false_iff_ne.2 (hname ▸ hother)
        simp [hname, hne]
      · simp [hname]

/-! ## All insertions -/

/-- The names are listed in the order of their first insertions. -/
theorem names_foldl_insert (history : List Contract) :
    (history.foldl insert empty).names = (history.map (·.name)).eraseDups := by
  induction history using List.reverseRecOn with
  | nil => rfl
  | append_singleton history last ih =>
    rw [List.foldl_append, List.foldl_cons, List.foldl_nil, names_insert, ih, List.map_append,
      List.map_singleton, eraseDups_append_singleton]
    simp only [List.mem_eraseDups]

/-- The contract that was inserted last is the one that is held. -/
theorem get?_foldl_insert (history : List Contract) (name : String) :
    (history.foldl insert empty).get? name = history.reverse.find? (·.name == name) := by
  induction history using List.reverseRecOn with
  | nil => rfl
  | append_singleton history last ih =>
    rw [List.foldl_append, List.foldl_cons, List.foldl_nil, get?_insert, ih, List.reverse_append,
      List.reverse_singleton, List.singleton_append, List.find?_cons]
    by_cases hname : last.name = name
    · rw [if_pos hname, beq_iff_eq.2 hname]
    · rw [if_neg hname, beq_eq_false_iff_ne.2 hname]

/-! ## Repeated names -/

/-- The name that is reported is that of the first contract whose name is not new. -/
theorem duplicate?_eq_some_iff {contracts : List Contract} {seen : List String} {name : String} :
    duplicate? contracts seen = some name ↔
      ∃ earlier c later, contracts = earlier ++ c :: later ∧
        duplicate? earlier seen = none ∧ c.name ∈ seen ++ earlier.map (·.name) ∧
        name = c.name := by
  induction contracts generalizing seen with
  | nil => simp [duplicate?]
  | cons first rest ih =>
    rw [duplicate?]
    split
    · rename_i hfirst
      have hfirst : first.name ∈ seen := List.contains_iff_mem.1 hfirst
      constructor
      · rintro ⟨⟩
        exact ⟨[], first, rest, rfl, rfl, by simpa using hfirst, rfl⟩
      · rintro ⟨earlier, c, later, hsplit, hnone, -, rfl⟩
        cases earlier with
        | nil =>
          cases hsplit
          rfl
        | cons other earlier =>
          cases hsplit
          rw [duplicate?, if_pos (List.contains_iff_mem.2 hfirst)] at hnone
          cases hnone
    · rename_i hfirst
      rw [ih]
      constructor
      · rintro ⟨earlier, c, later, rfl, hnone, hmem, rfl⟩
        exact ⟨first :: earlier, c, later, rfl, by rw [duplicate?, if_neg hfirst, hnone],
          by simpa using hmem, rfl⟩
      · rintro ⟨earlier, c, later, hsplit, hnone, hmem, rfl⟩
        cases earlier with
        | nil =>
          cases hsplit
          simp only [List.map_nil, List.append_nil] at hmem
          exact absurd (List.contains_iff_mem.2 hmem) hfirst
        | cons other earlier =>
          cases hsplit
          rw [duplicate?, if_neg hfirst] at hnone
          exact ⟨earlier, c, later, rfl, hnone, by simpa using hmem, rfl⟩

theorem ofList_eq_error_iff {contracts : List Contract} {fault : Duplicate} :
    ofList contracts = .error fault ↔ ∃ earlier c later, contracts = earlier ++ c :: later ∧
      (earlier.map (·.name)).Nodup ∧ c.name ∈ earlier.map (·.name) ∧ fault = ⟨c.name⟩ := by
  have hfault : ofList contracts = .error fault ↔ duplicate? contracts [] = some fault.name := by
    obtain ⟨name⟩ := fault
    unfold ofList
    cases duplicate? contracts [] <;> simp
  have hnone {earlier : List Contract} :
      duplicate? earlier [] = none ↔ (earlier.map (·.name)).Nodup := by
    simp [duplicate?_eq_none_iff]
  rw [hfault, duplicate?_eq_some_iff]
  obtain ⟨name⟩ := fault
  simp only [hnone, List.nil_append, Duplicate.mk.injEq]

end ContractTable

/-! ## Exchange forms -/

/-- The name that the contract has in a table: its own, or that of its function. -/
def WireContract.effectiveName (w : WireContract) : String := w.name.getD w.signature.name

namespace ContractTable

/-- The exchange forms that a record lists. -/
def wire? (j : Json) : Option (List WireContract) := do
  match ← j.record? ["functions"] with
  | [some functions] => functions.list? WireContract.ofJson?
  | _ => none

theorem list?_map {α β : Type} (decode : Json → Option α) (f : α → β) (j : Json) :
    Json.list? (fun j => (decode j).map f) j = (Json.list? decode j).map (·.map f) := by
  have helements (js : List Json) :
      js.mapM (fun j => (decode j).map f) = (js.mapM decode).map (·.map f) := by
    induction js with
    | nil => rfl
    | cons j js ih =>
      rw [List.mapM_cons, List.mapM_cons, ih]
      cases decode j with
      | none => rfl
      | some first => cases js.mapM decode <;> rfl
  unfold Json.list?
  cases j.array? with
  | none => rfl
  | some js => exact helements js

/-- A record of a table is read as exchange forms, of which the table is made. -/
theorem ofJson_eq (j : Json) :
    ofJson j = (wire? j).elim (.error .malformed) fun wire => (ofWire wire).mapError .duplicate := by
  have hcontracts : contractsOf? j = (wire? j).map (·.map WireContract.toContract) := by
    unfold contractsOf? wire?
    cases j.record? ["functions"] with
    | none => rfl
    | some fields =>
      rcases fields with _ | ⟨_ | functions, _ | _⟩
      case some.cons.some.nil =>
        have hdecode : Contract.ofJson? = fun j => (WireContract.ofJson? j).map (·.toContract) :=
          funext Contract.ofJson?_eq
        rw [hdecode]
        exact list?_map _ _ functions
      all_goals rfl
  rw [ofJson, hcontracts]
  cases wire? j <;> rfl

/-- A table is made of exchange forms exactly when no name repeats, by inserting them in order. -/
theorem ofWire_eq_ok_iff {wire : List WireContract} {t : ContractTable} :
    ofWire wire = .ok t ↔ (wire.map (·.effectiveName)).Nodup ∧
      t = (wire.map (·.toContract)).foldl insert empty := by
  have hnames : (wire.map (·.toContract)).map (·.name) = wire.map (·.effectiveName) :=
    List.map_map ..
  rw [ofWire, ofList_eq_ok_iff, hnames]
  refine and_congr_right fun hnodup => ?_
  rw [foldl_insert (hnames ▸ hnodup) fun _ _ => List.not_mem_nil]
  obtain ⟨contracts⟩ := t
  simp [empty]

/-- Otherwise the first name that repeats is reported. -/
theorem ofWire_eq_error_iff {wire : List WireContract} {fault : Duplicate} :
    ofWire wire = .error fault ↔ ∃ earlier w later, wire = earlier ++ w :: later ∧
      (earlier.map (·.effectiveName)).Nodup ∧ w.effectiveName ∈ earlier.map (·.effectiveName) ∧
      fault = ⟨w.effectiveName⟩ := by
  have hnames (wire : List WireContract) :
      (wire.map (·.toContract)).map (·.name) = wire.map (·.effectiveName) := List.map_map ..
  rw [ofWire, ofList_eq_error_iff]
  constructor
  · rintro ⟨earlier, c, later, hsplit, hnodup, hmem, rfl⟩
    obtain ⟨earlier, rest, rfl, rfl, hrest⟩ := List.map_eq_append_iff.1 hsplit
    obtain ⟨w, later, rfl, rfl, -⟩ := List.map_eq_cons_iff.1 hrest
    rw [hnames] at hnodup hmem
    exact ⟨earlier, w, later, rfl, hnodup, hmem, rfl⟩
  · rintro ⟨earlier, w, later, rfl, hnodup, hmem, rfl⟩
    rw [← hnames] at hnodup hmem
    exact ⟨_, w.toContract, _, List.map_append, hnodup, hmem, rfl⟩

/-- Whatever was inserted, the table lists the names in the order of their first insertions and holds
under each name the contract that was inserted last, and one more insertion changes no other
contract. A list of exchange forms is inserted in order if no name repeats, and else the first name
that repeats is reported; so it is with the record of a table. -/
theorem history_and_wire (history : List Contract) (c : Contract) (wire : List WireContract)
    (j : Json) :
    let t := history.foldl insert empty
    FirstsOf t.names (history.map (·.name)) ∧
      (∀ name, t.get? name = history.reverse.find? (·.name == name)) ∧
      Exchanged c (t.exchange c).1 t.contracts (t.exchange c).2.contracts ∧
      (∀ table, ofWire wire = .ok table ↔ (wire.map (·.effectiveName)).Nodup ∧
        table = (wire.map (·.toContract)).foldl insert empty) ∧
      (∀ fault, ofWire wire = .error fault ↔ ∃ earlier w later, wire = earlier ++ w :: later ∧
        (earlier.map (·.effectiveName)).Nodup ∧ w.effectiveName ∈ earlier.map (·.effectiveName) ∧
        fault = ⟨w.effectiveName⟩) ∧
      ofJson j = (wire? j).elim (.error .malformed) fun wire =>
        (ofWire wire).mapError .duplicate := by
  intro t
  have hnames : FirstsOf t.names (history.map (·.name)) :=
    names_foldl_insert history ▸ firstsOf_eraseDups _
  exact ⟨hnames, get?_foldl_insert history, exchanged_exchange hnames.nodup c,
    fun _ => ofWire_eq_ok_iff, fun _ => ofWire_eq_error_iff, ofJson_eq j⟩

/-- The name that is given to `g` repeats the one that `f` has from its function. -/
example : ofWire [⟨none, ⟨"f", [], "void"⟩, [], []⟩, ⟨some "f", ⟨"g", [], "void"⟩, [], []⟩,
    ⟨none, ⟨"g", [], "void"⟩, [], []⟩] = .error ⟨"f"⟩ := rfl

end ContractTable

end ContractTests
