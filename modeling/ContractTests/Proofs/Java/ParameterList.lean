import ContractTests.Proofs.Java.Nesting
import ContractTests.Proofs.Text.Trim

/-! # Parameter lists

`Java.Joined parts list` says that a list is its parts with commas between them and white space
around these and at both ends. Splitting undoes this for closed parts, and gives only such parts; it
fails exactly when a bracket closes what is not open or something is open at the end of the list
(`splitParameters_joined`).
-/

set_option autoImplicit false

namespace ContractTests.Java

open Text Nesting

variable {n : Nesting} {c : Char} {text u v list : List Char} {parts : List (List Char)}

/-! ## White space counts for nothing -/

theorem next_blank (h : isBlank c = true) (hn : n.state = .code) : n.next c = n := by
  have hcovers : n.state.covers c = false := by rw [hn]; exact isQuote_of_isBlank h
  have hopen : c ≠ '(' := ne_of_isBlank h (by decide)
  have hclose : c ≠ ')' := ne_of_isBlank h (by decide)
  have hless : c ≠ '<' := ne_of_isBlank h (by decide)
  have hgreater : c ≠ '>' := ne_of_isBlank h (by decide)
  simp [next, hcovers, hopen, hclose, hless, hgreater]

theorem isClosed_singleton (h : start.next c = start) (hcomma : c ≠ ',') : IsClosed [c] :=
  closesFrom_cons.2 ⟨isSound_start, fun hc => absurd hc hcomma, by rw [h]; exact isClosed_nil⟩

theorem isClosed_of_forall (h : ∀ c ∈ text, start.next c = start ∧ c ≠ ',') : IsClosed text := by
  induction text with
  | nil => exact isClosed_nil
  | cons c text ih =>
    obtain ⟨⟨hc, hcomma⟩, htext⟩ := List.forall_mem_cons.1 h
    exact (isClosed_singleton hc hcomma).append (ih htext)

theorem isClosed_of_blank (h : IsBlankText text) : IsClosed text :=
  isClosed_of_forall fun c hc => ⟨next_blank (h c hc) rfl, by
    rintro rfl
    exact absurd (h _ hc) (by decide)⟩

/-- Where nothing is open after white space, nothing was open before it. -/
theorem eq_start_of_run_blank (hn : n.state.IsProper) (hu : IsBlankText u)
    (h : n.run u = .start) : n = .start := by
  induction u generalizing n with
  | nil => exact h
  | cons c u ih =>
    obtain ⟨hc, hu⟩ := List.forall_mem_cons.1 hu
    have hproper : (n.next c).state.IsProper := by
      rw [state_next]
      exact hn.next c
    have hnext : n.next c = .start := ih hproper hu h
    have hstate : n.state.next c = .code := by rw [← state_next, hnext]; rfl
    -- a literal would still be open, since the blank is not its quote
    have hcode : n.state = .code := by
      cases hs : n.state with
      | code => rfl
      | literal quote =>
        rw [hs] at hn hstate
        have hne : c ≠ quote := ne_of_isBlank hc (isBlank_of_isQuote hn)
        unfold Lexical.next at hstate
        simp only [beq_iff_eq, hne, if_false] at hstate
        split at hstate <;> cases hstate
      | escape quote =>
        rw [hs] at hstate
        cases hstate
    rw [← hnext, next_blank hc hcode]

theorem IsClosed.pad (h : IsClosed text) (hu : IsBlankText u) (hv : IsBlankText v) :
    IsClosed (u ++ text ++ v) :=
  ((isClosed_of_blank hu).append h).append (isClosed_of_blank hv)

theorem IsClosed.of_pad (h : IsClosed (u ++ text ++ v)) (hu : IsBlankText u) (hv : IsBlankText v) :
    IsClosed text := by
  have hstart : start.run u = .start := (isClosed_of_blank hu).ends
  refine ⟨?_, ?_, fun w x hw => ?_⟩
  · have hnested := (isNested_append.1 (isNested_append.1 h.nested).1).2
    rwa [hstart] at hnested
  · have hends := h.ends
    rw [run_append, run_append, hstart] at hends
    refine eq_start_of_run_blank ?_ hv hends
    have hproper : Lexical.code.IsProper := trivial
    rw [state_run]
    exact hproper.run text
  · have hcomma := h.noComma (u ++ w) (x ++ v) (by rw [hw]; simp)
    rwa [run_append, hstart] at hcomma

/-! ## Joined parts -/

/-- The list is the parts with commas between them, with any white space around these and at both
ends. -/
inductive Joined : List (List Char) → List Char → Prop
  | last (part : List Char) {u v : List Char} (hu : IsBlankText u) (hv : IsBlankText v) :
      Joined [part] (u ++ part ++ v)
  | comma (part : List Char) {u v list : List Char} {parts : List (List Char)}
      (hu : IsBlankText u) (hv : IsBlankText v) (h : Joined parts list) :
      Joined (part :: parts) (u ++ part ++ v ++ ',' :: list)

theorem Joined.ne_nil (h : Joined parts list) : parts ≠ [] := by
  cases h <;> exact List.cons_ne_nil _ _

/-- The list of one empty part is blank. -/
theorem Joined.isBlankText (h : Joined [[]] list) : IsBlankText list := by
  cases h with
  | last _ hu hv => simpa using hu.append hv
  | comma _ _ _ h => exact absurd rfl h.ne_nil

/-- The parts of a list that is cut into pieces. -/
theorem joined_of_cutFrom {ps : List (List Char)} (h : CutFrom .start ps list) :
    Joined (ps.map trim) list ∧ ∀ part ∈ ps.map trim, IsClosed part ∧ IsTrimmed part := by
  induction ps generalizing list with
  | nil => exact h.elim
  | cons piece others ih =>
    obtain ⟨⟨u, v, hu, hv, hpiece⟩, htrimmed⟩ := exists_trim piece
    have hclosed (h : IsClosed piece) : IsClosed (trim piece) := by
      refine IsClosed.of_pad ?_ hu hv
      rwa [← hpiece]
    by_cases hothers : others = []
    · subst hothers
      obtain ⟨rfl, h⟩ := h
      refine ⟨?_, List.forall_mem_singleton.2 ⟨hclosed h, htrimmed⟩⟩
      have hjoined := Joined.last (trim list) hu hv
      rwa [← hpiece] at hjoined
    · obtain ⟨rest, rfl, h, hrest⟩ := (cutFrom_cons hothers).1 h
      obtain ⟨hjoined, hparts⟩ := ih hrest
      refine ⟨?_, List.forall_mem_cons.2 ⟨⟨hclosed h, htrimmed⟩, hparts⟩⟩
      have hjoined := Joined.comma (trim piece) hu hv hjoined
      rwa [← hpiece] at hjoined

/-- The pieces of joined parts. -/
theorem Joined.exists_cutFrom (h : Joined parts list)
    (hparts : ∀ part ∈ parts, IsClosed part ∧ IsTrimmed part) :
    ∃ ps, CutFrom .start ps list ∧ ps.map trim = parts := by
  induction h with
  | last part hu hv =>
    obtain ⟨hclosed, htrimmed⟩ := List.forall_mem_singleton.1 hparts
    refine ⟨[_], ⟨rfl, hclosed.pad hu hv⟩, ?_⟩
    rw [List.map_singleton, trim_pad htrimmed hu hv]
  | @comma part u v list parts hu hv _ ih =>
    obtain ⟨⟨hclosed, htrimmed⟩, hrest⟩ := List.forall_mem_cons.1 hparts
    obtain ⟨ps, hps, hmap⟩ := ih hrest
    refine ⟨(u ++ part ++ v) :: ps,
      (cutFrom_cons hps.ne_nil).2 ⟨list, rfl, hclosed.pad hu hv, hps⟩, ?_⟩
    rw [List.map_cons, trim_pad htrimmed hu hv, hmap]

/-! ## Splitting -/

/-- The parts of a list from its pieces: a list that is one blank piece has none. -/
def partsOf (ps : List (List Char)) : List (List Char) :=
  if ps.map trim = [[]] then [] else ps.map trim

theorem parameterTexts_eq (list : List Char) :
    parameterTexts list = (piecesFrom .start list).map partsOf := by
  have hstart : piecesFrom .start list = pieces 0 0 .code list := rfl
  rw [hstart, parameterTexts]
  cases pieces 0 0 .code list with
  | error fault => rfl
  | ok ps =>
    match ps with
    | [] => rfl
    | [piece] =>
      by_cases hpiece : trim piece = []
      · simp [partsOf, Except.map, hpiece]
      · simp [partsOf, Except.map, hpiece]
    | piece :: other :: others =>
      have hparts : partsOf (piece :: other :: others) = (piece :: other :: others).map trim :=
        if_neg (by simp)
      simp [Except.map, hparts]

/-- Splitting a list into its parts. -/
theorem parameterTexts_eq_ok_iff : parameterTexts list = .ok parts ↔
    (parts = [] ∧ IsBlankText list) ∨ (parts ≠ [[]] ∧ Joined parts list ∧
      ∀ part ∈ parts, IsClosed part ∧ IsTrimmed part) := by
  simp only [parameterTexts_eq, map_eq_ok_iff, piecesFrom_eq_ok_iff isSound_start]
  constructor
  · rintro ⟨ps, hps, rfl⟩
    obtain ⟨hjoined, hparts⟩ := joined_of_cutFrom hps
    unfold partsOf
    split
    · rename_i hempty
      rw [hempty] at hjoined
      exact .inl ⟨rfl, hjoined.isBlankText⟩
    · rename_i hempty
      exact .inr ⟨hempty, hjoined, hparts⟩
  · rintro (⟨rfl, hblank⟩ | ⟨hempty, hjoined, hparts⟩)
    · refine ⟨[list], ⟨rfl, isClosed_of_blank hblank⟩, ?_⟩
      rw [partsOf, if_pos (by rw [List.map_singleton, trim_of_blank hblank])]
    · obtain ⟨ps, hps, rfl⟩ := hjoined.exists_cutFrom hparts
      exact ⟨ps, hps, if_neg hempty⟩

/-- Splitting fails exactly when a bracket closes what is not open, or something is open at the
end. -/
theorem exists_parameterTexts_iff :
    (∃ parts, parameterTexts list = .ok parts) ↔
      start.IsNested list ∧ start.run list = .start := by
  rw [← exists_piecesFrom_iff isSound_start]
  simp only [parameterTexts_eq, map_eq_ok_iff]
  exact ⟨fun ⟨_, ps, hps, _⟩ => ⟨ps, hps⟩, fun ⟨ps, hps⟩ => ⟨_, ps, hps, rfl⟩⟩

theorem splitParameters_eq_ok_iff {list method : String} {parts : List String} :
    splitParameters list method = .ok parts ↔
      parameterTexts list.toList = .ok (parts.map String.toList) := by
  have hmap (texts : List (List Char)) :
      texts.map String.ofList = parts ↔ texts = parts.map String.toList := by
    constructor <;> rintro rfl <;> simp
  unfold splitParameters
  cases parameterTexts list.toList with
  | error fault => exact iff_of_false nofun nofun
  | ok texts => simp [hmap]

/-- Splitting a parameter list undoes joining. The parts that it gives are closed and trimmed, and
the list is these parts joined, or blank if there are none; closed and trimmed parts are what the
list they are joined to is split into. It fails exactly when at some place a depth is below zero, or
at the end a depth is not zero or a literal is open. -/
theorem splitParameters_joined (list method : String) :
    (∀ parts : List String, splitParameters list method = .ok parts ↔
      (parts = [] ∧ IsBlankText list.toList) ∨
        (parts ≠ [""] ∧ Joined (parts.map String.toList) list.toList ∧
          ∀ part ∈ parts, IsClosed part.toList ∧ IsTrimmed part.toList)) ∧
    ((∃ e, splitParameters list method = .error e) ↔
      (∃ u, u <+: list.toList ∧ ((start.run u).paren < 0 ∨ (start.run u).angle < 0)) ∨
        (start.run list.toList).paren ≠ 0 ∨ (start.run list.toList).angle ≠ 0 ∨
          (start.run list.toList).state ≠ .code) := by
  constructor
  · intro parts
    have hempty : parts.map String.toList = [[]] ↔ parts = [""] := by
      rw [← List.map_injective_iff.2 (fun _ _ h => String.toList_inj.1 h) |>.eq_iff (b := [""])]
      rfl
    rw [splitParameters_eq_ok_iff, parameterTexts_eq_ok_iff, List.map_eq_nil_iff, ne_eq, hempty,
      List.forall_mem_map]
  · have herror : (∃ e, splitParameters list method = .error e) ↔
        ¬ ∃ parts, parameterTexts list.toList = .ok parts := by
      unfold splitParameters
      cases parameterTexts list.toList with
      | error fault => exact iff_of_true ⟨_, rfl⟩ nofun
      | ok parts => exact iff_of_false nofun (not_not.2 ⟨parts, rfl⟩)
    have hstart (n : Nesting) : n = .start ↔ n.paren = 0 ∧ n.angle = 0 ∧ n.state = .code := by
      obtain ⟨paren, angle, state⟩ := n
      simp [start]
    rw [herror, exists_parameterTexts_iff, not_and_or, hstart, not_and_or, not_and_or]
    refine or_congr_left ?_
    simp only [IsNested, IsSound, not_forall, not_and_or, Int.not_le, exists_prop]

/-- Commas in a literal and in angle brackets, white space around the comma between the parts, and a
list that is cut short. -/
theorem splitParameters_map_joined :
    splitParameters "@A(\",\") Map<K, V> m , int n" "f" =
        .ok ["@A(\",\") Map<K, V> m", "int n"] ∧
      ∃ e, splitParameters "Map<K, V m" "f" = .error e := by
  have hjoined : Joined ["@A(\",\") Map<K, V> m".toList, "int n".toList]
      "@A(\",\") Map<K, V> m , int n".toList := by
    have hblank : IsBlankText [' '] := by decide
    exact .comma _ isBlankText_nil hblank (.last _ hblank isBlankText_nil)
  have hparts : ∀ part ∈ ["@A(\",\") Map<K, V> m", "int n"],
      IsClosed part.toList ∧ IsTrimmed part.toList := by decide
  exact ⟨((splitParameters_joined _ _).1 _).2 (.inr ⟨by decide, hjoined, hparts⟩),
    (splitParameters_joined _ _).2.2 (.inr (.inr (.inl (by decide))))⟩

end ContractTests.Java
