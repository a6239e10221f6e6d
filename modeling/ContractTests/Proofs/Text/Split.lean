import ContractTests.Proofs.Text.Trim
import ContractTests.Text.Affix

/-! # Texts that are split

`Text.splitOn` splits as `List.splitOnP` does. Splitting at the characters of two kinds is splitting
at one kind and then every piece at the other (`Text.splitOnP_or`). The words of a text are what
stands between its white space (`Text.words`). Splitting pieces into words or only trimming them
gives the same exactly when white space stands at their ends and nowhere else
(`Text.flatMap_words_eq_iff`).
-/

set_option autoImplicit false

namespace ContractTests.Text

variable {p q : Char → Bool} {c : Char} {cs u v piece : List Char} {pieces : List (List Char)}

/-! ## Pieces -/

theorem exists_splitOnP_eq_cons (p : Char → Bool) (cs : List Char) :
    ∃ piece pieces, cs.splitOnP p = piece :: pieces :=
  List.exists_cons_of_ne_nil (List.splitOnP_ne_nil p cs)

theorem splitOn_eq_splitOnP (p : Char → Bool) (cs : List Char) : splitOn p cs = cs.splitOnP p := by
  induction cs with
  | nil => rfl
  | cons c cs ih =>
    obtain ⟨piece, pieces, hcs⟩ := exists_splitOnP_eq_cons p cs
    rw [splitOn, ih, List.splitOnP_cons_eq_if_modifyHead, hcs, List.modifyHead_cons]

/-- The characters of a piece are those of the text, and the text was split at none of them. -/
theorem of_mem_splitOnP (h : piece ∈ cs.splitOnP p) : ∀ c ∈ piece, c ∈ cs ∧ p c = false := by
  induction cs generalizing piece with
  | nil =>
    rw [List.mem_singleton.1 h]
    nofun
  | cons d cs ih =>
    have hkept {piece : List Char} (h : piece ∈ cs.splitOnP p) :
        ∀ c ∈ piece, c ∈ d :: cs ∧ p c = false :=
      fun c hc => (ih h c hc).imp_left (List.mem_cons_of_mem d)
    rw [List.splitOnP_cons_eq_if_modifyHead] at h
    split at h
    · rcases List.mem_cons.1 h with rfl | h
      · nofun
      · exact hkept h
    · rename_i hd
      obtain ⟨first, pieces, hcs⟩ := exists_splitOnP_eq_cons p cs
      rw [hcs, List.modifyHead_cons] at h
      rw [hcs] at hkept
      rcases List.mem_cons.1 h with rfl | h
      · exact List.forall_mem_cons.2
          ⟨⟨List.mem_cons_self, Bool.eq_false_iff.2 hd⟩, hkept List.mem_cons_self⟩
      · exact hkept (List.mem_cons_of_mem first h)

/-- No piece has a character at which the text was split. -/
theorem eq_false_of_mem_splitOnP (h : piece ∈ cs.splitOnP p) : ∀ c ∈ piece, p c = false :=
  fun c hc => (of_mem_splitOnP h c hc).2

/-- A text can be split at one kind of characters after the other. -/
theorem splitOnP_or (p q : Char → Bool) (cs : List Char) :
    cs.splitOnP (fun c => p c || q c) = (cs.splitOnP p).flatMap (List.splitOnP q) := by
  induction cs with
  | nil => rfl
  | cons c cs ih =>
    obtain ⟨piece, pieces, hcs⟩ := exists_splitOnP_eq_cons p cs
    obtain ⟨word, words, hpiece⟩ := exists_splitOnP_eq_cons q piece
    rw [List.splitOnP_cons_eq_if_modifyHead, List.splitOnP_cons_eq_if_modifyHead, ih]
    cases hp : p c with
    | true => rfl
    | false =>
      -- The character belongs to the first piece, and `q` decides whether to its first word.
      rw [hcs, List.flatMap_cons, hpiece, List.cons_append, if_neg Bool.false_ne_true,
        List.modifyHead_cons, List.modifyHead_cons, List.flatMap_cons,
        List.splitOnP_cons_eq_if_modifyHead, hpiece]
      cases q c <;> rfl

/-! ## Words -/

/-- What stands between the white space of a text. -/
def words (cs : List Char) : List (List Char) := (cs.splitOnP isBlank).filter (!·.isEmpty)

theorem not_isBlank_of_mem_words {word : List Char} (h : word ∈ words cs) :
    ∀ c ∈ word, isBlank c = false :=
  eq_false_of_mem_splitOnP (List.mem_of_mem_filter h)

theorem words_append_cons (hc : isBlank c = true) (u v : List Char) :
    words (u ++ c :: v) = words u ++ words v := by
  rw [words, List.splitOnP_append_cons u v hc, List.filter_append, words, words]

theorem words_of_forall (h : ∀ c ∈ cs, isBlank c = false) :
    words cs = [cs].filter (!·.isEmpty) := by
  rw [words, List.splitOnP_eq_singleton h]

theorem words_of_blank (h : IsBlankText cs) : words cs = [] := by
  induction cs with
  | nil => rfl
  | cons c cs ih =>
    obtain ⟨hc, hcs⟩ := List.forall_mem_cons.1 h
    exact (words_append_cons hc [] cs).trans (ih hcs)

/-- White space around a text adds no words. -/
theorem words_pad (hu : IsBlankText u) (hv : IsBlankText v) (cs : List Char) :
    words (u ++ cs ++ v) = words cs := by
  have hend : words (cs ++ v) = words cs := by
    cases v with
    | nil => rw [List.append_nil]
    | cons c v =>
      obtain ⟨hc, hv⟩ := List.forall_mem_cons.1 hv
      rw [words_append_cons hc, words_of_blank hv, List.append_nil]
  rw [List.append_assoc]
  induction u with
  | nil => exact hend
  | cons c u ih =>
    obtain ⟨hc, hu⟩ := List.forall_mem_cons.1 hu
    exact (words_append_cons hc [] (u ++ (cs ++ v))).trans (ih hu)

/-- White space stands only at the ends of the text. -/
def IsSolid (cs : List Char) : Prop :=
  ∃ u word v, IsBlankText u ∧ IsBlankText v ∧ (∀ c ∈ word, isBlank c = false) ∧
    cs = u ++ word ++ v

theorem isSolid_iff : IsSolid cs ↔ ∀ c ∈ trim cs, isBlank c = false := by
  constructor
  · rintro ⟨u, word, v, hu, hv, hword, rfl⟩
    rwa [trim_pad (isTrimmed_of_forall hword) hu hv]
  · intro h
    obtain ⟨⟨u, v, hu, hv, hcs⟩, -⟩ := exists_trim cs
    exact ⟨u, trim cs, v, hu, hv, h, hcs⟩

instance : DecidablePred IsSolid := fun cs =>
  decidable_of_iff ((trim cs).all (!isBlank ·) = true) <| by
    rw [isSolid_iff, List.all_eq_true]
    simp only [Bool.not_eq_true']

theorem IsSolid.words_eq (h : IsSolid cs) : words cs = [trim cs].filter (!·.isEmpty) := by
  obtain ⟨⟨u, v, hu, hv, hcs⟩, -⟩ := exists_trim cs
  rw [← words_of_forall (isSolid_iff.1 h)]
  conv_lhs => rw [hcs, words_pad hu hv]

/-- The words of the pieces are the pieces without white space at their ends, blank ones left out,
exactly when no piece has white space elsewhere. -/
theorem flatMap_words_eq_iff : pieces.flatMap words = (pieces.map trim).filter (!·.isEmpty) ↔
    ∀ piece ∈ pieces, IsSolid piece := by
  constructor
  · intro h piece hpiece
    -- A piece that is not blank is among the words, and no word has white space.
    cases htrim : trim piece with
    | nil => exact isSolid_iff.2 (by rw [htrim]; nofun)
    | cons c cs =>
      have hmem : trim piece ∈ pieces.flatMap words := by
        rw [h, List.mem_filter, htrim]
        exact ⟨htrim ▸ List.mem_map_of_mem hpiece, rfl⟩
      obtain ⟨other, -, hword⟩ := List.mem_flatMap.1 hmem
      exact isSolid_iff.2 (not_isBlank_of_mem_words hword)
  · intro h
    induction pieces with
    | nil => rfl
    | cons piece pieces ih =>
      obtain ⟨hpiece, hpieces⟩ := List.forall_mem_cons.1 h
      rw [List.flatMap_cons, hpiece.words_eq, ih hpieces, List.map_cons, ← List.filter_append,
        List.singleton_append]

end ContractTests.Text
