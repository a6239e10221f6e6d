import ContractTests.Proofs.Java.Signature
import Mathlib.Data.List.TakeWhile
import Mathlib.Logic.Relation

/-! # Modifiers of split parameters

The scan for the end of a list starts at its opening parenthesis. Wherever it goes, at least that
parenthesis is open (`one_le_paren_of_scanned`), and it ends with the one that closes it. The parts
that a list of parameters is split into are closed, and so is what is left of them after each
modifier (`IsClosed.of_stripModifier`). Every annotation is therefore taken off with its whole list
(`splitParameters_stripModifiers`).
-/

set_option autoImplicit false

namespace ContractTests.Java

open Text Nesting

variable {n : Nesting} {c : Char} {text rest u v list inside after arguments : List Char}

/-! ## Where a list ends -/

/-- Only a parenthesis in code takes the depth below zero. -/
theorem eq_of_next_paren_neg (hn : 0 ≤ n.paren) (hnext : (n.next c).paren < 0) :
    n.paren = 0 ∧ n.state = .code ∧ c = ')' := by
  unfold next at hnext
  split at hnext
  · exact absurd hnext (by simpa using hn)
  · rename_i hcovers
    have hcode := (Lexical.next_of_not_covers (Bool.eq_false_iff.2 hcovers)).1
    split at hnext
    · simp only at hnext
      omega
    split at hnext
    · rename_i hclose
      simp only at hnext
      exact ⟨by omega, hcode, hclose⟩
    repeat' split at hnext
    all_goals exact absurd hnext (by simpa using hn)

/-- As long as the end of a list is not found, no more lists are closed than were opened in it. -/
theorem paren_of_argumentList?_eq_none (hn : 0 ≤ n.paren)
    (h : argumentList? n.paren.toNat n.state list = none) :
    ∀ u, u <+: list → 0 ≤ (n.run u).paren := by
  induction list generalizing n with
  | nil =>
    intro u hu
    rwa [List.prefix_nil.1 hu]
  | cons c list ih =>
    have hnext : 0 ≤ (n.next c).paren := by
      by_contra hneg
      obtain ⟨hzero, hcode, rfl⟩ := eq_of_next_paren_neg hn (Int.not_le.1 hneg)
      rw [hzero, hcode] at h
      cases h
    have hstep := argumentList?_cons hn hnext 0 list
    rw [Nat.zero_add, Nat.zero_add, h, eq_comm, Option.map_eq_none_iff] at hstep
    intro u hu
    rcases List.prefix_cons_iff.1 hu with rfl | ⟨w, rfl, hw⟩
    · exact hn
    · exact ih hnext hstep w hw

/-- The end of a list is the first parenthesis that closes more lists than were opened in it. -/
theorem paren_of_argumentList?_eq_some (hn : 0 ≤ n.paren)
    (h : argumentList? n.paren.toNat n.state list = some (inside, after)) :
    list = inside ++ ')' :: after ∧ (∀ u, u <+: inside → 0 ≤ (n.run u).paren) ∧
      (n.run inside).paren = 0 ∧ (n.run inside).state = .code := by
  induction list generalizing n inside with
  | nil => cases h
  | cons c list ih =>
    by_cases hnext : 0 ≤ (n.next c).paren
    · have hstep := argumentList?_cons hn hnext 0 list
      rw [Nat.zero_add, Nat.zero_add, h, eq_comm] at hstep
      obtain ⟨⟨inside, after⟩, hrest, heq⟩ := Option.map_eq_some_iff.1 hstep
      cases heq
      obtain ⟨rfl, hopen, hend⟩ := ih hnext hrest
      refine ⟨rfl, fun u hu => ?_, hend⟩
      rcases List.prefix_cons_iff.1 hu with rfl | ⟨w, rfl, hw⟩
      · exact hn
      · exact hopen w hw
    · obtain ⟨hzero, hcode, rfl⟩ := eq_of_next_paren_neg hn (Int.not_le.1 hnext)
      rw [hzero, hcode] at h
      cases h
      refine ⟨rfl, fun u hu => ?_, hzero, hcode⟩
      rw [List.prefix_nil.1 hu]
      exact hn

/-- What the scan for the end of a list reads: from its opening parenthesis to the one that closes
it, or to the end of the text. -/
def scanned (list : List Char) : List Char :=
  '(' :: match argumentList? 0 .code list with
    | some (inside, _) => inside ++ [')']
    | none => list

/-- One parenthesis is open before the list, and those in it. -/
theorem paren_run_list (h : ∀ u, u <+: list → 0 ≤ (start.run u).paren) :
    start.run ('(' :: list) = ⟨(start.run list).paren + 1, 0, (start.run list).state⟩ :=
  run_inside h 0

theorem one_le_paren_of_isPrefix (h : ∀ u, u <+: list → 0 ≤ (start.run u).paren) (hu : u <+: list) :
    1 ≤ (start.run ('(' :: u)).paren := by
  rw [paren_run_list fun w hw => h w (hw.trans hu)]
  exact Int.add_le_add_right (h u hu) 1

/-- At every closing parenthesis that the scan reads, at least one is open. -/
theorem one_le_paren_of_scanned (h : scanned list = u ++ ')' :: v) : 1 ≤ (start.run u).paren := by
  cases u with
  | nil => cases h
  | cons c u =>
    obtain ⟨rfl, htail⟩ := List.cons.inj h
    cases hscan : argumentList? 0 .code list with
    | none =>
      rw [hscan] at htail
      exact one_le_paren_of_isPrefix
        (paren_of_argumentList?_eq_none (n := start) (Int.le_refl 0) hscan) ⟨')' :: v, htail.symm⟩
    | some found =>
      obtain ⟨inside, after⟩ := found
      rw [hscan] at htail
      obtain ⟨-, hopen, -⟩ := paren_of_argumentList?_eq_some (n := start) (Int.le_refl 0) hscan
      have hread : inside ++ [')'] = u ++ ')' :: v := htail
      have hlength := congrArg List.length hread
      simp only [List.length_append, List.length_cons, List.length_nil] at hlength
      refine one_le_paren_of_isPrefix hopen ?_
      exact List.prefix_of_prefix_length_le ⟨')' :: v, hread.symm⟩ (List.prefix_append inside [')'])
        (by omega)

/-! ## Closed texts -/

theorem ClosesFrom.of_append (h : ClosesFrom n (u ++ v)) : ClosesFrom (n.run u) v := by
  induction u generalizing n with
  | nil => exact h
  | cons c u ih => exact ih (closesFrom_cons.1 h).2.2

theorem IsClosed.of_append (hu : IsClosed u) (h : IsClosed (u ++ v)) : IsClosed v := by
  have hv := ClosesFrom.of_append h
  rwa [hu.ends] at hv

/-- A list that a closed text begins with has its end in the text. -/
theorem IsClosed.exists_argumentList? (h : IsClosed ('(' :: list)) :
    ∃ inside after, argumentList? 0 .code list = some (inside, after) ∧ IsClosed after := by
  cases hscan : argumentList? 0 .code list with
  | none =>
    have hopen := paren_of_argumentList?_eq_none (n := start) (Int.le_refl 0) hscan
    have hends := h.ends
    rw [paren_run_list hopen] at hends
    have hzero : (start.run list).paren + 1 = 0 := congrArg Nesting.paren hends
    have := hopen list List.prefix_rfl
    omega
  | some found =>
    obtain ⟨inside, after⟩ := found
    obtain ⟨rfl, hopen, hparen, hstate⟩ :=
      paren_of_argumentList?_eq_some (n := start) (Int.le_refl 0) hscan
    refine ⟨inside, after, rfl, ?_⟩
    have hlist : start.run ('(' :: (inside ++ [')'])) = start := by
      rw [← List.cons_append, run_append, paren_run_list hopen, hparen, hstate]
      rfl
    have hsplit : '(' :: (inside ++ ')' :: after) = '(' :: (inside ++ [')']) ++ after := by simp
    rw [IsClosed, hsplit] at h
    have hafter := ClosesFrom.of_append h
    rwa [hlist] at hafter

theorem IsClosed.trimStart (h : IsClosed text) : IsClosed (trimStart text) := by
  obtain ⟨⟨u, hu, htext⟩, -⟩ := exists_trimStart text
  rw [htext] at h
  exact (isClosed_of_blank hu).of_append h

/-- An annotation's name is taken off. -/
theorem IsClosed.dropName {named : List Char} (h : IsClosed ('@' :: named)) :
    IsClosed (named.dropWhile isNameChar) := by
  have hname : IsClosed ('@' :: named.takeWhile isNameChar) := by
    refine isClosed_of_plain (List.forall_mem_cons.2 ⟨by decide, fun c hc => ?_⟩)
    exact isPlainChar_of_isNameChar (List.mem_takeWhile_imp hc)
  refine hname.of_append ?_
  rwa [List.cons_append, List.takeWhile_append_dropWhile]

/-! ## Rounds -/

/-- White space and the name of an annotation stand before the list. -/
def BeginsAnnotation (text arguments : List Char) : Prop :=
  ∃ named, trimStart text = '@' :: named ∧
    trimStart (named.dropWhile isNameChar) = '(' :: arguments

/-- The rest is what some rounds leave of the text, each of which takes off one modifier. -/
def LeavesRest : List Char → List Char → Prop :=
  Relation.ReflTransGen fun text rest => stripModifier text = .more rest

/-- What a round does: it takes off an annotation with its list or without one, or `final` before
white space; otherwise it ends at the first character that is not white space. -/
theorem stripModifier_cases (text : List Char) :
    (∃ arguments, BeginsAnnotation text arguments) ∨
    (∃ named, trimStart text = '@' :: named ∧
      stripModifier text = .more (named.dropWhile isNameChar)) ∨
    (∃ c rest, trimStart text = "final".toList ++ c :: rest ∧
      stripModifier text = .more (c :: rest)) ∨
    ((trimStart text).head? ≠ some '@' ∧
      (∀ c rest, trimStart text = "final".toList ++ c :: rest → isBlank c = false) ∧
      stripModifier text = .done (trimStart text)) := by
  by_cases hsign : (trimStart text).head? = some '@'
  · obtain ⟨named, hnamed⟩ := List.head?_eq_some_iff.1 hsign
    by_cases hopen : (trimStart (named.dropWhile isNameChar)).head? = some '('
    · obtain ⟨arguments, harguments⟩ := List.head?_eq_some_iff.1 hopen
      exact .inl ⟨arguments, named, hnamed, harguments⟩
    · exact .inr (.inl ⟨named, hnamed, stripModifier_named hnamed hopen⟩)
  · refine .inr (.inr ?_)
    have hround := stripModifier_of_ne hsign
    by_cases hfinal : ∃ c rest, trimStart text = "final".toList ++ c :: rest ∧ isBlank c = true
    · obtain ⟨c, rest, hrest, hc⟩ := hfinal
      rw [hrest, stripStart?_append] at hround
      exact .inl ⟨c, rest, hrest, hround.trans (if_pos hc)⟩
    · have hword (c : Char) (rest : List Char)
          (hrest : trimStart text = "final".toList ++ c :: rest) : isBlank c = false :=
        Bool.eq_false_iff.2 fun hc => hfinal ⟨c, rest, hrest, hc⟩
      refine .inr ⟨hsign, hword, hround.trans ?_⟩
      split
      · rename_i c rest hrest
        rw [hword c rest (eq_append_of_stripStart? hrest)]
        rfl
      · rfl

/-- The list of an annotation at the beginning of a closed text is closed in it, and the round takes
the annotation off with its list. -/
theorem IsClosed.exists_arguments (h : IsClosed text) (hbegins : BeginsAnnotation text arguments) :
    ∃ inside after, argumentList? 0 .code arguments = some (inside, after) ∧
      stripModifier text = .more after ∧ IsClosed after := by
  obtain ⟨named, hnamed, hlist⟩ := hbegins
  have hrest : IsClosed ('(' :: arguments) := by
    rw [← hlist]
    refine (IsClosed.dropName ?_).trimStart
    rw [← hnamed]
    exact h.trimStart
  obtain ⟨inside, after, hscan, hafter⟩ := hrest.exists_argumentList?
  refine ⟨inside, after, hscan, ?_, hafter⟩
  rw [stripModifier_list hnamed hlist, hscan]
  rfl

/-- What a round leaves of a closed text is closed. -/
theorem IsClosed.of_stripModifier (h : IsClosed text) (hround : stripModifier text = .more rest) :
    IsClosed rest := by
  rcases stripModifier_cases text with ⟨arguments, hbegins⟩ | ⟨named, hnamed, heq⟩ |
    ⟨c, after, hfinal, heq⟩ | ⟨-, -, heq⟩
  · obtain ⟨inside, after, -, heq, hafter⟩ := h.exists_arguments hbegins
    cases heq.symm.trans hround
    exact hafter
  · cases heq.symm.trans hround
    refine IsClosed.dropName ?_
    rw [← hnamed]
    exact h.trimStart
  · cases heq.symm.trans hround
    have hword : IsClosed "final".toList := by decide
    refine hword.of_append ?_
    rw [← hfinal]
    exact h.trimStart
  · cases heq.symm.trans hround

theorem IsClosed.of_leavesRest (h : IsClosed text) (hrounds : LeavesRest text rest) :
    IsClosed rest := by
  induction hrounds with
  | refl => exact h
  | tail _ hround ih => exact ih.of_stripModifier hround

/-! ## The result -/

theorem trimStart_suffix (text : List Char) : trimStart text <:+ text := by
  obtain ⟨⟨u, -, htext⟩, -⟩ := exists_trimStart text
  exact ⟨u, htext.symm⟩

theorem dropWhile_suffix_of_cons {named : List Char} (h : trimStart text = '@' :: named) :
    named.dropWhile isNameChar <:+ text := by
  have hnamed : named <:+ trimStart text := h ▸ List.suffix_cons '@' named
  exact ((List.dropWhile_suffix isNameChar).trans hnamed).trans (trimStart_suffix text)

/-- What a round leaves is the end of the text. -/
theorem suffix_of_stripModifier (h : IsClosed text) (hround : stripModifier text = .more rest) :
    rest <:+ text := by
  rcases stripModifier_cases text with ⟨arguments, hbegins⟩ | ⟨named, hnamed, heq⟩ |
    ⟨c, after, hfinal, heq⟩ | ⟨-, -, heq⟩
  · obtain ⟨inside, after, hscan, heq, -⟩ := h.exists_arguments hbegins
    cases heq.symm.trans hround
    obtain ⟨hread, -⟩ := paren_of_argumentList?_eq_some (n := start) (Int.le_refl 0) hscan
    obtain ⟨named, hnamed, hlist⟩ := hbegins
    have hrest : rest <:+ trimStart (named.dropWhile isNameChar) := by
      rw [hlist, hread]
      exact ⟨'(' :: (inside ++ [')']), by simp⟩
    exact (hrest.trans (trimStart_suffix _)).trans (dropWhile_suffix_of_cons hnamed)
  · cases heq.symm.trans hround
    exact dropWhile_suffix_of_cons hnamed
  · cases heq.symm.trans hround
    exact List.IsSuffix.trans ⟨"final".toList, hfinal.symm⟩ (trimStart_suffix text)
  · cases heq.symm.trans hround

theorem suffix_of_leavesRest (h : IsClosed text) (hrounds : LeavesRest text rest) :
    rest <:+ text := by
  induction hrounds with
  | refl => exact List.suffix_rfl
  | tail hrounds hround ih =>
    exact (suffix_of_stripModifier (h.of_leavesRest hrounds) hround).trans ih

/-- The rounds come to an end, and the last one gives the result. -/
theorem exists_leavesRest (text : List Char) :
    ∃ rest, LeavesRest text rest ∧ stripModifier rest = .done (stripModifiers text) := by
  cases hround : stripModifier text with
  | done rest => exact ⟨text, .refl, by rw [hround, stripModifiers_of_done hround]⟩
  | more rest =>
    have := stripModifier_length hround
    obtain ⟨last, hrounds, hlast⟩ := exists_leavesRest rest
    exact ⟨last, .head hround hrounds, by rw [hlast, stripModifiers_of_more hround]⟩
termination_by text.length

/-- The last round of a closed text finds neither an annotation nor `final`. -/
theorem IsClosed.eq_trimStart_of_done (h : IsClosed text)
    (hround : stripModifier text = .done rest) :
    rest = Text.trimStart text ∧ rest.head? ≠ some '@' ∧
      ∀ c after, rest = "final".toList ++ c :: after → isBlank c = false := by
  rcases stripModifier_cases text with ⟨arguments, hbegins⟩ | ⟨named, -, heq⟩ |
    ⟨c, after, -, heq⟩ | ⟨hsign, hword, heq⟩
  · obtain ⟨inside, after, -, heq, -⟩ := h.exists_arguments hbegins
    cases heq.symm.trans hround
  · cases heq.symm.trans hround
  · cases heq.symm.trans hround
  · cases heq.symm.trans hround
    exact ⟨rfl, hsign, hword⟩

theorem isClosed_of_splitParameters {list method : String} {parts : List String}
    (h : splitParameters list method = .ok parts) {part : String} (hpart : part ∈ parts) :
    IsClosed part.toList := by
  rcases parameterTexts_eq_ok_iff.1 (splitParameters_eq_ok_iff.1 h) with ⟨hnil, -⟩ | ⟨-, -, hparts⟩
  · rw [List.map_eq_nil_iff.1 hnil] at hpart
    cases hpart
  · exact (hparts part.toList (List.mem_map_of_mem hpart)).1

/-- The modifiers of a part that a list of parameters is split into. Every round shortens what is
left of the part, and every list of an annotation has its end there, up to which the annotation is
taken off; the rounds come to an end, and the result is the end of the part, at whose beginning no
modifier is left. No scan for the end of a list, whatever follows its opening parenthesis, reads a
closing parenthesis where no parenthesis is open. -/
theorem splitParameters_stripModifiers {list method : String} {parts : List String}
    (h : splitParameters list method = .ok parts) :
    (∀ part ∈ parts,
      (∀ text, LeavesRest part.toList text →
        (∀ rest, stripModifier text = .more rest → rest.length < text.length) ∧
        ∀ arguments, BeginsAnnotation text arguments →
          ∃ inside after, argumentList? 0 .code arguments = some (inside, after) ∧
            stripModifier text = .more after) ∧
      (∃ text, LeavesRest part.toList text ∧
        stripModifier text = .done (stripModifiers part.toList)) ∧
      stripModifiers part.toList <:+ part.toList ∧
      (stripModifiers part.toList).head? ≠ some '@' ∧
      ∀ c rest, stripModifiers part.toList = "final".toList ++ c :: rest → isBlank c = false) ∧
    ∀ arguments u v, scanned arguments = u ++ ')' :: v → 1 ≤ (start.run u).paren := by
  refine ⟨fun part hpart => ?_, fun arguments u v => one_le_paren_of_scanned⟩
  have hclosed := isClosed_of_splitParameters h hpart
  obtain ⟨last, hrounds, hlast⟩ := exists_leavesRest part.toList
  obtain ⟨hresult, hsign, hfinal⟩ := (hclosed.of_leavesRest hrounds).eq_trimStart_of_done hlast
  have hsuffix : stripModifiers part.toList <:+ part.toList := by
    rw [hresult]
    exact (trimStart_suffix last).trans (suffix_of_leavesRest hclosed hrounds)
  refine ⟨fun text htext => ⟨fun rest => stripModifier_length, fun arguments hbegins => ?_⟩,
    ⟨last, hrounds, hlast⟩, hsuffix, hsign, hfinal⟩
  obtain ⟨inside, after, hscan, hround, -⟩ :=
    (hclosed.of_leavesRest htext).exists_arguments hbegins
  exact ⟨inside, after, hscan, hround⟩

/-- A closing parenthesis in a literal of an annotation before `final`, and an annotation without a
list. -/
theorem splitParameters_stripModifiers_annotated :
    splitParameters "@A(\")\") final Map<K, V> m , @B int n" "f" =
        .ok ["@A(\")\") final Map<K, V> m", "@B int n"] ∧
      stripModifiers "@A(\")\") final Map<K, V> m".toList <:+
        "@A(\")\") final Map<K, V> m".toList := by
  have hsplit : splitParameters "@A(\")\") final Map<K, V> m , @B int n" "f" =
      .ok ["@A(\")\") final Map<K, V> m", "@B int n"] := by decide +kernel
  exact ⟨hsplit, ((splitParameters_stripModifiers hsplit).1 _ List.mem_cons_self).2.2.1⟩

end ContractTests.Java
