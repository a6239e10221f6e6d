import ContractTests.Text.Blank
import Mathlib.Data.List.Basic

/-! # Trimmed texts

`Text.IsTrimmed` says that no white space stands at either end of a text. `Text.trim` cuts off white
space and nothing else (`exists_trim`), and it takes any white space off the ends of a trimmed text
(`trim_pad`).
-/

set_option autoImplicit false

namespace ContractTests.Text

/-- The text is white space. -/
def IsBlankText (text : List Char) : Prop := ∀ c ∈ text, isBlank c = true

instance : DecidablePred IsBlankText := fun text =>
  decidable_of_iff (text.all isBlank = true) List.all_eq_true

/-- No white space stands at the ends. -/
structure IsTrimmed (text : List Char) : Prop where
  head : ∀ c ∈ text.head?, isBlank c = false
  last : ∀ c ∈ text.getLast?, isBlank c = false

instance : DecidablePred IsTrimmed := fun text =>
  decidable_of_iff (text.head?.any isBlank = false ∧ text.getLast?.any isBlank = false) <| by
    simp only [Option.any_eq_false]
    exact ⟨fun ⟨hhead, hlast⟩ => ⟨hhead, hlast⟩, fun h => ⟨h.head, h.last⟩⟩

variable {c : Char} {text u v : List Char}

theorem ne_of_isBlank {d : Char} (h : isBlank c = true) (hd : isBlank d = false) : c ≠ d :=
  ne_of_apply_ne isBlank (by simp [h, hd])

theorem isTrimmed_nil : IsTrimmed [] := ⟨nofun, nofun⟩

theorem isTrimmed_of_forall (h : ∀ c ∈ text, isBlank c = false) : IsTrimmed text :=
  ⟨fun c hc => h c (List.mem_of_mem_head? hc), fun c hc => h c (List.mem_of_getLast? hc)⟩

theorem forall_mem_getLast?_append {p : Char → Prop} (hu : ∀ c ∈ u.getLast?, p c)
    (hv : ∀ c ∈ v.getLast?, p c) : ∀ c ∈ (u ++ v).getLast?, p c := by
  intro c hc
  rw [List.getLast?_append] at hc
  cases hlast : v.getLast? with
  | none =>
    rw [hlast] at hc
    exact hu c hc
  | some d =>
    rw [hlast] at hc
    exact hv c (hlast.trans hc)

theorem isBlankText_nil : IsBlankText [] := nofun

theorem IsBlankText.append (hu : IsBlankText u) (hv : IsBlankText v) : IsBlankText (u ++ v) :=
  List.forall_mem_append.2 ⟨hu, hv⟩

theorem IsBlankText.reverse (hu : IsBlankText u) : IsBlankText u.reverse := fun c hc =>
  hu c (List.mem_reverse.1 hc)

/-! ## White space in front -/

@[simp] theorem trimStart_nil : trimStart [] = [] := rfl

theorem trimStart_cons_of_blank (h : isBlank c = true) (text : List Char) :
    trimStart (c :: text) = trimStart text := List.dropWhile_cons_of_pos h

theorem trimStart_cons (h : isBlank c = false) (text : List Char) :
    trimStart (c :: text) = c :: text := List.dropWhile_cons_of_neg (by simp [h])

theorem trimStart_append (hu : IsBlankText u) (text : List Char) :
    trimStart (u ++ text) = trimStart text := List.dropWhile_append_of_pos hu

theorem trimStart_eq_self (h : ∀ c ∈ text.head?, isBlank c = false) : trimStart text = text := by
  cases text with
  | nil => rfl
  | cons c text => exact trimStart_cons (h c rfl) text

theorem trimStart_of_blank (h : IsBlankText text) : trimStart text = [] := by
  rw [← List.append_nil text, trimStart_append h, trimStart_nil]

theorem exists_trimStart (text : List Char) :
    (∃ u, IsBlankText u ∧ text = u ++ trimStart text) ∧
      ∀ c ∈ (trimStart text).head?, isBlank c = false := by
  induction text with
  | nil => exact ⟨⟨[], isBlankText_nil, rfl⟩, nofun⟩
  | cons c text ih =>
    cases hc : isBlank c with
    | true =>
      obtain ⟨⟨u, hu, htext⟩, hhead⟩ := ih
      rw [trimStart_cons_of_blank hc]
      refine ⟨⟨c :: u, List.forall_mem_cons.2 ⟨hc, hu⟩, ?_⟩, hhead⟩
      rw [List.cons_append, ← htext]
    | false =>
      rw [trimStart_cons hc]
      refine ⟨⟨[], isBlankText_nil, rfl⟩, ?_⟩
      rintro _ ⟨⟩
      exact hc

theorem mem_trimStart_iff (hc : isBlank c = false) : c ∈ trimStart text ↔ c ∈ text := by
  obtain ⟨⟨u, hu, htext⟩, -⟩ := exists_trimStart text
  have hmem : c ∈ text ↔ c ∈ u ∨ c ∈ trimStart text := by rw [← List.mem_append, ← htext]
  rw [hmem]
  exact ⟨.inr, fun h => h.resolve_left fun hblank => ne_of_isBlank (hu c hblank) hc rfl⟩

/-! ## White space at both ends -/

theorem mem_trimEnd_iff (hc : isBlank c = false) : c ∈ trimEnd text ↔ c ∈ text := by
  rw [trimEnd, ← trimStart, List.mem_reverse, mem_trimStart_iff hc, List.mem_reverse]

theorem mem_trim_iff (hc : isBlank c = false) : c ∈ trim text ↔ c ∈ text := by
  rw [trim, mem_trimEnd_iff hc, mem_trimStart_iff hc]

theorem exists_trim (text : List Char) :
    (∃ u v, IsBlankText u ∧ IsBlankText v ∧ text = u ++ trim text ++ v) ∧
      IsTrimmed (trim text) := by
  obtain ⟨⟨u, hu, htext⟩, hhead⟩ := exists_trimStart text
  obtain ⟨⟨v, hv, hstart⟩, hlast⟩ := exists_trimStart (trimStart text).reverse
  have hend : trimStart text = trim text ++ v.reverse := by
    rw [trim, trimEnd, ← trimStart, ← List.reverse_append, ← hstart, List.reverse_reverse]
  refine ⟨⟨u, v.reverse, hu, hv.reverse, ?_⟩, fun c hc => hhead c ?_, fun c hc => hlast c ?_⟩
  · rw [List.append_assoc, ← hend]
    exact htext
  · rw [hend, List.head?_append, Option.mem_def.1 hc]
    rfl
  · rwa [trim, trimEnd, ← trimStart, List.getLast?_reverse] at hc

theorem trim_pad (h : IsTrimmed text) (hu : IsBlankText u) (hv : IsBlankText v) :
    trim (u ++ text ++ v) = text := by
  have hstart : trimEnd (text ++ v) = text := by
    rw [trimEnd, ← trimStart, List.reverse_append, trimStart_append hv.reverse,
      trimStart_eq_self (by simpa using h.last), List.reverse_reverse]
  cases text with
  | nil => rw [trim, trimStart_of_blank (by simpa using hu.append hv)]; rfl
  | cons c text =>
    rw [trim, List.append_assoc, trimStart_append hu, List.cons_append,
      trimStart_cons (h.head c rfl), ← List.cons_append, hstart]

theorem trim_of_blank (h : IsBlankText text) : trim text = [] := by
  simpa using trim_pad isTrimmed_nil h isBlankText_nil

theorem trim_eq_self (h : IsTrimmed text) : trim text = text := by
  simpa using trim_pad h isBlankText_nil isBlankText_nil

theorem trim_trim (text : List Char) : trim (trim text) = trim text :=
  trim_eq_self (exists_trim text).2

end ContractTests.Text
