import ContractTests.Decimal.Notation
import ContractTests.Text.Fresh
import Mathlib.Data.Finset.Card
import Mathlib.Data.Finset.Dedup

/-! # Fresh names are fresh

`fresh_spec`: among names that differ, `Text.fresh` finds the first one that is not taken. One more
name than are taken cannot all be taken. `numbered_injective` is the case in which the library uses
it: a name without a number, and then names that end in a number.
-/

set_option autoImplicit false

namespace ContractTests

theorem decimalDigits_injective : Function.Injective decimalDigits := by
  intro m n h
  have hm := Nat.ofDigitChars_toDigits (b := 10) (n := m) (by decide) (by decide)
  have hn := Nat.ofDigitChars_toDigits (b := 10) (n := n) (by decide) (by decide)
  rw [← hm, ← hn]
  exact congrArg (Nat.ofDigitChars 10 · 0) h

theorem natText_injective : Function.Injective natText := fun _ _ h =>
  decimalDigits_injective (String.ofList_injective h)

theorem natText_length_pos (n : Nat) : 0 < (natText n).length := by
  rw [natText, String.length_ofList]
  exact Nat.length_toDigits_pos

namespace Text

/-- A name and then numbered names, which are longer. -/
theorem numbered_injective {plain stem : String} {number : Nat → Nat}
    (hlength : plain.length ≤ stem.length) (hnumber : Function.Injective number) :
    Function.Injective fun n => if n = 0 then plain else stem ++ natText (number n) := by
  have hne (n : Nat) : plain ≠ stem ++ natText (number n) := by
    intro h
    have := congrArg String.length h
    have := natText_length_pos (number n)
    rw [String.length_append] at *
    omega
  intro m n h
  by_cases hm : m = 0 <;> by_cases hn : n = 0
  · rw [hm, hn]
  · simp only [hm, hn, if_true, if_false] at h
    exact absurd h (hne n)
  · simp only [hm, hn, if_true, if_false] at h
    exact absurd h.symm (hne m)
  · simp only [hm, hn, if_false, String.append_right_inj] at h
    exact hnumber (natText_injective h)

variable {name : Nat → String}

/-- Of names that differ, no more are taken than there are taken names. -/
theorem le_card_of_forall_mem (hname : Function.Injective name) {taken : List String} {n : Nat}
    (htaken : ∀ k < n, name k ∈ taken) : n ≤ taken.toFinset.card := by
  have hsub : (Finset.range n).image name ⊆ taken.toFinset := by
    intro s hs
    obtain ⟨k, hk, rfl⟩ := Finset.mem_image.1 hs
    exact List.mem_toFinset.2 (htaken k (Finset.mem_range.1 hk))
  have hle := Finset.card_le_card hsub
  rwa [Finset.card_image_of_injective _ hname, Finset.card_range] at hle

/-- One more name than are taken cannot all be taken. -/
theorem exists_not_mem (hname : Function.Injective name) (taken : List String) :
    ∃ n < taken.length + 1, name n ∉ taken := by
  by_contra hall
  push Not at hall
  have hle := (le_card_of_forall_mem hname hall).trans taken.toFinset_card_le
  omega

/-- Among one more name than are taken, a free one is found. -/
theorem find?_eq_fresh (hname : Function.Injective name) (taken : List String) :
    ((List.range (taken.length + 1)).map name).find? (!taken.contains ·) =
      some (fresh taken name) := by
  obtain ⟨n, hn, hfree⟩ := exists_not_mem hname taken
  have hsome : (((List.range (taken.length + 1)).map name).find? (!taken.contains ·)).isSome :=
    List.find?_isSome.2
      ⟨name n, List.mem_map_of_mem (List.mem_range.2 hn), by simpa using hfree⟩
  obtain ⟨found, hfound⟩ := Option.isSome_iff_exists.1 hsome
  rw [fresh, hfound]
  rfl

/-- The first name that is not taken. -/
theorem fresh_spec (hname : Function.Injective name) (taken : List String) :
    ∃ n, fresh taken name = name n ∧ name n ∉ taken ∧ ∀ k < n, name k ∈ taken := by
  have hfound := find?_eq_fresh hname taken
  rw [List.find?_map] at hfound
  obtain ⟨n, hn, heq⟩ := Option.map_eq_some_iff.1 hfound
  obtain ⟨hfree, -, hbefore⟩ := List.find?_range_eq_some.1 hn
  refine ⟨n, heq.symm, by simpa using hfree, fun k hk => ?_⟩
  simpa using hbefore k hk

theorem fresh_not_mem (hname : Function.Injective name) (taken : List String) :
    fresh taken name ∉ taken := by
  obtain ⟨n, hn, hfree, -⟩ := fresh_spec hname taken
  rwa [hn]

end Text

end ContractTests
