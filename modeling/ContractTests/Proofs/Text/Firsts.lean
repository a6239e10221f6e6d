import ContractTests.Proofs.Expr.Traversal
import Mathlib.Data.List.Induction

/-! # First occurrences

`FirstsOf names all`: the names are those of a list that may repeat them, each once and in the order
in which they first occur there. Leaving out repetitions gives such names (`firstsOf_eraseDups`).
-/

set_option autoImplicit false

namespace ContractTests

/-- The names are those of the list, each once and in the order of first occurrences. -/
structure FirstsOf (names all : List String) : Prop where
  nodup : names.Nodup
  mem_iff : ∀ name, name ∈ names ↔ name ∈ all
  ordered : names.Pairwise fun a b => all.idxOf a < all.idxOf b

/-- A name that comes last is left out if it occurs before. -/
theorem eraseDups_append_singleton (names : List String) (last : String) :
    (names ++ [last]).eraseDups =
      if last ∈ names then names.eraseDups else names.eraseDups ++ [last] := by
  rw [List.eraseDups_append]
  split
  · have hnone : [last].removeAll names = [] := by simp [List.removeAll, *]
    rw [hnone, List.eraseDups_nil, List.append_nil]
  · have hnew : [last].removeAll names = [last] := by simp [List.removeAll, *]
    rw [hnew, List.eraseDups_cons, List.filter_nil, List.eraseDups_nil]

theorem pairwise_idxOf_eraseDups (all : List String) :
    all.eraseDups.Pairwise fun a b => all.idxOf a < all.idxOf b := by
  induction all using List.reverseRecOn with
  | nil => exact .nil
  | append_singleton all last ih =>
    -- a name that is added at the end changes no place that a name already has
    have hplace : ∀ name ∈ all.eraseDups, (all ++ [last]).idxOf name = all.idxOf name :=
      fun name hname => List.idxOf_append_of_mem (List.mem_eraseDups.1 hname)
    have hkept : all.eraseDups.Pairwise fun a b =>
        (all ++ [last]).idxOf a < (all ++ [last]).idxOf b := by
      refine ih.imp_of_mem fun {a b} ha hb hlt => ?_
      rwa [hplace a ha, hplace b hb]
    rw [eraseDups_append_singleton]
    split
    · exact hkept
    · rename_i hlast
      rw [List.pairwise_append]
      refine ⟨hkept, List.pairwise_singleton _ _, ?_⟩
      intro name hname other hother
      obtain rfl : other = last := List.mem_singleton.1 hother
      rw [hplace name hname, List.idxOf_append, if_neg hlast]
      have hlt := List.idxOf_lt_length_iff.2 (List.mem_eraseDups.1 hname)
      omega

theorem firstsOf_eraseDups (all : List String) : FirstsOf all.eraseDups all where
  nodup := nodup_eraseDups all
  mem_iff _ := List.mem_eraseDups
  ordered := pairwise_idxOf_eraseDups all

end ContractTests
