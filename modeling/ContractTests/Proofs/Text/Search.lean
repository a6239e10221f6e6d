import ContractTests.Proofs.Text.Fresh

/-! # The search for a free name

A name that is taken gets a number, and the number is raised until the name is free.
`Text.Search` is this loop, without a bound and with its rounds counted. It ends because the names
that it tries differ: no more of them can be taken than there are taken names. `Text.finds_fresh`
says that `Text.fresh`, which looks at one more name than are taken, gives the name at which the
loop ends.
-/

set_option autoImplicit false

namespace ContractTests.Text

/-- The names tried for a base: the base itself, and then the base with the numbers from `first`
on. -/
def numbered (base : String) (first : Nat) : Nat → String
  | 0 => base
  | n + 1 => base ++ "_" ++ natText (first + n)

/-- The loop from a candidate on, with the number for the next candidate: a candidate that is taken
gives way to the base with the number, and the number is raised. It ends at the name, after that
many rounds, each of which is a look at one candidate. -/
inductive Search (base : String) (taken : List String) : String → Nat → Nat → String → Prop
  | here {candidate : String} {number : Nat} (hfree : candidate ∉ taken) :
      Search base taken candidate number 1 candidate
  | next {candidate name : String} {number rounds : Nat} (htaken : candidate ∈ taken)
      (rest : Search base taken (base ++ "_" ++ natText number) (number + 1) rounds name) :
      Search base taken candidate number (rounds + 1) name

/-- The `n`-th name is not taken, and all before it are. -/
structure FirstFree (taken : List String) (name : Nat → String) (n : Nat) : Prop where
  free : name n ∉ taken
  before : ∀ k < n, name k ∈ taken

/-- The loop ends, within one more round than there are taken names, at the name: the first of the
numbered names that is not taken. The number is not raised above `first + taken.toFinset.card`. One
more name than are taken is enough to come upon a free one, so that no taken name is ever given for
want of it. -/
structure Finds (base : String) (first : Nat) (taken : List String) (name : String) : Prop where
  ends : ∃ n ≤ taken.toFinset.card, FirstFree taken (numbered base first) n ∧
    name = numbered base first n ∧
      ∀ rounds last, Search base taken base first rounds last ↔ rounds = n + 1 ∧ last = name
  among : ((List.range (taken.length + 1)).map (numbered base first)).find?
    (!taken.contains ·) = some name

variable {base : String} {first : Nat} {taken : List String}

/-- From the `k`-th name on, the loop goes on to the first one that is free. -/
theorem FirstFree.search_from {n : Nat} (h : FirstFree taken (numbered base first) n) (more : Nat)
    {k : Nat} (hk : k + more = n) :
    Search base taken (numbered base first k) (first + k) (more + 1) (numbered base first n) := by
  induction more generalizing k with
  | zero =>
    obtain rfl : k = n := hk
    exact .here h.free
  | succ more ih => exact .next (h.before k (by omega)) (ih (k := k + 1) (by omega))

/-- The loop ends in one way only. -/
theorem Search.unique {candidate name name' : String} {number rounds rounds' : Nat}
    (h : Search base taken candidate number rounds name)
    (h' : Search base taken candidate number rounds' name') : rounds' = rounds ∧ name' = name := by
  induction h generalizing rounds' with
  | here hfree =>
    cases h' with
    | here => exact ⟨rfl, rfl⟩
    | next htaken => exact absurd htaken hfree
  | next htaken _ ih =>
    cases h' with
    | here hfree => exact absurd htaken hfree
    | next _ rest =>
      obtain ⟨rfl, rfl⟩ := ih rest
      exact ⟨rfl, rfl⟩

theorem FirstFree.search_iff {n : Nat} (h : FirstFree taken (numbered base first) n)
    (rounds : Nat) (last : String) :
    Search base taken base first rounds last ↔ rounds = n + 1 ∧ last = numbered base first n := by
  have hsearch : Search base taken base first (n + 1) (numbered base first n) :=
    h.search_from n (Nat.zero_add n)
  constructor
  · exact hsearch.unique
  · rintro ⟨rfl, rfl⟩
    exact hsearch

/-- The loop ends at the fresh name. -/
theorem finds_fresh (hname : Function.Injective (numbered base first)) (taken : List String) :
    Finds base first taken (fresh taken (numbered base first)) := by
  obtain ⟨n, hn, hfree, hbefore⟩ := fresh_spec hname taken
  have hfirst : FirstFree taken (numbered base first) n := ⟨hfree, hbefore⟩
  refine ⟨⟨n, le_card_of_forall_mem hname hbefore, hfirst, hn, ?_⟩, find?_eq_fresh hname taken⟩
  rw [hn]
  exact hfirst.search_iff

end ContractTests.Text
