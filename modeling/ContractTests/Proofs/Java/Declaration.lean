import ContractTests.Java.Declaration
import ContractTests.Proofs.Java.Lexical

/-! # What the scan for a declaration goes past

`Java.PassesOver name before text after` says that the scan for the declaration of `name` does not
end in `text`. It does not where the name goes on a word or a point (`Java.StartsName`), where no
list follows it, and where the list that follows it is closed and no body comes next
(`Java.PassesAt`). A text is `Java.Settled` if its lists and literals are closed in it and the scan
goes past it before anything that does not go on with it; texts are put together from settled ones.
What a literal holds is not told apart from code, so that a literal is only settled when it does not
look like a call (`Java.LooksLikeCall`).
-/

set_option autoImplicit false

namespace ContractTests.Java

open Text

/-! ## One step of the scan -/

/-- The characters of a name, which has at least one. -/
structure IsName (name : List Char) : Prop where
  nonempty : name ≠ []
  chars : ∀ c ∈ name, isIdentifierChar c = true

instance : DecidablePred IsName := fun name =>
  decidable_of_iff (name ≠ [] ∧ name.all isIdentifierChar = true)
    ⟨fun ⟨hne, hchars⟩ => ⟨hne, List.all_eq_true.1 hchars⟩,
      fun h => ⟨h.nonempty, List.all_eq_true.2 h.chars⟩⟩

/-- A character of an identifier is not blank. -/
theorem isBlank_of_isIdentifierChar {c : Char} (h : isIdentifierChar c = true) :
    isBlank c = false := by
  have hcodes : ([0x09, 0x0a, 0x0b, 0x0c, 0x0d, 0x20, 0x85, 0xa0, 0x1680, 0x2000, 0x2001, 0x2002,
      0x2003, 0x2004, 0x2005, 0x2006, 0x2007, 0x2008, 0x2009, 0x200a, 0x2028, 0x2029, 0x202f, 0x205f,
      0x3000].all fun n => !isIdentifierChar (Char.ofNat n)) = true := by decide +kernel
  rw [List.all_eq_true] at hcodes
  refine Bool.eq_false_iff.2 fun hblank => ?_
  have hspace : c = ' ' ↔ c.toNat = 0x20 :=
    ⟨by rintro rfl; rfl, fun hc => by rw [← Char.ofNat_toNat c, hc]⟩
  simp only [isBlank, Bool.or_eq_true, Bool.and_eq_true, beq_iff_eq, decide_eq_true_eq,
    hspace] at hblank
  have hword := hcodes c.toNat (by simp only [List.mem_cons, List.not_mem_nil, or_false]; omega)
  rw [Char.ofNat_toNat, h] at hword
  cases hword

/-- Whether a body or a `throws` clause comes next. -/
def opensBody (after : List Char) : Bool :=
  (trimStart after).head? == some '\x7b' || "throws".toList.isPrefixOf (trimStart after)

theorem isDeclaration_of_not_opensBody {before after : List Char} (h : opensBody after = false) :
    isDeclaration before after = false := by
  unfold opensBody at h
  simp only [isDeclaration, h, Bool.and_false]

/-- A name can begin after the text, which is reversed: it ends neither in a word nor in a point. -/
def StartsName (before : List Char) : Prop :=
  ∀ c ∈ before.head?, isIdentifierChar c = false ∧ c ≠ '.'

theorem startsName_iff {before : List Char} :
    StartsName before ↔ (before.head?.all fun c => !isIdentifierChar c && c != '.') = true := by
  simp [StartsName, Option.all_eq_true]

instance : DecidablePred StartsName := fun _ => decidable_of_iff _ startsName_iff.symm

/-- A name between `before` and `after` is no declaration: it goes on a word or a point, or no list
comes next, or the list is closed and no body follows it. -/
def PassesAt (before after : List Char) : Prop :=
  ¬ StartsName before ∨
    ∀ list, trimStart after = '(' :: list →
      ∃ parameters rest, argumentList? 0 .code list = some (parameters, rest) ∧
        opensBody rest = false

/-- The scan for the declaration of `name` goes past the text. -/
def PassesOver (name before text after : List Char) : Prop :=
  parameterList? name before 0 (text ++ after) =
    parameterList? name (text.reverse ++ before) 0 after

variable {name before text after : List Char}

theorem parameterList?_skip (name before skipped after : List Char) :
    parameterList? name before skipped.length (skipped ++ after) =
      parameterList? name (skipped.reverse ++ before) 0 after := by
  induction skipped generalizing before with
  | nil => rfl
  | cons c skipped ih =>
    rw [List.length_cons, List.cons_append, parameterList?, ih, List.reverse_cons,
      List.append_assoc, List.singleton_append]

/-- Where the scan stands at the name, it ends at a declaration or a list that is not closed, and
goes on after the name otherwise. -/
theorem parameterList?_name (hname : name ≠ []) (before after : List Char) :
    parameterList? name before 0 (name ++ after) =
      match before.head?.all fun c => !isIdentifierChar c && c != '.', trimStart after with
      | true, '(' :: list =>
        match argumentList? 0 .code list with
        | none =>
          .error ⟨String.ofList name, .unterminatedList, String.ofList (firstLine (name ++ after))⟩
        | some (parameters, rest) =>
          if isDeclaration before rest then .ok (some parameters)
          else parameterList? name (name.reverse ++ before) 0 after
      | _, _ => parameterList? name (name.reverse ++ before) 0 after := by
  obtain ⟨c, name', rfl⟩ := List.exists_cons_of_ne_nil hname
  have hbegins : (c :: name').isPrefixOf (c :: (name' ++ after)) = true :=
    List.isPrefixOf_iff_prefix.2 ⟨after, rfl⟩
  have hrest : parameterList? (c :: name') (c :: before) ((c :: name').length - 1)
      (name' ++ after) = parameterList? (c :: name') ((c :: name').reverse ++ before) 0 after := by
    rw [List.length_cons, Nat.add_sub_cancel, parameterList?_skip, List.reverse_cons,
      List.append_assoc, List.singleton_append]
  have hdrop : (c :: (name' ++ after)).drop (c :: name').length = after := by
    rw [← List.cons_append, List.drop_left]
  rewrite [List.cons_append, parameterList?, if_pos hbegins, hdrop, hrest]
  rfl

theorem parameterList?_of_passesAt (hname : name ≠ []) (h : PassesAt before after) :
    PassesOver name before name after := by
  rw [PassesOver, parameterList?_name hname]
  split
  · rename_i list hisName hlist
    rcases h with hstarts | hclosed
    · exact absurd (startsName_iff.2 hisName) hstarts
    · obtain ⟨parameters, rest, hlist', hbody⟩ := hclosed list hlist
      rw [hlist']
      dsimp only
      rw [isDeclaration_of_not_opensBody hbody]
      rfl
  · rfl

/-- The scan ends at a declaration. -/
theorem parameterList?_of_isDeclaration {list parameters rest : List Char} (hname : IsName name)
    (hbefore : StartsName before)
    (hlist : argumentList? 0 .code list = some (parameters, rest))
    (hdeclaration : isDeclaration before rest = true) :
    parameterList? name before 0 (name ++ '(' :: list) = .ok (some parameters) := by
  have hisName := startsName_iff.1 hbefore
  have htrim : trimStart ('(' :: list) = '(' :: list := rfl
  rw [parameterList?_name hname.nonempty]
  simp only [hisName, htrim, hlist, hdeclaration, if_true]

theorem parameterList?_of_not_prefix {c : Char} (h : ¬ name <+: c :: after) :
    PassesOver name before [c] after := by
  have hbegins : name.isPrefixOf (c :: after) = false :=
    Bool.eq_false_iff.2 (mt List.isPrefixOf_iff_prefix.1 h)
  rw [PassesOver, List.singleton_append, parameterList?]
  simp [hbegins]

/-! ## Texts -/

theorem PassesOver.append {text' : List Char} (h : PassesOver name before text (text' ++ after))
    (h' : PassesOver name (text.reverse ++ before) text' after) :
    PassesOver name before (text ++ text') after := by
  unfold PassesOver at *
  rw [List.append_assoc, h, h', List.reverse_append, List.append_assoc]

/-- No word goes from the text over to what follows. -/
def EndsWord (text after : List Char) : Prop :=
  ∀ c ∈ text.getLast?, ∀ d ∈ after.head?,
    isIdentifierChar c = false ∨ isIdentifierChar d = false

theorem endsWord_cons {c : Char} (h : isIdentifierChar c = false) : EndsWord text (c :: after) := by
  rintro _ _ _ ⟨⟩
  exact .inr h

/-- A name that begins in a text ends there, unless a word goes over to what follows. -/
theorem IsName.prefix_of_endsWord (hname : IsName name) (hend : EndsWord text after)
    (htext : text ≠ []) (h : name <+: text ++ after) : name <+: text := by
  obtain ⟨rest, hrest⟩ := h
  rcases List.append_eq_append_iff.1 hrest with ⟨v, rfl, -⟩ | ⟨more, rfl, rfl⟩
  · exact List.prefix_append name v
  · cases more with
    | nil => simp
    | cons d more =>
      obtain ⟨c, hc⟩ := Option.isSome_iff_exists.1 (List.getLast?_isSome.2 htext)
      have hcd := hend c hc d rfl
      rw [hname.chars c (List.mem_append_left _ (List.mem_of_getLast? hc)),
        hname.chars d (by simp)] at hcd
      rcases hcd with hcd | hcd <;> cases hcd

/-- The scan goes past a text in which it goes past every name, when no name goes over to what
follows. -/
theorem passesOver_of_ends (hname : name ≠ [])
    (hends : ∀ v, v <:+ text → v ≠ [] → name <+: v ++ after → name <+: v)
    (h : ∀ u v, text = u ++ name ++ v → PassesAt (u.reverse ++ before) (v ++ after)) :
    PassesOver name before text after := by
  induction hlength : text.length using Nat.strongRecOn generalizing text before with
  | _ length ih =>
    cases text with
    | nil => rfl
    | cons c rest =>
      by_cases hbegins : name <+: c :: rest
      · obtain ⟨v, hv⟩ := hbegins
        have hshorter : v.length < length := by
          have hpos := List.length_pos_iff.2 hname
          rw [← hlength, ← hv, List.length_append]
          omega
        rw [← hv]
        refine .append (parameterList?_of_passesAt hname (h [] v hv.symm)) (ih _ hshorter ?_ ?_ rfl)
        · intro w hw
          refine hends w ?_
          rw [← hv]
          exact hw.trans (List.suffix_append name v)
        · intro u w huw
          have := h (name ++ u) w (by rw [← hv, huw]; simp only [List.append_assoc])
          rwa [List.reverse_append, List.append_assoc] at this
      · have hfirst : PassesOver name before [c] (rest ++ after) :=
          parameterList?_of_not_prefix fun hp =>
            hbegins (hends _ List.suffix_rfl (List.cons_ne_nil c rest) hp)
        have hshorter : rest.length < length := by
          rw [← hlength]
          exact Nat.lt_succ_self _
        refine hfirst.append (ih _ hshorter ?_ ?_ rfl)
        · exact fun v hv => hends v (hv.trans (List.suffix_cons c rest))
        · intro u v huv
          have := h (c :: u) v (by rw [huv]; rfl)
          rwa [List.reverse_cons, List.append_assoc] at this

theorem passesOver_of_passesAt (hname : IsName name) (hend : EndsWord text after)
    (h : ∀ u v, text = u ++ name ++ v → PassesAt (u.reverse ++ before) (v ++ after)) :
    PassesOver name before text after := by
  refine passesOver_of_ends hname.nonempty (fun v hv hne => ?_) h
  refine hname.prefix_of_endsWord (fun c hc => hend c ?_) hne
  obtain ⟨u, rfl⟩ := hv
  rw [List.getLast?_append, Option.mem_def.1 hc]
  rfl

/-- The text has the name with a parenthesis after it. -/
def LooksLikeCall (name text : List Char) : Prop :=
  ∃ u v list, text = u ++ name ++ v ∧ trimStart v = '(' :: list

/-- What follows goes on neither with a word nor with a list. -/
def Apart (after : List Char) : Prop :=
  (∀ c ∈ after.head?, isIdentifierChar c = false) ∧ (trimStart after).head? ≠ some '('

/-- What follows goes on neither with a word nor with a list nor with a body. -/
structure Calm (after : List Char) : Prop where
  apart : Apart after
  noBody : opensBody after = false

theorem trimStart_append_eq_cons {v list : List Char} {c : Char}
    (h : trimStart (v ++ after) = c :: list) :
    (trimStart v = [] ∧ trimStart after = c :: list) ∨
      ∃ rest, trimStart v = c :: rest ∧ list = rest ++ after := by
  unfold trimStart at *
  rw [List.dropWhile_append] at h
  split at h
  · rename_i hempty
    exact .inl ⟨List.isEmpty_iff.1 hempty, h⟩
  · cases hv : v.dropWhile isBlank with
    | nil => simp [hv] at *
    | cons d rest =>
      rw [hv] at h
      cases h
      exact .inr ⟨rest, rfl, rfl⟩

theorem passesOver_of_not_looksLikeCall (hname : IsName name) (h : ¬ LooksLikeCall name text)
    (hafter : Apart after) : PassesOver name before text after := by
  refine passesOver_of_passesAt hname (fun c _ d hd => .inr (hafter.1 d hd)) ?_
  rintro u v rfl
  refine .inr fun list hlist => ?_
  rcases trimStart_append_eq_cons hlist with ⟨-, hrest⟩ | ⟨rest, hv, -⟩
  · exact absurd (congrArg List.head? hrest) hafter.2
  · exact absurd ⟨u, v, rest, rfl, hv⟩ h

/-- A text that the name does not occur in. -/
theorem passesOver_of_not_infix (hname : IsName name) (h : ¬ name <:+: text)
    (hend : EndsWord text after) : PassesOver name before text after :=
  passesOver_of_passesAt hname hend fun u v huv => absurd ⟨u, v, huv.symm⟩ h

/-- A text without words. -/
theorem passesOver_of_no_word (hname : IsName name)
    (h : ∀ c ∈ text, isIdentifierChar c = false) : PassesOver name before text after := by
  refine passesOver_of_not_infix hname (fun hoccurs => ?_) fun c hc _ _ =>
    .inl (h c (List.mem_of_getLast? hc))
  obtain ⟨c, name', rfl⟩ := List.exists_cons_of_ne_nil hname.nonempty
  have hword := hname.chars c List.mem_cons_self
  rw [h c (hoccurs.subset List.mem_cons_self)] at hword
  cases hword

/-! ## Lists -/

/-- The lists and literals of the text are closed in it. -/
def Balanced (text : List Char) : Prop :=
  ∀ depth after, argumentList? depth .code (text ++ after) =
    (argumentList? depth .code after).map fun p => (text ++ p.1, p.2)

theorem balanced_nil : Balanced [] := fun depth after => by
  cases h : argumentList? depth .code after <;> simp [h]

theorem Balanced.append {text text' : List Char} (h : Balanced text) (h' : Balanced text') :
    Balanced (text ++ text') := fun depth after => by
  rw [List.append_assoc, h, h', Option.map_map]
  simp only [Function.comp_def, List.append_assoc]

/-- A character without parentheses and quotes. -/
def isBareChar (c : Char) : Bool := !isQuote c && c != '(' && c != ')'

theorem balanced_singleton {c : Char} (h : isBareChar c = true) : Balanced [c] := by
  intro depth after
  simp only [isBareChar, Bool.and_eq_true, Bool.not_eq_true', bne_iff_ne] at h
  obtain ⟨⟨hquote, hopen⟩, hclose⟩ := h
  simp [argumentList?, Lexical.covers, Lexical.next, hquote, hopen, hclose]

theorem balanced_of_bare (h : ∀ c ∈ text, isBareChar c = true) : Balanced text := by
  induction text with
  | nil => exact balanced_nil
  | cons c rest ih =>
    obtain ⟨hc, hrest⟩ := List.forall_mem_cons.1 h
    exact (balanced_singleton hc).append (ih hrest)

theorem Balanced.parens (h : Balanced text) : Balanced ('(' :: (text ++ [')'])) := by
  intro depth after
  have hopen (cs : List Char) : argumentList? depth .code ('(' :: cs) =
      (argumentList? (depth + 1) .code cs).map fun p => ('(' :: p.1, p.2) := rfl
  have hclose (cs : List Char) : argumentList? (depth + 1) .code (')' :: cs) =
      (argumentList? depth .code cs).map fun p => (')' :: p.1, p.2) := rfl
  rw [List.cons_append, List.append_assoc, hopen, h, List.singleton_append, hclose]
  simp [Option.map_map, Function.comp_def]

/-- A balanced list is closed by the parenthesis that follows it. -/
theorem Balanced.argumentList?_eq (h : Balanced text) (after : List Char) :
    argumentList? 0 .code (text ++ ')' :: after) = some (text, after) := by
  rw [h]
  have hclose : argumentList? 0 .code (')' :: after) = some ([], after) := rfl
  rw [hclose, Option.map_some, List.append_nil]

/-- The scan goes past what stands before a list when the list is closed and no body follows. -/
theorem passesOver_list {list : List Char} (hname : IsName name) (htext : '(' ∉ text)
    (hlist : Balanced list) (hafter : opensBody after = false) :
    PassesOver name before text ('(' :: (list ++ ')' :: after)) := by
  refine passesOver_of_passesAt hname (fun c _ d hd => .inr ?_) ?_
  · cases hd
    decide
  · rintro u v rfl
    refine .inr fun rest hrest => ?_
    rcases trimStart_append_eq_cons hrest with ⟨-, hrest⟩ | ⟨rest, hv, -⟩
    · cases hrest
      exact ⟨list, after, hlist.argumentList?_eq after, hafter⟩
    · have hmem : '(' ∈ trimStart v := by rw [hv]; exact List.mem_cons_self
      exact absurd (List.mem_append_right _ ((List.dropWhile_sublist _).subset hmem)) htext

/-! ## Literals -/

/-- A parenthesis stands for itself in a literal. -/
theorem eq_of_mem_javaEscape {c : Char} (h : '(' ∈ javaEscape c) : c = '(' := by
  unfold javaEscape at h
  split at h
  · simp at h
  split at h
  · simp at h
  split at h
  · simp at h
  split at h
  · simp at h
  split at h
  · simp at h
  split at h
  · rename_i hcontrol
    simp only [List.mem_cons] at h
    rcases h with h | h | h
    · cases h
    · cases h
    · exact absurd rfl (mem_hexDigits_of_isControl hcontrol h).2.2
  · exact (List.mem_singleton.1 h).symm

/-- A string literal is closed by its last quote. -/
theorem balanced_javaLiteral (s : String) : Balanced (javaLiteral s).toList := by
  rw [toList_javaLiteral]
  exact fun depth after =>
    argumentList?_literal rfl (isContent_flatMap_javaEscape s.toList) depth after

/-! ## Settled texts -/

/-- The lists and literals of the text are closed in it, and the scan goes past it before anything
that goes on neither with a word nor with a list nor with a body. -/
structure Settled (name : List Char) (text : String) : Prop where
  balanced : Balanced text.toList
  passes : ∀ before after, Calm after → PassesOver name before text.toList after

/-- A text without parentheses and quotes. -/
def IsBare (text : String) : Prop := ∀ c ∈ text.toList, isBareChar c = true

instance : DecidablePred IsBare := fun text =>
  decidable_of_iff (text.toList.all isBareChar = true) List.all_eq_true

@[simp] theorem isBare_append {s t : String} : IsBare (s ++ t) ↔ IsBare s ∧ IsBare t := by
  simp only [IsBare, String.toList_append, List.forall_mem_append]

theorem IsBare.not_mem {s : String} (h : IsBare s) : '(' ∉ s.toList := fun hmem =>
  absurd (h _ hmem) (by decide)

/-- A text without words, parentheses and quotes. -/
def IsSign (text : String) : Prop :=
  ∀ c ∈ text.toList, isIdentifierChar c = false ∧ isBareChar c = true

instance : DecidablePred IsSign := fun text =>
  decidable_of_iff (text.toList.all (fun c => !isIdentifierChar c && isBareChar c) = true)
    (by simp [IsSign])

theorem IsSign.isBare {s : String} (h : IsSign s) : IsBare s := fun c hc => (h c hc).2

/-- A sign that is not blank and does not open a body. -/
structure IsSeparator (text : String) : Prop where
  sign : IsSign text
  visible : ∃ c rest, trimStart text.toList = c :: rest ∧ c ≠ '\x7b'

theorem trimStart_append_of_ne_nil {v : List Char} (h : trimStart v ≠ []) (after : List Char) :
    trimStart (v ++ after) = trimStart v ++ after := by
  unfold trimStart at *
  rw [List.dropWhile_append, if_neg (by simpa using h)]

theorem opensBody_of_trimStart {c : Char} {rest : List Char} (h : trimStart after = c :: rest)
    (hword : isIdentifierChar c = false) (hbody : c ≠ '\x7b') : opensBody after = false := by
  have hthrows : "throws".toList.isPrefixOf (c :: rest) = false := by
    refine Bool.eq_false_iff.2 fun hp => ?_
    obtain ⟨list, hlist⟩ := List.isPrefixOf_iff_prefix.1 hp
    have hfirst : c = 't' := ((List.cons.inj hlist).1).symm
    rw [hfirst] at hword
    exact absurd hword (by decide)
  rw [opensBody, h, hthrows]
  simp [hbody]

theorem IsSeparator.calm {separator : String} (h : IsSeparator separator) (after : List Char) :
    Calm (separator.toList ++ after) := by
  obtain ⟨c, rest, hvisible, hbody⟩ := h.visible
  have hmem : c ∈ separator.toList :=
    (List.dropWhile_sublist _).subset (by rw [← trimStart, hvisible]; exact List.mem_cons_self)
  obtain ⟨hword, hbare⟩ := h.sign c hmem
  have htrim : trimStart (separator.toList ++ after) = c :: (rest ++ after) := by
    rw [trimStart_append_of_ne_nil (by rw [hvisible]; exact List.cons_ne_nil c rest), hvisible]
    rfl
  refine ⟨⟨fun d hd => ?_, ?_⟩, opensBody_of_trimStart htrim hword hbody⟩
  · obtain ⟨e, others, he⟩ := List.exists_cons_of_ne_nil (List.ne_nil_of_mem hmem)
    rw [he] at hd
    cases hd
    exact (h.sign d (by rw [he]; exact List.mem_cons_self)).1
  · rw [htrim]
    rintro ⟨⟩
    exact absurd hbare (by decide)

theorem calm_cons {c : Char} (hword : isIdentifierChar c = false) (hblank : isBlank c = false)
    (hlist : c ≠ '(') (hbody : c ≠ '\x7b') (after : List Char) : Calm (c :: after) := by
  have htrim : trimStart (c :: after) = c :: after :=
    List.dropWhile_cons_of_neg (by simp [hblank])
  refine ⟨⟨?_, ?_⟩, opensBody_of_trimStart htrim hword hbody⟩
  · rintro _ ⟨⟩
    exact hword
  · rw [htrim]
    simpa using hlist

theorem calm_closing (after : List Char) : Calm (')' :: after) :=
  calm_cons (by decide) (by decide) (by decide) (by decide) after

section

variable {name : List Char}

theorem IsBare.passesOver (hname : IsName name) {text : String} (h : IsBare text)
    {before after : List Char} (hafter : Apart after) :
    PassesOver name before text.toList after := by
  refine passesOver_of_not_looksLikeCall hname ?_ hafter
  rintro ⟨u, v, list, htext, hlist⟩
  have hmem : '(' ∈ trimStart v := by rw [hlist]; exact List.mem_cons_self
  refine h.not_mem ?_
  rw [htext]
  exact List.mem_append_right _ ((List.dropWhile_sublist _).subset hmem)

theorem settled_of_isBare (hname : IsName name) {text : String} (h : IsBare text) :
    Settled name text where
  balanced := balanced_of_bare h
  passes _ _ hafter := h.passesOver hname hafter.apart

theorem settled_empty (hname : IsName name) : Settled name "" := settled_of_isBare hname (by decide)

theorem settled_javaLiteral (hname : IsName name) {s : String}
    (h : ¬ LooksLikeCall name (javaLiteral s).toList) : Settled name (javaLiteral s) where
  balanced := balanced_javaLiteral s
  passes _ _ hafter := passesOver_of_not_looksLikeCall hname h hafter.apart

/-- A text in parentheses, with a bare text before them. -/
theorem Settled.list (hname : IsName name) {text : String} (h : Settled name text)
    (head : String) (hhead : IsBare head) : Settled name (head ++ "(" ++ text ++ ")") where
  balanced := by
    have hlist := (balanced_of_bare hhead).append h.balanced.parens
    simpa using hlist
  passes before after hafter := by
    have htext : (head ++ "(" ++ text ++ ")").toList =
        head.toList ++ (['('] ++ (text.toList ++ [')'])) := by simp
    have hopen : ∀ c ∈ ['('], isIdentifierChar c = false :=
      List.forall_mem_singleton.2 (by decide)
    have hclose : ∀ c ∈ [')'], isIdentifierChar c = false :=
      List.forall_mem_singleton.2 (by decide)
    have hfirst : PassesOver name before head.toList
        (['('] ++ (text.toList ++ [')']) ++ after) := by
      simpa using passesOver_list hname hhead.not_mem h.balanced hafter.noBody
    rw [htext]
    refine hfirst.append ((passesOver_of_no_word hname hopen).append (.append ?_ ?_))
    · exact h.passes _ _ (calm_closing after)
    · exact passesOver_of_no_word hname hclose

/-- A text after a bare text in parentheses. No list comes before the parentheses, so that it does
not matter what follows them. -/
theorem Settled.cast (hname : IsName name) {type text : String} (htype : IsBare type)
    (h : Settled name text) : Settled name ("(" ++ type ++ ") " ++ text) where
  balanced := by
    have hblank : Balanced [' '] := balanced_singleton (by decide)
    have hcast := (balanced_of_bare htype).parens.append (hblank.append h.balanced)
    simpa using hcast
  passes before after hafter := by
    have htext : ("(" ++ type ++ ") " ++ text).toList =
        ['('] ++ (type.toList ++ ([')'] ++ ([' '] ++ text.toList))) := by simp
    have hsign {c : Char} (hc : isIdentifierChar c = false) (before after : List Char) :
        PassesOver name before [c] after :=
      passesOver_of_no_word hname (List.forall_mem_singleton.2 hc)
    rw [htext]
    refine (hsign (by decide) _ _).append (.append ?_
      ((hsign (by decide) _ _).append ((hsign (by decide) _ _).append (h.passes _ _ hafter))))
    exact (settled_of_isBare hname htype).passes _ _ (calm_closing _)

/-- A sign before a text. -/
theorem Settled.signed (hname : IsName name) {sign text : String} (hsign : IsSign sign)
    (h : Settled name text) : Settled name (sign ++ text) where
  balanced := by
    rw [String.toList_append]
    exact (balanced_of_bare hsign.isBare).append h.balanced
  passes before after hafter := by
    rw [String.toList_append]
    exact (passesOver_of_no_word hname fun c hc => (hsign c hc).1).append (h.passes _ _ hafter)

/-- Two texts with a separator between them. -/
theorem Settled.separated (hname : IsName name) {left separator right : String}
    (hseparator : IsSeparator separator) (hleft : Settled name left)
    (hright : Settled name right) : Settled name (left ++ separator ++ right) where
  balanced := by
    rw [String.append_assoc, String.toList_append]
    exact hleft.balanced.append (hright.signed hname hseparator.sign).balanced
  passes before after hafter := by
    rw [String.append_assoc, String.toList_append]
    refine (hleft.passes _ _ ?_).append ((hright.signed hname hseparator.sign).passes _ _ hafter)
    rw [String.toList_append, List.append_assoc]
    exact hseparator.calm _

end

end ContractTests.Java
