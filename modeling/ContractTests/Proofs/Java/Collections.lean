import ContractTests.Proofs.Java.Texts
import ContractTests.Proofs.Java.TypeArguments

/-! # Objects and collections

Object creation and collection literals are written as calls of Java's library. `Java.objectTree`,
`Java.setTree`, `Java.mapTree` and `Java.asList` are these calls as trees, and the texts that are
written read as them.
-/

set_option autoImplicit false

namespace ContractTests.Java

/-! ## Trees -/

def asList (elements : List Tree) : Tree := .send (.name "Arrays") "asList" elements

def mapOf (args : List Tree) : Tree := .send (.name "Map") "of" args

/-- Whether objects of the type are made as arrays: the type is written with square brackets. -/
def isArrayName (type : String) : Bool := (Text.stripEnd? ['[', ']'] type.toList).isSome

/-- Whether Java can make an object of the type in the way that is written for it: an array of an
array type, and else an object of a class, which may have a diamond. -/
def isMade (α : Alphabet) (type : String) : Bool :=
  if isArrayName type then isArrayType (typeTokens α type)
  else isCreatable (typeTokens α type)

/-- The tree of a new object: a collection interface is made from the collection of its contents. -/
def objectTree (α : Alphabet) (type : String) (args : List Tree) : Tree :=
  if isArrayName type || !isInterface type then .create (typeTokens α type) args
  else .create (typeTokens α (implementationName type)) <|
    if args.isEmpty then []
    else if JavaType.implementation type == "HashMap" then [mapOf args]
    else [asList args]

def setTree (α : Alphabet) (elements : List Tree) : Tree :=
  .create (typeTokens α "HashSet<>") (if elements.isEmpty then [] else [asList elements])

def mapTree (α : Alphabet) (entries : List (Tree × Tree)) : Tree :=
  if entries.isEmpty then .create (typeTokens α "HashMap<>") []
  else if entries.length ≤ mapOfLimit then mapOf (entries.flatMap fun p => [p.1, p.2])
  else .send (.name "Map") "ofEntries" <|
    entries.map fun p => .send (.name "Map") "entry" [p.1, p.2]

/-! ## Texts -/

variable {α : Alphabet} {type : String} {texts : List String} {args : List Tree}

theorem reads_asList (h : List.Forall₂ (Reads α IsExpression) texts args) :
    Reads α IsReceiver ("Arrays.asList(" ++ commaSeparated texts ++ ")") (asList args) :=
  (reads_library (isIdentifier_of_ascii (by decide))
    (isIdentifier_of_ascii (by decide)) h).of_toList_eq (by simp)

theorem reads_mapOf (h : List.Forall₂ (Reads α IsExpression) texts args) :
    Reads α IsReceiver ("Map.of(" ++ commaSeparated texts ++ ")") (mapOf args) :=
  (reads_library (isIdentifier_of_ascii (by decide))
    (isIdentifier_of_ascii (by decide)) h).of_toList_eq (by simp)

theorem isEmpty_eq_of_forall₂ {σ τ : Type} {R : σ → τ → Prop} {xs : List σ} {ys : List τ}
    (h : List.Forall₂ R xs ys) : xs.isEmpty = ys.isEmpty := by
  cases h <;> rfl

/-- The text of a new object reads as its tree. -/
theorem reads_newObject {p : List Token → Bool} (htype : (lex α type.toList).any p = true)
    (hmade : isMade α type = true) (h : List.Forall₂ (Reads α IsExpression) texts args) :
    Reads α IsReceiver (newObject type texts) (objectTree α type args) := by
  have htokens := (lexes_typeTokens htype).1
  unfold newObject objectTree isArrayName
  rw [isMade, isArrayName] at hmade
  cases helement : Text.stripEnd? ['[', ']'] type.toList with
  | some element =>
    have hsplit : type.toList = element ++ ['[', ']'] := by
      obtain ⟨hsuffix, htake⟩ := Option.ite_none_right_eq_some.1 helement
      obtain ⟨front, hfront⟩ := List.isSuffixOf_iff_suffix.1 hsuffix
      cases htake
      simp [← hfront]
    rw [helement] at hmade
    exact reads_array (hsplit ▸ htokens) hmade h
  | none =>
    rw [helement] at hmade
    have hcreatable : isCreatable (typeTokens α type) = true := hmade
    cases hinterface : isInterface type with
    | false => exact reads_object htokens hcreatable h
    | true =>
      obtain ⟨htarget, hcreatable⟩ := lexes_implementationName hinterface htokens hcreatable
      have hempty := isEmpty_eq_of_forall₂ h
      simp only [Option.isSome_none, Bool.false_or, Bool.not_true, Bool.false_eq_true, if_false]
      split
      · rename_i hargs
        rw [hempty] at hargs
        rw [if_pos hargs]
        exact (reads_object htarget hcreatable .nil).of_toList_eq
          (by simp [implementationName, commaSeparated])
      · rename_i hargs
        rw [hempty] at hargs
        rw [if_neg hargs]
        split
        · have hcontents := (reads_mapOf h).primary.operand.expression
          exact (reads_object htarget hcreatable (.cons hcontents .nil)).of_toList_eq
            (by simp [implementationName, commaSeparated])
        · have hcontents := (reads_asList h).primary.operand.expression
          exact (reads_object htarget hcreatable (.cons hcontents .nil)).of_toList_eq
            (by simp [implementationName, commaSeparated])

/-- A class of the library with a diamond. -/
theorem reads_diamond (name : String) (hname : isAsciiIdentifier name = true)
    (h : List.Forall₂ (Reads α IsExpression) texts args) :
    Reads α IsReceiver ("new " ++ (name ++ "<>") ++ "(" ++ commaSeparated texts ++ ")")
      (.create (typeTokens α (name ++ "<>")) args) := by
  have hidentifier := isIdentifier_of_ascii (α := α) hname
  have hdiamond : Lexes α ['<', '>'] diamond := rfl
  have hlexes : Lexes α (name ++ "<>").toList (.identifier name :: diamond) := by
    simpa using (lexes_identifier hidentifier).append_angle hdiamond (by rintro _ ⟨⟩; rfl)
  obtain ⟨htokens, hcreatable⟩ := lexes_typeTokens (p := isCreatable) <|
    (Option.any_eq_true _ _).2 ⟨_, hlexes, rfl⟩
  exact reads_object htokens hcreatable h

theorem reads_newSet (h : List.Forall₂ (Reads α IsExpression) texts args) :
    Reads α IsReceiver (newSet texts) (setTree α args) := by
  have hempty := isEmpty_eq_of_forall₂ h
  unfold newSet setTree
  rw [hempty]
  split
  · exact (reads_diamond "HashSet" (by decide) .nil).of_toList_eq
      (by simp [commaSeparated])
  · have hcontents := (reads_asList h).primary.operand.expression
    exact (reads_diamond "HashSet" (by decide) (.cons hcontents .nil)).of_toList_eq
      (by simp [commaSeparated])

theorem commaSeparated_pairs (entries : List (String × String)) :
    commaSeparated (entries.map fun entry => entry.1 ++ ", " ++ entry.2) =
      commaSeparated (entries.flatMap fun entry => [entry.1, entry.2]) := by
  unfold commaSeparated
  induction entries with
  | nil => rfl
  | cons entry rest ih =>
    cases rest with
    | nil => simp [String.intercalate_cons_cons]
    | cons second rest =>
      simp only [List.map_cons, List.flatMap_cons, List.cons_append, List.nil_append,
        String.intercalate_cons_cons] at ih ⊢
      rw [ih]
      simp only [String.append_assoc]

theorem forall₂_pairs {σ τ : Type} {R : σ → τ → Prop} {xs : List (σ × σ)} {ys : List (τ × τ)}
    (h : List.Forall₂ (fun p q => R p.1 q.1 ∧ R p.2 q.2) xs ys) :
    List.Forall₂ R (xs.flatMap fun p => [p.1, p.2]) (ys.flatMap fun q => [q.1, q.2]) := by
  induction h with
  | nil => exact .nil
  | cons hpair _ ih => exact .cons hpair.1 (.cons hpair.2 ih)

theorem reads_newMap {entries : List (String × String)} {trees : List (Tree × Tree)}
    (h : List.Forall₂ (fun p q => Reads α IsExpression p.1 q.1 ∧ Reads α IsExpression p.2 q.2)
      entries trees) : Reads α IsReceiver (newMap entries) (mapTree α trees) := by
  have hempty := isEmpty_eq_of_forall₂ h
  have hlength := h.length_eq
  unfold newMap mapTree
  dsimp only
  rw [hempty, hlength]
  split
  · exact (reads_diamond "HashMap" (by decide) .nil).of_toList_eq
      (by simp [commaSeparated])
  split
  · rw [commaSeparated_pairs]
    exact reads_mapOf (forall₂_pairs h)
  · have hentries : List.Forall₂ (Reads α IsExpression)
        ((entries.map fun entry => entry.1 ++ ", " ++ entry.2).map fun pair =>
          "Map.entry(" ++ pair ++ ")")
        (trees.map fun p => .send (.name "Map") "entry" [p.1, p.2]) := by
      rw [List.forall₂_map_right_iff, List.map_map, List.forall₂_map_left_iff]
      refine h.imp fun p q hpair => ?_
      have hclass : α.isIdentifier "Map" = true := isIdentifier_of_ascii (by decide)
      have hname : α.isIdentifier "entry" = true := isIdentifier_of_ascii (by decide)
      have hentry := reads_library hclass hname (.cons hpair.1 (.cons hpair.2 .nil))
      exact (hentry.of_toList_eq
        (by simp [commaSeparated, String.intercalate_cons_cons])).primary.operand.expression
    exact (reads_library (isIdentifier_of_ascii (by decide))
      (isIdentifier_of_ascii (by decide)) hentries).of_toList_eq (by simp)

end ContractTests.Java
