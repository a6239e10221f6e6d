import ContractTests.Proofs.Java.Precedence
import ContractTests.Proofs.Java.TypeName

/-! # Arguments of `Map.of`

`Map.of` takes at most ten entries. `Tree.mapOfSizes` collects the numbers of arguments of all calls
of `Map.of` in what Java reads, and `Expr.mapOfSizes_tree` finds where they come from: a map literal
writes the call for as many entries as it takes, and an object of a map interface for all of its
arguments. So the limit holds exactly if no object of a map interface is made of more arguments
(`Expr.mapOf_within_limit_iff`).
-/

set_option autoImplicit false

namespace ContractTests

open Java

namespace Java

/-! ## Calls of `Map.of` in what is read -/

/-- Whether a call of `method` on the receiver is one of `Map.of`. -/
def isMapOf (receiver : Tree) (method : String) : Bool :=
  match receiver with
  | .name scope => scope == "Map" && method == "of"
  | _ => false

mutual

/-- The numbers of arguments of the calls of `Map.of`, outermost first. -/
def Tree.mapOfSizes : Tree → List Nat
  | .literal _ => []
  | .name _ => []
  | .self => []
  | .unary _ operand => mapOfSizes operand
  | .binary _ left right => mapOfSizes left ++ mapOfSizes right
  | .conditional condition yes no => mapOfSizes condition ++ (mapOfSizes yes ++ mapOfSizes no)
  | .cast _ operand => mapOfSizes operand
  | .field scope _ => mapOfSizes scope
  | .index base position => mapOfSizes base ++ mapOfSizes position
  | .call _ args => mapOfSizesAll args
  | .send receiver method args =>
    (if isMapOf receiver method then [args.length] else []) ++
      (mapOfSizes receiver ++ mapOfSizesAll args)
  | .create _ args => mapOfSizesAll args

def Tree.mapOfSizesAll : List Tree → List Nat
  | [] => []
  | t :: rest => mapOfSizes t ++ mapOfSizesAll rest

end

namespace Tree

theorem mapOfSizesAll_eq (ts : List Tree) : mapOfSizesAll ts = ts.flatMap mapOfSizes := by
  induction ts with
  | nil => rfl
  | cons t ts ih => rw [mapOfSizesAll, List.flatMap_cons, ih]

theorem mapOfSizes_mapOf (args : List Tree) :
    (mapOf args).mapOfSizes = args.length :: args.flatMap mapOfSizes := by
  simp [mapOf, mapOfSizes, isMapOf, mapOfSizesAll_eq]

/-- A call of another name than `of`. -/
theorem mapOfSizes_send {method : String} (hmethod : method ≠ "of") (receiver : Tree)
    (args : List Tree) :
    (send receiver method args).mapOfSizes = receiver.mapOfSizes ++ args.flatMap mapOfSizes := by
  have hother : isMapOf receiver method = false := by
    unfold isMapOf
    split <;> simp [hmethod]
  simp [mapOfSizes, hother, mapOfSizesAll_eq]

end Tree

end Java

/-! ## Calls of `Map.of` that are written -/

/-- Whether an object of the type is made from `Map.of`: the base name is that of the interface
`Map`, and the type is not one of arrays. -/
def isMapInterface (type : String) : Bool := !isArrayName type && JavaType.base type == "Map"

theorem isMapInterface_eq (type : String) : isMapInterface type =
    (!(isArrayName type || !isInterface type) && JavaType.implementation type == "HashMap") := by
  have himplementation : isInterface type = true ∧ JavaType.implementation type = "HashMap" ↔
      JavaType.base type = "Map" := by
    rw [isInterface, Bool.and_eq_true, beq_iff_eq, bne_iff_ne, JavaType.category_eq_collection_iff]
    constructor
    · rintro ⟨⟨-, hne⟩, hmap⟩
      revert hne hmap
      unfold JavaType.implementation
      split
      case h_2 hbase => exact fun _ _ => hbase
      case h_7 => exact fun _ hne => absurd rfl hne
      all_goals exact fun hmap => absurd hmap (by decide)
    · intro hbase
      rw [JavaType.implementation, hbase]
      decide
  rw [Bool.eq_iff_iff]
  simp [isMapInterface, ← himplementation, and_assoc]

namespace Expr

/-- The number of arguments of the call of `Map.of` that is written for the node. -/
def mapOfSize? : Expr → Option Nat
  | .map entries =>
    if entries.isEmpty || mapOfLimit < entries.length then none else some (2 * entries.length)
  | .create type args => if isMapInterface type && !args.isEmpty then some args.length else none
  | _ => none

/-- Whether the node is a method call with the name `of`. -/
def isOfCall : Expr → Bool
  | .send _ name _ => name == "of"
  | _ => false

variable {α : Alphabet} {e : Expr}

theorem mapOfSizes_asList (elements : List Tree) :
    (asList elements).mapOfSizes = elements.flatMap Tree.mapOfSizes := by
  rw [asList, Tree.mapOfSizes_send (by decide), Tree.mapOfSizes, List.nil_append]

theorem mapOfSizes_objectTree (type : String) (args : List Tree) :
    (objectTree α type args).mapOfSizes =
      (if isMapInterface type && !args.isEmpty then [args.length] else []) ++
        args.flatMap Tree.mapOfSizes := by
  rw [isMapInterface_eq, objectTree]
  cases harray : isArrayName type || !isInterface type with
  | true => simp [Tree.mapOfSizes, Tree.mapOfSizesAll_eq]
  | false =>
    cases args with
    | nil => simp [Tree.mapOfSizes, Tree.mapOfSizesAll_eq]
    | cons first rest =>
      cases hmap : JavaType.implementation type == "HashMap" with
      | true => simp [Tree.mapOfSizes, Tree.mapOfSizesAll_eq, Tree.mapOfSizes_mapOf]
      | false => simp [Tree.mapOfSizes, Tree.mapOfSizesAll_eq, mapOfSizes_asList]

theorem mapOfSizes_mapTree (entries : List (Tree × Tree)) :
    (mapTree α entries).mapOfSizes =
      (if entries.isEmpty || mapOfLimit < entries.length then [] else [2 * entries.length]) ++
        entries.flatMap fun p => p.1.mapOfSizes ++ p.2.mapOfSizes := by
  have hentry (p : Tree × Tree) : (Tree.send (.name "Map") "entry" [p.1, p.2]).mapOfSizes =
      p.1.mapOfSizes ++ p.2.mapOfSizes := by
    rw [Tree.mapOfSizes_send (by decide), Tree.mapOfSizes]
    simp
  unfold mapTree
  cases hempty : entries.isEmpty with
  | true =>
    obtain rfl := List.isEmpty_iff.1 hempty
    simp [Tree.mapOfSizes, Tree.mapOfSizesAll_eq]
  | false =>
    by_cases hlimit : entries.length ≤ mapOfLimit
    · have hlength : (entries.flatMap fun p => [p.1, p.2]).length = 2 * entries.length := by
        simp [List.length_flatMap, Nat.mul_comm]
      simp [hlimit, Nat.not_lt.2 hlimit, Tree.mapOfSizes_mapOf, hlength, List.flatMap_assoc]
    · have hentries : (entries.map fun p => Tree.send (.name "Map") "entry" [p.1, p.2]).flatMap
          Tree.mapOfSizes = entries.flatMap fun p => p.1.mapOfSizes ++ p.2.mapOfSizes := by
        simp only [List.flatMap_map, hentry]
      simp only [Bool.false_or, Bool.false_eq_true, if_false, hlimit, Nat.not_le.1 hlimit,
        decide_true, if_true]
      rw [Tree.mapOfSizes_send (by decide), hentries, Tree.mapOfSizes]

theorem mapOfSizes_literal (value : Literal) : value.tree.mapOfSizes = [] := by
  have hnumber (text : String) : (numberTree text).mapOfSizes = [] := by
    unfold numberTree
    split <;> rfl
  cases value with
  | integer n => exact hnumber _
  | float x =>
    rw [Literal.tree]
    split
    · rfl
    split
    · rfl
    · exact hnumber _
  | _ => rfl

/-- One node adds at most one call of `Map.of` to those of its children. -/
theorem mapOfSizes_node (hown : e.isOfCall = false) : (e.tree α).mapOfSizes =
    e.mapOfSize?.toList ++ e.children.flatMap fun c => (c.tree α).mapOfSizes := by
  cases e with
  | literal value => exact mapOfSizes_literal value
  | send receiver name args =>
    have hname : name ≠ "of" := by simpa [isOfCall] using hown
    rw [tree, Tree.mapOfSizes_send hname, trees_eq]
    simp [mapOfSize?, children, List.flatMap_map]
  | create type args =>
    rw [tree, mapOfSizes_objectTree, trees_eq, mapOfSize?, children, List.flatMap_map,
      List.isEmpty_map, List.length_map]
    split <;> rfl
  | set elements =>
    simp only [tree, setTree, trees_eq, mapOfSize?, children]
    cases elements <;>
      simp [Tree.mapOfSizes, Tree.mapOfSizesAll_eq, mapOfSizes_asList, List.flatMap_map]
  | map entries =>
    rw [tree, mapOfSizes_mapTree, entryTrees_eq, mapOfSize?, children, List.flatMap_map,
      List.isEmpty_map, List.length_map, List.flatMap_assoc]
    congr 1
    · split <;> rfl
    · simp
  | tuple elements =>
    rw [tree, mapOfSizes_asList, trees_eq, List.flatMap_map]
    rfl
  | _ =>
    simp [tree, Tree.mapOfSizes, mapOfSize?, children, Tree.mapOfSizesAll_eq, trees_eq,
      List.flatMap_map]

theorem mapOfSizes_tree (hown : ∀ x ∈ e.subterms, x.isOfCall = false) :
    (e.tree α).mapOfSizes = e.subterms.filterMap mapOfSize? := by
  induction e using children_induction with
  | node e ih =>
    have hchildren : (e.children.flatMap fun c => (c.tree α).mapOfSizes) =
        e.children.flatMap fun c => c.subterms.filterMap mapOfSize? :=
      List.flatMap_congr fun c hc => ih c hc fun x hx => hown x (mem_subterms_of_mem_children hc hx)
    rw [mapOfSizes_node (hown e (self_mem_subterms e)), hchildren, subterms_eq, List.filterMap_cons,
      List.filterMap_flatMap]
    cases e.mapOfSize? <;> rfl

/-- Only an object of a map interface may be written with more arguments than `Map.of` takes. -/
theorem mapOfSize?_eq_some {n : Nat} (h : e.mapOfSize? = some n) : n ≤ 2 * mapOfLimit ∨
    ∃ type args, e = .create type args ∧ isMapInterface type = true ∧ n = args.length := by
  cases e with
  | map entries =>
    rw [mapOfSize?, Option.ite_none_left_eq_some] at h
    obtain ⟨hfits, ⟨⟩⟩ := h
    simp only [Bool.or_eq_true, decide_eq_true_eq, not_or] at hfits
    omega
  | create type args =>
    rw [mapOfSize?, Option.ite_none_right_eq_some, Bool.and_eq_true] at h
    obtain ⟨⟨hmap, -⟩, ⟨⟩⟩ := h
    exact .inr ⟨type, args, rfl, hmap, rfl⟩
  | _ => cases h

/-- The limit holds for what is written for an expression with no call of `of` of its own exactly if
every object of a map interface in it is made of at most as many arguments. -/
theorem mapOf_within_limit_iff (hplain : e.IsPlain) (hnames : e.IsWellNamed α)
    (hclear : e.IsClear α) (hown : ∀ x ∈ e.subterms, x.isOfCall = false) :
    ∃ text tree, e.render = .ok text ∧ read α text = some tree ∧
      tree.mapOfSizes = e.subterms.filterMap mapOfSize? ∧
      ((∀ n ∈ tree.mapOfSizes, n ≤ 2 * mapOfLimit) ↔ ∀ type args, .create type args ∈ e.subterms →
        isMapInterface type = true → args.length ≤ 2 * mapOfLimit) := by
  obtain ⟨⟨text, htext, hread⟩, -⟩ := read_render hplain hnames hclear
  refine ⟨text, e.tree α, htext, hread, mapOfSizes_tree hown, ?_⟩
  rw [mapOfSizes_tree hown]
  constructor
  · intro hlimit type args hmem hmap
    cases args with
    -- an object without arguments is made without `Map.of`
    | nil => exact Nat.zero_le _
    | cons first rest => exact hlimit _ (List.mem_filterMap.2 ⟨_, hmem, by simp [mapOfSize?, hmap]⟩)
  · intro hlimit n hn
    obtain ⟨x, hx, hsize⟩ := List.mem_filterMap.1 hn
    obtain hle | ⟨type, args, rfl, hmap, rfl⟩ := mapOfSize?_eq_some hsize
    · exact hle
    · exact hlimit type args hx hmap

/-- A map literal of eleven entries with a map of ten entries in it, and a map made of eleven
entries, which go into one call of `Map.of`. -/
theorem literal_within_limit_object_not :
    let literal : Expr := .map ((int 0, .map (List.replicate 10 (int 1, int 2))) ::
      List.replicate 10 (int 3, .create "Map<K, V>" [.var "k", .var "v"]))
    let object : Expr := .create "Map" (List.replicate 22 (int 0))
    (∃ text tree, literal.render = .ok text ∧ read .ascii text = some tree ∧
      tree.mapOfSizes = 20 :: List.replicate 10 2 ∧ ∀ n ∈ tree.mapOfSizes, n ≤ 2 * mapOfLimit) ∧
    ∃ text tree, object.render = .ok text ∧ read .ascii text = some tree ∧
      tree.mapOfSizes = [22] ∧ ¬ ∀ n ∈ tree.mapOfSizes, n ≤ 2 * mapOfLimit := by
  intro literal object
  refine ⟨?literal, ?object⟩
  case literal =>
    obtain ⟨text, tree, htext, htree, hsizes, -⟩ :=
      mapOf_within_limit_iff (α := .ascii) (e := literal) (by decide) (by decide +kernel)
        (by decide +kernel) (by decide)
    have hvalues : tree.mapOfSizes = 20 :: List.replicate 10 2 := hsizes.trans (by decide +kernel)
    exact ⟨text, tree, htext, htree, hvalues, by rw [hvalues]; decide⟩
  case object =>
    obtain ⟨text, tree, htext, htree, hsizes, -⟩ :=
      mapOf_within_limit_iff (α := .ascii) (e := object) (by decide) (by decide +kernel)
        (by decide +kernel) (by decide)
    have hvalues : tree.mapOfSizes = [22] := hsizes.trans (by decide +kernel)
    exact ⟨text, tree, htext, htree, hvalues, by rw [hvalues]; decide⟩

end Expr

end ContractTests
