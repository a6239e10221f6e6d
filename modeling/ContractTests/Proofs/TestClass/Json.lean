import ContractTests.Proofs.Expr.Json
import ContractTests.Proofs.Json.Distinct
import ContractTests.Proofs.Sharing.Rounds
import ContractTests.TestClass.Json

/-! # Test classes as JSON and back

The record of a class decodes to the class when its float literals are finite
(`TestClass.IsFinite.ofJson?_toJson`). Finite values have texts of their own, and so no other such
class is saved to the same text (`TestClass.IsFinite.decoded_and_distinct`).
-/

set_option autoImplicit false

namespace ContractTests

/-! ## Finite records -/

theorem Json.ofParts_finite : Json.OfParts Json.Finite := ⟨.string, .array, .object⟩

/-- A literal without a form in JSON is written as `null`. -/
theorem Literal.finite_toJson (value : Literal) : value.toJson.Finite := by
  cases value with
  | integer n => exact .integer _
  | float x =>
    rw [toJson]
    split
    · rename_i hx
      exact .double hx
    · exact .null
  | boolean b => exact .bool b
  | string s => exact .string s
  | null => exact .null

theorem Expr.finite_toJson (e : Expr) : e.toJson.Finite :=
  Expr.toJson_ofParts Json.ofParts_finite fun value _ => value.finite_toJson

namespace Stmt

/-! ## Statements -/

theorem toJsonAll_eq (body : List Stmt) : toJsonAll body = body.map toJson := by
  induction body with
  | nil => rfl
  | cons s body ih => rw [toJsonAll, ih, List.map_cons]

/-- The expressions of the statement itself have finite floats only. -/
def HasFiniteFloats (s : Stmt) : Prop :=
  ∀ e ∈ s.expression?, ∀ value, .literal value ∈ e.subterms → value.IsFinite

/-- A tagged record is decoded by its fields. -/
theorem ofJsonWithin?_tagged {variant : String} {names : List String}
    {members : List (String × Json)} (depth : Nat) (nested : Bool)
    (hnames : variants.lookup variant = some names) (hmembers : ∀ m ∈ members, m.1 ≠ "stmt") :
    ofJsonWithin? (depth + 1) nested (tagged variant members) =
      ((Json.object members).record? names).bind
        (ofFields? (ofJsonWithin? depth true) variant) := by
  have hvariant : (variants.map (·.1)).contains variant = true := by
    obtain ⟨_, _, hsplit, -⟩ := List.lookup_eq_some_iff.1 hnames
    simp [hsplit]
  simp only [ofJsonWithin?, tagged, Json.untag?_object hvariant hmembers, Option.bind_eq_bind,
    Option.bind_some, hnames]

/-- The record of a statement decodes to the statement when those of its block decode to the
block. -/
theorem ofJsonWithin?_node {s : Stmt} {depth : Nat} (hfinite : s.HasFiniteFloats)
    (h : ∀ t ∈ s.block, ofJsonWithin? depth true t.toJson = some t) (nested : Bool) :
    ofJsonWithin? (depth + 1) nested s.toJson = some s := by
  have hexpression {e : Expr} (he : s.expression? = some e) :
      Expr.ofJson? true e.toJson = some e := Expr.ofJson?_toJson (hfinite e he) true
  cases s with
  | input type name =>
    refine (ofJsonWithin?_tagged depth nested rfl (by simp)).trans ?_
    simp [Json.record?, Json.member?, ofFields?, Json.string?]
  | declare type name init =>
    refine (ofJsonWithin?_tagged depth nested rfl (by simp)).trans ?_
    simp [Json.record?, Json.member?, ofFields?, Json.string?, hexpression rfl]
  | assign target value =>
    refine (ofJsonWithin?_tagged depth nested rfl (by simp)).trans ?_
    simp [Json.record?, Json.member?, ofFields?, Json.string?, hexpression rfl]
  | assume condition =>
    refine (ofJsonWithin?_tagged depth nested rfl (by simp)).trans ?_
    simp [Json.record?, Json.member?, ofFields?, hexpression rfl]
  | assert condition =>
    refine (ofJsonWithin?_tagged depth nested rfl (by simp)).trans ?_
    simp [Json.record?, Json.member?, ofFields?, hexpression rfl]
  | perform call =>
    refine (ofJsonWithin?_tagged depth nested rfl (by simp)).trans ?_
    simp [Json.record?, Json.member?, ofFields?, hexpression rfl]
  | whenever condition body returns =>
    refine (ofJsonWithin?_tagged depth nested rfl (by simp)).trans ?_
    have hbody : Json.list? (ofJsonWithin? depth true) (.array (toJsonAll body)) = some body := by
      rw [toJsonAll_eq]
      exact Json.list?_map h
    simp [Json.record?, Json.member?, ofFields?, Json.bool?, hexpression rfl, hbody]

theorem depth_toJson_of_mem_block {s t : Stmt} (ht : t ∈ s.block) :
    t.toJson.depth < s.toJson.depth := by
  cases s with
  | whenever condition body returns =>
    have hbody : t.toJson.depth ≤ Json.depthAll (toJsonAll body) := by
      rw [toJsonAll_eq]
      exact Json.depth_le_depthAll (List.mem_map_of_mem ht)
    simp only [toJson, tagged, Json.depth, Json.depthMembers]
    omega
  | _ => cases ht

theorem depth_toJson_pos (s : Stmt) : 0 < s.toJson.depth := by
  cases s <;> exact Nat.succ_pos _

theorem ofJsonWithin?_toJson {s : Stmt} {depth : Nat} (hdepth : s.toJson.depth ≤ depth)
    (hfinite : s.Throughout HasFiniteFloats) (nested : Bool) :
    ofJsonWithin? depth nested s.toJson = some s := by
  induction depth generalizing s nested with
  | zero =>
    have hpos := s.depth_toJson_pos
    omega
  | succ depth ih =>
    obtain ⟨hs, hblock⟩ := (throughout_iff s).1 hfinite
    refine ofJsonWithin?_node hs (fun t ht => ih ?_ ?_ true) nested
    · have hlt := depth_toJson_of_mem_block ht
      omega
    · exact (everywhere_eq s.block).1 hblock t ht

/-- The records of a block decode to the block. -/
theorem list?_toJsonAll {body : List Stmt} (h : Everywhere HasFiniteFloats body) :
    Json.list? ofJson? (.array (toJsonAll body)) = some body := by
  rw [toJsonAll_eq]
  exact Json.list?_map fun s hs =>
    ofJsonWithin?_toJson (Nat.le_refl _) ((everywhere_eq body).1 h s hs) false

theorem finite_toJson_node {s : Stmt} (h : ∀ t ∈ s.block, t.toJson.Finite) : s.toJson.Finite := by
  have hstring := Json.Finite.string
  have hexpression := Expr.finite_toJson
  have hrecord {variant : String} {members : List (String × Json)}
      (hmembers : ∀ m ∈ members, m.2.Finite) : (tagged variant members).Finite :=
    .object (List.forall_mem_cons.2 ⟨hstring _, hmembers⟩)
  cases s with
  | whenever condition body returns =>
    have hbody : (Json.array (toJsonAll body)).Finite := by
      rw [toJsonAll_eq]
      exact .array (List.forall_mem_map.2 h)
    exact hrecord (by simp [hexpression, hbody, Json.Finite.bool])
  | _ => exact hrecord (by simp [hstring, hexpression])

/-- Whatever the floats of a statement are, its record is finite. -/
theorem finite_toJson (s : Stmt) : s.toJson.Finite :=
  finite_toJson_node fun t _ => finite_toJson t
termination_by s.toJson.depth
decreasing_by exact depth_toJson_of_mem_block ‹_›

theorem finite_toJsonAll (body : List Stmt) : (Json.array (toJsonAll body)).Finite := by
  rw [toJsonAll_eq]
  exact .array (List.forall_mem_map.2 fun s _ => s.finite_toJson)

end Stmt

/-! ## Methods and classes -/

theorem TestMethod.ofJson?_toJson {m : TestMethod}
    (h : Stmt.Everywhere Stmt.HasFiniteFloats m.body) : ofJson? m.toJson = some m := by
  simp [ofJson?, toJson, Json.record?, Json.member?, Json.string?, Stmt.list?_toJsonAll h]

theorem TestMethod.finite_toJson (m : TestMethod) : m.toJson.Finite :=
  .object (by simp [Json.Finite.string, Stmt.finite_toJsonAll])

namespace TestClass

variable {c : TestClass}

theorem finite_toJson (c : TestClass) : c.toJson.Finite := by
  have himports : (Json.array (c.imports.map Json.string)).Finite :=
    .array (List.forall_mem_map.2 fun _ _ => .string _)
  have hmethods : (Json.array (c.methods.map TestMethod.toJson)).Finite :=
    .array (List.forall_mem_map.2 fun m _ => m.finite_toJson)
  exact .object (by simp [Json.Finite.string, himports, hmethods, Stmt.finite_toJsonAll])

/-- The float literals of the class are finite. -/
structure IsFinite (c : TestClass) : Prop where
  methods : ∀ m ∈ c.methods, Stmt.Everywhere Stmt.HasFiniteFloats m.body
  main : Stmt.Everywhere Stmt.HasFiniteFloats c.main

/-- The record of a class decodes to the class. -/
theorem IsFinite.ofJson?_toJson (h : c.IsFinite) : ofJson? c.toJson = some c := by
  have himports : Json.list? Json.string? (.array (c.imports.map Json.string)) = some c.imports :=
    Json.list?_map fun _ _ => rfl
  have hmethods : Json.list? TestMethod.ofJson? (.array (c.methods.map TestMethod.toJson)) =
      some c.methods := Json.list?_map fun m hm => TestMethod.ofJson?_toJson (h.methods m hm)
  simp [ofJson?, toJson, Json.record?, Json.member?, Json.string?, himports, hmethods,
    Stmt.list?_toJsonAll h.main]

/-- A class is decoded from its record, and no other class has its text. -/
theorem IsFinite.decoded_and_distinct (h : c.IsFinite) :
    ofJson? c.toJson = some c ∧ ∀ c' : TestClass, c'.IsFinite → c'.save = c.save → c' = c := by
  refine ⟨h.ofJson?_toJson, fun c' h' hsave => ?_⟩
  have hrecords : c'.toJson = c.toJson := c'.finite_toJson.eq_of_pretty c.finite_toJson hsave
  have hdecoded := h'.ofJson?_toJson
  rw [hrecords, h.ofJson?_toJson] at hdecoded
  exact (Option.some.inj hdecoded).symm

/-- Statements and literals of every kind, among them `0.1` and `-0.0`, and calls with and without a
receiver. -/
def gauge : TestClass where
  package := "demo"
  name := "GaugeTest"
  imports := ["java.util.*"]
  methods :=
    [⟨"level_helper",
      [.input "double" "x",
        .declare "double[]" "x_box" (.create "double[]" [.var "x"]),
        .assume (.binary .greater (.var "x") (.literal (.float ⟨0x3fb999999999999a⟩))),
        .whenever (.binary .notEqual (.var "x_box") (.literal .null))
          [.assign "x" (.cast "double" (.index (.var "x_box") (.int 0)))] true,
        .perform (.call "print" [.literal (.string "x"), .unary .negate (.field .self "x")]),
        .assert (.conditional (.literal (.boolean true))
          (.binary .equal (.send (.var "levels") "get" []) (.map [(.postState "x", .tuple [])]))
          (.binary .less (.set [.var "x"]) (.literal (.float ⟨0x8000000000000000⟩))))]⟩]
  main := [.perform (.send (.var "instance") "level_helper" [])]

theorem gauge_decoded_and_distinct :
    gauge.IsFinite ∧ ofJson? gauge.toJson = some gauge ∧
      ∀ c' : TestClass, c'.IsFinite → c'.save = gauge.save → c' = gauge := by
  have hfloats : (⟨0x3fb999999999999a⟩ : Double).isFinite = true ∧
      (⟨0x8000000000000000⟩ : Double).isFinite = true := by decide
  have hfinite : gauge.IsFinite := by
    constructor <;>
      simp [gauge, Stmt.Everywhere, Stmt.nestedAll, Stmt.nested, Stmt.HasFiniteFloats,
        Stmt.expression?, Expr.subterms, Expr.subtermsAll, Expr.subtermsEntries, Expr.int,
        or_imp, forall_and, Literal.IsFinite, hfloats]
  exact ⟨hfinite, hfinite.decoded_and_distinct⟩

end TestClass

end ContractTests
