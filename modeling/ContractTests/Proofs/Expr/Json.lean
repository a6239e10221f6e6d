import ContractTests.Expr.Json
import ContractTests.Proofs.Expr.Traversal
import ContractTests.Proofs.Json.Written

/-! # Conditions as JSON and back

`Expr.ofJson?_toJson`: the record of an expression decodes to the expression, whether it stands inside
another record or not. A float that is not finite has no form in JSON, so all of them have to be
finite. The numbers of the record are read from its text when the floats are
(`Expr.readable_toJson`).
-/

set_option autoImplicit false

namespace ContractTests

/-! ## Lists -/

namespace Json

theorem mapM_map_eq_some {α β : Type} {decode : β → Option α} {encode : α → β} {xs : List α}
    (h : ∀ x ∈ xs, decode (encode x) = some x) : (xs.map encode).mapM decode = some xs := by
  induction xs with
  | nil => rfl
  | cons x xs ih =>
    obtain ⟨hx, hxs⟩ := List.forall_mem_cons.1 h
    simp [hx, ih hxs]

theorem exists_of_mem_mapM {α β : Type} {decode : β → Option α} {js : List β} {xs : List α} {x : α}
    (h : js.mapM decode = some xs) (hx : x ∈ xs) : ∃ j ∈ js, decode j = some x := by
  induction js generalizing xs with
  | nil => cases h; cases hx
  | cons j js ih =>
    rw [List.mapM_cons] at h
    obtain ⟨first, hfirst, h⟩ := Option.bind_eq_some_iff.1 h
    obtain ⟨others, hothers, h⟩ := Option.bind_eq_some_iff.1 h
    cases h
    rcases List.mem_cons.1 hx with rfl | hx
    · exact ⟨j, List.mem_cons_self, hfirst⟩
    · obtain ⟨j', hj', hdecode⟩ := ih hothers hx
      exact ⟨j', List.mem_cons_of_mem _ hj', hdecode⟩

theorem list?_map {α : Type} {decode : Json → Option α} {encode : α → Json} {xs : List α}
    (h : ∀ x ∈ xs, decode (encode x) = some x) :
    list? decode (.array (xs.map encode)) = some xs :=
  mapM_map_eq_some h

theorem depthAll_le_iff {js : List Json} {depth : Nat} :
    depthAll js ≤ depth ↔ ∀ j ∈ js, j.depth ≤ depth := by
  induction js with
  | nil => simp [depthAll]
  | cons j js ih => rw [depthAll, Nat.max_le, ih, List.forall_mem_cons]

theorem depth_le_depthAll {j : Json} {js : List Json} (h : j ∈ js) : j.depth ≤ depthAll js :=
  depthAll_le_iff.1 (Nat.le_refl _) j h

/-- The tag of a record that has one, and the record without it. -/
theorem untag?_object {tag variant : String} {variants : List String}
    {members : List (String × Json)} (hvariant : variants.contains variant = true)
    (hmembers : ∀ m ∈ members, m.1 ≠ tag) (nested : Bool) :
    (object ((tag, .string variant) :: members)).untag? tag variants nested =
      some (variant, .object members) := by
  have htagged : members.filter (·.1 == tag) = [] := by
    simpa [List.filter_eq_nil_iff] using hmembers
  have hrest : members.filter (·.1 != tag) = members := by
    simpa [List.filter_eq_self] using hmembers
  have hvariant' : tagged? variants nested (.string variant) = some variant := if_pos hvariant
  simp [untag?, member?, htagged, hrest, hvariant']

end Json

/-! ## Literals and operators -/

def Literal.IsFinite : Literal → Prop
  | .float x => x.isFinite = true
  | _ => True

theorem Literal.ofJson?_toJson {value : Literal} (h : value.IsFinite) :
    Literal.ofJson? value.toJson = some value := by
  cases value with
  | integer n =>
    have hrange : -Nat.pow 2 63 ≤ n.toInt ∧ n.toInt < Nat.pow 2 63 := ⟨n.le_toInt, n.toInt_lt⟩
    simp only [toJson, ofJson?, if_pos hrange, Int64.ofInt_toInt]
  | float x =>
    have hx : x.isFinite = true := h
    simp only [toJson, hx, if_true, ofJson?]
  | _ => rfl

theorem BinaryOp.ofJson?_symbol (nested : Bool) (op : BinaryOp) :
    BinaryOp.ofJson? nested (.string op.symbol) = some op := by
  cases op <;> rfl

theorem UnaryOp.ofJson?_symbol (nested : Bool) (op : UnaryOp) :
    UnaryOp.ofJson? nested (.string op.symbol) = some op := by
  cases op <;> rfl

namespace Expr

/-! ## Records -/

theorem toJsonAll_eq (es : List Expr) : toJsonAll es = es.map toJson := by
  induction es with
  | nil => rfl
  | cons e es ih => rw [toJsonAll, ih, List.map_cons]

/-- The record of an entry. -/
def entryJson (p : Expr × Expr) : Json := .object [("key", toJson p.1), ("value", toJson p.2)]

theorem toJsonEntries_eq (es : List (Expr × Expr)) : toJsonEntries es = es.map entryJson := by
  induction es with
  | nil => rfl
  | cons p es ih => rw [toJsonEntries, ih, List.map_cons, entryJson]

section

variable {decode : Json → Option Expr}

theorem list?_toJsonAll {es : List Expr} (h : ∀ e ∈ es, decode e.toJson = some e) :
    Json.list? decode (.array (toJsonAll es)) = some es := by
  rw [toJsonAll_eq]
  exact Json.list?_map h

theorem list?_toJsonEntries {es : List (Expr × Expr)}
    (h : ∀ p ∈ es, decode p.1.toJson = some p.1 ∧ decode p.2.toJson = some p.2) :
    Json.list? (entryOf? decode) (.array (toJsonEntries es)) = some es := by
  rw [toJsonEntries_eq]
  refine Json.list?_map fun p hp => ?_
  obtain ⟨hkey, hvalue⟩ := h p hp
  simp [entryOf?, entryJson, Json.record?, Json.member?, hkey, hvalue]

theorem nullable?_toJson (e : Expr) :
    Json.nullable? decode e.toJson = (decode e.toJson).map some := by
  cases e <;> rfl

end

theorem Kind.ofName?_name (kind : Kind) : Kind.ofName? kind.name = some kind := by
  cases kind <;> rfl

theorem contains_name (kind : Kind) : (Kind.all.map Kind.name).contains kind.name = true := by
  cases kind <;> rfl

/-- A tagged record is decoded by its fields. -/
theorem ofJsonWithin?_tagged {kind : Kind} {members : List (String × Json)} (depth : Nat)
    (nested : Bool) (hmembers : ∀ m ∈ members, m.1 ≠ "kind") :
    ofJsonWithin? (depth + 1) nested (tagged kind members) =
      ((Json.object members).record? (fieldNames kind)).bind
        (ofFields? (ofJsonWithin? depth true) kind) := by
  simp only [ofJsonWithin?, tagged, Json.untag?_object (contains_name kind) hmembers,
    Option.bind_eq_bind, Option.bind_some, Kind.ofName?_name]
  cases kind <;> rfl

/-- The record of a node decodes to the node when those of its children decode to the children. -/
theorem ofJsonWithin?_node {e : Expr} {depth : Nat}
    (hfinite : ∀ value, e = .literal value → value.IsFinite)
    (h : ∀ c ∈ e.children, ofJsonWithin? depth true c.toJson = some c) (nested : Bool) :
    ofJsonWithin? (depth + 1) nested e.toJson = some e := by
  cases e with
  | literal value =>
    refine (ofJsonWithin?_tagged depth nested (by simp)).trans ?_
    simp [Json.record?, Json.member?, fieldNames, ofFields?, Literal.ofJson?_toJson (hfinite _ rfl)]
  | var name =>
    refine (ofJsonWithin?_tagged depth nested (by simp)).trans ?_
    simp [Json.record?, Json.member?, fieldNames, ofFields?, Json.string?]
  | postState name =>
    refine (ofJsonWithin?_tagged depth nested (by simp)).trans ?_
    simp [Json.record?, Json.member?, fieldNames, ofFields?, Json.string?]
  | binary op left right =>
    refine (ofJsonWithin?_tagged depth nested (by simp)).trans ?_
    simp only [children, List.forall_mem_cons] at h
    simp [Json.record?, Json.member?, fieldNames, ofFields?, BinaryOp.ofJson?_symbol, h]
  | unary op operand =>
    refine (ofJsonWithin?_tagged depth nested (by simp)).trans ?_
    simp only [children, List.forall_mem_cons] at h
    simp [Json.record?, Json.member?, fieldNames, ofFields?, UnaryOp.ofJson?_symbol, h]
  | field scope name =>
    refine (ofJsonWithin?_tagged depth nested (by simp)).trans ?_
    simp only [children, List.forall_mem_cons] at h
    simp [Json.record?, Json.member?, fieldNames, ofFields?, Json.string?, h]
  | index base position =>
    refine (ofJsonWithin?_tagged depth nested (by simp)).trans ?_
    simp only [children, List.forall_mem_cons] at h
    simp [Json.record?, Json.member?, fieldNames, ofFields?, h]
  | call name args =>
    refine (ofJsonWithin?_tagged depth nested (by simp)).trans ?_
    have hargs := @list?_toJsonAll _ args h
    simp [Json.record?, Json.member?, fieldNames, ofFields?, Json.string?, Json.field?, hargs]
  | send receiver name args =>
    refine (ofJsonWithin?_tagged depth nested (by simp)).trans ?_
    obtain ⟨hreceiver, hargs⟩ := List.forall_mem_cons.1 h
    have hargs := list?_toJsonAll hargs
    simp [Json.record?, Json.member?, fieldNames, ofFields?, Json.string?, Json.field?, hargs,
      nullable?_toJson, hreceiver]
  | create type args =>
    refine (ofJsonWithin?_tagged depth nested (by simp)).trans ?_
    have hargs := @list?_toJsonAll _ args h
    simp [Json.record?, Json.member?, fieldNames, ofFields?, Json.string?, Json.field?, hargs]
  | set elements =>
    refine (ofJsonWithin?_tagged depth nested (by simp)).trans ?_
    have helements := @list?_toJsonAll _ elements h
    simp [Json.record?, Json.member?, fieldNames, ofFields?, collectionOf?, Json.untag?,
      Json.tagged?, helements]
  | map entries =>
    refine (ofJsonWithin?_tagged depth nested (by simp)).trans ?_
    have hentries : ∀ p ∈ entries, ofJsonWithin? depth true p.1.toJson = some p.1 ∧
        ofJsonWithin? depth true p.2.toJson = some p.2 := fun p hp =>
      ⟨h p.1 (List.mem_flatMap.2 ⟨p, hp, by simp⟩), h p.2 (List.mem_flatMap.2 ⟨p, hp, by simp⟩)⟩
    have hentries := list?_toJsonEntries hentries
    simp [Json.record?, Json.member?, fieldNames, ofFields?, collectionOf?, Json.untag?,
      Json.tagged?, hentries]
  | tuple elements =>
    refine (ofJsonWithin?_tagged depth nested (by simp)).trans ?_
    have helements := @list?_toJsonAll _ elements h
    simp [Json.record?, Json.member?, fieldNames, ofFields?, collectionOf?, Json.untag?,
      Json.tagged?, helements]
  | conditional condition yes no =>
    refine (ofJsonWithin?_tagged depth nested (by simp)).trans ?_
    simp only [children, List.forall_mem_cons] at h
    simp [Json.record?, Json.member?, fieldNames, ofFields?, h]
  | cast type operand =>
    refine (ofJsonWithin?_tagged depth nested (by simp)).trans ?_
    simp only [children, List.forall_mem_cons] at h
    simp [Json.record?, Json.member?, fieldNames, ofFields?, Json.string?, h]
  | self => exact ofJsonWithin?_tagged depth nested (by simp)

theorem depth_toJson_le {c : Expr} {es : List Expr} (hc : c ∈ es) :
    c.toJson.depth ≤ Json.depthAll (toJsonAll es) := by
  rw [toJsonAll_eq]
  exact Json.depth_le_depthAll (List.mem_map_of_mem hc)

theorem depth_entryJson_le {p : Expr × Expr} {es : List (Expr × Expr)} (hp : p ∈ es) :
    (entryJson p).depth ≤ Json.depthAll (toJsonEntries es) := by
  rw [toJsonEntries_eq]
  exact Json.depth_le_depthAll (List.mem_map_of_mem hp)

/-- The record of a node is deeper than those of its children. -/
theorem depth_toJson_of_mem_children {c e : Expr} (hc : c ∈ e.children) :
    c.toJson.depth < e.toJson.depth := by
  cases e with
  | literal _ | var _ | postState _ | self => cases hc
  | call name args =>
    have := depth_toJson_le hc
    simp only [children, toJson, tagged, Json.depth, Json.depthMembers] at this ⊢
    omega
  | send receiver name args =>
    simp only [toJson, tagged, Json.depth, Json.depthMembers]
    rcases List.mem_cons.1 hc with rfl | hc
    · omega
    · have := depth_toJson_le hc
      omega
  | create type args =>
    have := depth_toJson_le hc
    simp only [children, toJson, tagged, Json.depth, Json.depthMembers] at this ⊢
    omega
  | set elements =>
    have := depth_toJson_le hc
    simp only [children, toJson, collection, tagged, Json.depth, Json.depthMembers] at this ⊢
    omega
  | tuple elements =>
    have := depth_toJson_le hc
    simp only [children, toJson, collection, tagged, Json.depth, Json.depthMembers] at this ⊢
    omega
  | map entries =>
    obtain ⟨p, hp, hc⟩ := List.mem_flatMap.1 hc
    have hentry := depth_entryJson_le hp
    simp only [entryJson, toJson, collection, tagged, Json.depth, Json.depthMembers] at hentry ⊢
    have hcases : c = p.1 ∨ c = p.2 := by simpa using hc
    rcases hcases with rfl | rfl <;> omega
  | _ =>
    simp only [children, List.mem_cons, List.not_mem_nil, or_false] at hc
    simp only [toJson, tagged, Json.depth, Json.depthMembers]
    grind

theorem depth_toJson_pos (e : Expr) : 0 < e.toJson.depth := by
  cases e <;> exact Nat.succ_pos _

/-- Joined from the left, every further part adds a level. -/
theorem add_length_le_depth_foldl (op : BinaryOp) (e : Expr) (rest : List Expr) :
    e.toJson.depth + rest.length ≤ (rest.foldl (binary op) e).toJson.depth := by
  induction rest generalizing e with
  | nil => exact Nat.le_refl _
  | cons next rest ih =>
    have hstep : e.toJson.depth < (binary op e next).toJson.depth :=
      depth_toJson_of_mem_children List.mem_cons_self
    have hrest := ih (binary op e next)
    rw [List.foldl_cons, List.length_cons]
    omega

theorem ofJsonWithin?_toJson {e : Expr} {depth : Nat} (hdepth : e.toJson.depth ≤ depth)
    (hfinite : ∀ value, .literal value ∈ e.subterms → value.IsFinite) (nested : Bool) :
    ofJsonWithin? depth nested e.toJson = some e := by
  induction e using children_induction generalizing depth nested with
  | node e ih =>
    cases depth with
    | zero =>
      have hpos := e.depth_toJson_pos
      omega
    | succ depth =>
      refine ofJsonWithin?_node (fun value he => hfinite value ?_) (fun c hc => ?_) nested
      · rw [he]
        exact self_mem_subterms _
      · have hlt := depth_toJson_of_mem_children hc
        refine ih c hc (by omega) (fun value hvalue => hfinite value ?_) true
        exact mem_subterms_of_mem_children hc hvalue

/-- The record of an expression decodes to the expression. -/
theorem ofJson?_toJson {e : Expr} (hfinite : ∀ value, .literal value ∈ e.subterms → value.IsFinite)
    (nested : Bool) : ofJson? nested e.toJson = some e :=
  ofJsonWithin?_toJson (Nat.le_refl _) hfinite nested

/-! ## Properties of the record -/

section

variable {P : Json → Prop}

theorem toJson_ofParts_node {e : Expr} (hP : Json.OfParts P)
    (hliteral : ∀ value, e = .literal value → P value.toJson) (h : ∀ c ∈ e.children, P c.toJson) :
    P e.toJson := by
  have hrecord {kind : Kind} {members : List (String × Json)} (hmembers : ∀ m ∈ members, P m.2) :
      P (tagged kind members) :=
    hP.object (List.forall_mem_cons.2 ⟨hP.string _, hmembers⟩)
  have hcollection {form : String} {members : List (String × Json)}
      (hmembers : ∀ m ∈ members, P m.2) : P (collection form members) :=
    hrecord (List.forall_mem_singleton.2
      (hP.object (List.forall_mem_cons.2 ⟨hP.string _, hmembers⟩)))
  have hargs {es : List Expr} (hes : ∀ c ∈ es, P c.toJson) : P (.array (toJsonAll es)) := by
    rw [toJsonAll_eq]
    exact hP.array (List.forall_mem_map.2 hes)
  cases e with
  | literal value => exact hrecord (by simpa using hliteral value rfl)
  | var _ | postState _ | self => exact hrecord (by simp [hP.string])
  | binary _ left right | unary _ operand | field scope _ | index base position | cast _ operand =>
    exact hrecord (by simpa [children, hP.string] using h)
  | conditional condition yes no => exact hrecord (by simpa [children] using h)
  | call _ args | create _ args =>
    have harray := @hargs args h
    exact hrecord (by simpa [hP.string] using harray)
  | send receiver _ args =>
    obtain ⟨hreceiver, hrest⟩ := List.forall_mem_cons.1 h
    exact hrecord (by simpa [hP.string, hreceiver] using hargs hrest)
  | set elements | tuple elements =>
    have harray := @hargs elements h
    exact hcollection (by simpa using harray)
  | map entries =>
    refine hcollection (List.forall_mem_singleton.2 ?_)
    dsimp only
    rw [toJsonEntries_eq]
    refine hP.array (List.forall_mem_map.2 fun p hp => hP.object ?_)
    have hentry := fun c hc => h c (List.mem_flatMap.2 ⟨p, hp, hc⟩)
    simpa using hentry

/-- What holds of the records of the literals holds of the record of the expression. -/
theorem toJson_ofParts {e : Expr} (hP : Json.OfParts P)
    (hliteral : ∀ value, .literal value ∈ e.subterms → P value.toJson) : P e.toJson := by
  induction e using children_induction with
  | node e ih =>
    refine toJson_ofParts_node hP (fun value he => hliteral value ?_)
      fun c hc => ih c hc fun value hvalue => hliteral value ?_
    · rw [he]
      exact self_mem_subterms _
    · exact mem_subterms_of_mem_children hc hvalue

end

end Expr

/-! ## Numbers -/

theorem Json.ReadsBack.isFinite {x : Double} (h : Json.ReadsBack x) : x.isFinite = true := by
  cases hx : x.isFinite with
  | true => rfl
  | false =>
    have htext : (Json.doubleText x).toList = ['n', 'u', 'l', 'l'] := by
      simp only [Json.doubleText, hx, Bool.not_false, if_true]
      rfl
    rw [Json.ReadsBack, htext] at h
    cases h

theorem Literal.readable_toJson {value : Literal} (h : ∀ x, value = .float x → Json.ReadsBack x) :
    value.toJson.Readable := by
  cases value with
  | integer n =>
    have hlow := n.le_toInt
    have hhigh := n.toInt_lt
    exact .integer hlow (Int.lt_trans hhigh (by decide))
  | float x =>
    simp only [toJson]
    split
    · exact .double (h x rfl)
    · exact .null
  | boolean b => exact .bool b
  | string s => exact .string s
  | null => exact .null

namespace Expr

/-- The floats of an expression are read from their texts. -/
def FloatsReadBack (e : Expr) : Prop :=
  ∀ x, .literal (.float x) ∈ e.subterms → Json.ReadsBack x

theorem FloatsReadBack.isFinite {e : Expr} (h : e.FloatsReadBack) :
    ∀ value, .literal value ∈ e.subterms → value.IsFinite := by
  intro value hvalue
  cases value with
  | float x => exact (h x hvalue).isFinite
  | _ => trivial

/-- The text of an expression is read. -/
theorem FloatsReadBack.readable_toJson {e : Expr} (h : e.FloatsReadBack) : e.toJson.Readable :=
  toJson_ofParts Json.ofParts_readable fun _ hvalue =>
    Literal.readable_toJson fun x hx => h x (hx ▸ hvalue)

end Expr

end ContractTests
