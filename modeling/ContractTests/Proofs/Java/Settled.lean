import ContractTests.Proofs.Decimal.Shortest
import ContractTests.Proofs.Java.Declaration
import ContractTests.Proofs.Java.Plain

/-! # Settled expressions

An expression is settled for a name if the names and types in it have no parentheses and quotes, as
identifiers and type names have none, and none of its string literals looks like a call of the name.
Its Java text is settled then (`Expr.IsSettled.render`): calls of the name in it are no
declarations.
-/

set_option autoImplicit false

namespace ContractTests

open Java

/-! ## Bare texts -/

namespace Java

theorem IsBare.of_subset {s : String} (h : IsBare s) {cs : List Char} (hcs : cs ⊆ s.toList) :
    IsBare (String.ofList cs) := fun c hc => by
  rw [String.toList_ofList] at hc
  exact h c (hcs hc)

theorem isBareChar_of_isDigit {c : Char} (h : c.isDigit = true) : isBareChar c = true := by
  simp only [isBareChar, isQuote, Bool.and_eq_true, Bool.not_eq_true', Bool.or_eq_false_iff,
    bne_iff_ne, beq_eq_false_iff_ne]
  refine ⟨⟨⟨?_, ?_⟩, ?_⟩, ?_⟩ <;> rintro rfl <;> exact absurd h (by decide)

theorem isBareChar_of_mem_decimalDigits {n : Nat} {c : Char} (hc : c ∈ decimalDigits n) :
    isBareChar c = true :=
  isBareChar_of_isDigit (Nat.isDigit_of_mem_toDigits (by decide) (by decide) hc)

theorem isBare_natText (n : Nat) : IsBare (natText n) := fun c hc => by
  rw [natText, String.toList_ofList] at hc
  exact isBareChar_of_mem_decimalDigits hc

theorem isBare_intText (n : Int) : IsBare (intText n) := fun c hc => by
  rw [intText, String.toList_ofList, List.mem_append] at hc
  rcases hc with hc | hc
  · split at hc
    · obtain rfl := List.mem_singleton.1 hc
      decide
    · cases hc
  · exact isBareChar_of_mem_decimalDigits hc

end Java

theorem Double.isBare_plain {x : Double} (hx : x.isFinite = true) : IsBare x.plain := by
  obtain ⟨whole, fraction, hplain, -, hdigits⟩ := exists_plain hx
  rw [List.forall_mem_append] at hdigits
  intro c hc
  rw [hplain, List.mem_append, List.mem_append, List.mem_cons] at hc
  rcases hc with hc | hc | rfl | hc
  · unfold sign at hc
    split at hc
    · obtain rfl := List.mem_singleton.1 hc
      decide
    · cases hc
  · exact isBareChar_of_isDigit (hdigits.1 c hc)
  · decide
  · exact isBareChar_of_isDigit (hdigits.2 c hc)

/-! ## Types -/

namespace JavaType

theorem trimEnd_subset (cs : List Char) : Text.trimEnd cs ⊆ cs := fun _ hc =>
  List.mem_reverse.1 ((List.dropWhile_sublist _).subset (List.mem_reverse.1 hc))

theorem baseChars_subset (type : List Char) : baseChars type ⊆ type := by
  have hraw : Text.trimEnd ((Text.trim type).takeWhile (· != '<')) ⊆ type := fun c hc => by
    have htrim := (List.takeWhile_sublist _).subset (trimEnd_subset _ hc)
    exact (List.dropWhile_sublist _).subset (trimEnd_subset _ htrim)
  unfold baseChars
  dsimp only
  split
  · exact List.Subset.trans (List.drop_subset _ _) hraw
  · exact hraw

theorem trim_subset (cs : List Char) : Text.trim cs ⊆ cs := fun _ hc =>
  (List.dropWhile_sublist _).subset (trimEnd_subset _ hc)

theorem isBare_trimmed {type : String} (h : IsBare type) : IsBare (Text.trimmed type) :=
  h.of_subset (trim_subset _)

theorem isBare_base {type : String} (h : IsBare type) : IsBare (base type) :=
  h.of_subset (baseChars_subset _)

theorem isBare_implementation {type : String} (h : IsBare type) :
    IsBare (implementation type) := by
  have hbase := isBare_base h
  unfold implementation
  generalize base type = name at hbase
  split <;> first | decide | exact hbase

theorem isBare_genericArguments {type arguments : String} (h : IsBare type)
    (harguments : genericArguments? type = some arguments) : IsBare arguments := by
  have hsubset : type.toList.dropWhile (· != '<') ⊆ type.toList :=
    (List.dropWhile_sublist _).subset
  unfold genericArguments? at harguments
  split at harguments
  · cases harguments
  · cases harguments
    exact h.of_subset hsubset

end JavaType

namespace Java

variable {name : List Char}

/-! ## Objects and collections -/

theorem Settled.of_toList_eq {s t : String} (h : Settled name s) (heq : t.toList = s.toList) :
    Settled name t :=
  String.toList_inj.1 heq ▸ h

theorem settled_commaSeparated (hname : IsName name) {texts : List String}
    (h : ∀ t ∈ texts, Settled name t) : Settled name (commaSeparated texts) := by
  unfold commaSeparated
  have hcomma : IsSeparator ", " := ⟨by decide, ',', [' '], by decide, by decide⟩
  induction texts with
  | nil => exact settled_of_isBare hname (by decide)
  | cons first rest ih =>
    obtain ⟨hfirst, hrest⟩ := List.forall_mem_cons.1 h
    cases rest with
    | nil => rwa [String.intercalate_singleton]
    | cons second rest =>
      rw [String.intercalate_cons_cons]
      exact .separated hname hcomma hfirst (ih hrest)

/-- A text with a sign after it. -/
theorem Settled.closed (hname : IsName name) {text close : String} (hclose : IsSeparator close)
    (h : Settled name text) : Settled name (text ++ close) :=
  (h.separated hname hclose (settled_empty hname)).of_toList_eq
    (by simp)

/-- A call of a bare name with settled arguments. -/
theorem settled_call (hname : IsName name) {texts : List String}
    (h : ∀ t ∈ texts, Settled name t) (head : String) (hhead : IsBare head) :
    Settled name (head ++ "(" ++ commaSeparated texts ++ ")") :=
  (settled_commaSeparated hname h).list hname head hhead

theorem settled_newObject (hname : IsName name) {type : String} (htype : IsBare type)
    {texts : List String} (h : ∀ t ∈ texts, Settled name t) :
    Settled name (newObject type texts) := by
  have hnew (t : String) (ht : IsBare t) : IsBare ("new " ++ t) :=
    isBare_append.2 ⟨by decide, ht⟩
  unfold newObject
  split
  · rename_i element helement
    have hsubset : element ⊆ type.toList := by
      unfold Text.stripEnd? at helement
      split at helement
      · cases helement
        exact List.take_subset _ _
      · cases helement
    have hopen : IsSeparator "[]\x7b" := ⟨by decide, '[', [']', '\x7b'], by decide, by decide⟩
    have hclose : IsSeparator "\x7d" := ⟨by decide, '\x7d', [], by decide, by decide⟩
    have helements := (settled_commaSeparated hname h).closed hname hclose
    refine (Settled.separated hname hopen
      (settled_of_isBare hname (hnew _ (htype.of_subset hsubset))) helements).of_toList_eq ?_
    simp
  · split
    · exact settled_call hname h _ (hnew type htype)
    · have htarget : IsBare (JavaType.implementation type ++
          (JavaType.genericArguments? type).getD "<>") := by
        refine isBare_append.2 ⟨JavaType.isBare_implementation htype, ?_⟩
        cases harguments : JavaType.genericArguments? type with
        | none => decide
        | some arguments => exact JavaType.isBare_genericArguments htype harguments
      dsimp only
      split
      · refine ((settled_empty hname).list hname _ (hnew _ htarget)).of_toList_eq ?_
        simp
      · split
        · have hcontents := settled_call hname h "Map.of" (by decide)
          exact (hcontents.list hname _ (hnew _ htarget)).of_toList_eq (by simp)
        · have hcontents := settled_call hname h "Arrays.asList" (by decide)
          exact (hcontents.list hname _ (hnew _ htarget)).of_toList_eq (by simp)

theorem settled_newTuple (hname : IsName name) {texts : List String}
    (h : ∀ t ∈ texts, Settled name t) : Settled name (newTuple texts) :=
  settled_call hname h "Arrays.asList" (by decide)

theorem settled_newSet (hname : IsName name) {texts : List String}
    (h : ∀ t ∈ texts, Settled name t) : Settled name (newSet texts) := by
  unfold newSet
  split
  · exact ((settled_empty hname).list hname "new HashSet<>" (by decide)).of_toList_eq (by simp)
  · have hcontents := settled_newTuple hname h
    exact (hcontents.list hname "new HashSet<>" (by decide)).of_toList_eq (by simp [newTuple])

theorem settled_newMap (hname : IsName name) {entries : List (String × String)}
    (h : ∀ p ∈ entries, Settled name p.1 ∧ Settled name p.2) : Settled name (newMap entries) := by
  have hcomma : IsSeparator ", " := ⟨by decide, ',', [' '], by decide, by decide⟩
  have hpairs : ∀ pair ∈ entries.map fun entry => entry.1 ++ ", " ++ entry.2,
      Settled name pair :=
    List.forall_mem_map.2 fun entry hentry =>
      .separated hname hcomma (h entry hentry).1 (h entry hentry).2
  unfold newMap
  dsimp only
  split
  · exact ((settled_empty hname).list hname "new HashMap<>" (by decide)).of_toList_eq (by simp)
  · split
    · exact (settled_call hname hpairs "Map.of" (by decide)).of_toList_eq (by simp)
    · have hentries : ∀ text ∈ (entries.map fun entry => entry.1 ++ ", " ++ entry.2).map
          fun pair => "Map.entry(" ++ pair ++ ")", Settled name text :=
        List.forall_mem_map.2 fun pair hpair =>
          ((hpairs pair hpair).list hname "Map.entry" (by decide)).of_toList_eq (by simp)
      exact (settled_call hname hentries "Map.ofEntries" (by decide)).of_toList_eq (by simp)

/-! ## Literals -/

/-- A literal without parentheses does not look like a call. -/
theorem not_looksLikeCall_of_isBare {s : String} (h : IsBare s) :
    ¬ LooksLikeCall name (Text.javaLiteral s).toList := by
  rintro ⟨u, v, list, htext, hlist⟩
  have hmem : '(' ∈ (Text.javaLiteral s).toList := by
    have hv : '(' ∈ Text.trimStart v := by rw [hlist]; exact List.mem_cons_self
    rw [htext]
    exact List.mem_append_right _ ((List.dropWhile_sublist _).subset hv)
  rw [Text.javaLiteral, String.toList_ofList, Text.javaLiteralChars] at hmem
  simp only [List.mem_cons, List.mem_append, List.not_mem_nil, or_false, List.mem_flatMap] at hmem
  rcases hmem with hmem | ⟨c, hc, hmem⟩ | hmem
  · exact absurd hmem (by decide)
  · obtain rfl := eq_of_mem_javaEscape hmem
    exact h.not_mem hc
  · exact absurd hmem (by decide)

end Java

/-! ## Expressions -/

namespace Expr

variable {name : List Char} {e : Expr}

/-- The name or type that is written at a node. -/
def writtenName? : Expr → Option String
  | .var name => some name
  | .postState name => some name
  | .field _ name => some name
  | .call name _ => some name
  | .send _ name _ => some name
  | .create type _ => some type
  | .cast type _ => some type
  | _ => none

/-- The name at the node is bare, and a string literal does not look like a call of `name`. -/
structure IsSettledNode (name : List Char) (e : Expr) : Prop where
  bare : ∀ written ∈ e.writtenName?, IsBare written
  literal : ∀ s, e = .string s → ¬ LooksLikeCall name (Text.javaLiteral s).toList

/-- All nodes are settled. -/
def IsSettled (name : List Char) (e : Expr) : Prop := ∀ x ∈ e.subterms, x.IsSettledNode name

theorem isSettled_iff :
    e.IsSettled name ↔ e.IsSettledNode name ∧ ∀ c ∈ e.children, c.IsSettled name :=
  everywhere_iff

theorem ignoresChildren_isSettledNode (name : List Char) :
    IgnoresChildren (IsSettledNode name) := fun _ _ _ hp h => by
  cases hp with
  | literal => exact h
  | _ => exact ⟨h.bare, nofun⟩

theorem isSettledNode_iff : e.IsSettledNode name ↔
    (∀ written ∈ e.writtenName?, IsBare written) ∧
      ∀ s, e = .string s → ¬ LooksLikeCall name (Text.javaLiteral s).toList :=
  ⟨fun h => ⟨h.bare, h.literal⟩, fun h => ⟨h.1, h.2⟩⟩

@[simp] theorem isSettled_var {written : String} :
    (var written).IsSettled name ↔ IsBare written := by
  rw [isSettled_iff]
  simp [isSettledNode_iff, writtenName?, Expr.string, children]

@[simp] theorem isSettled_string {s : String} :
    (Expr.string s).IsSettled name ↔ ¬ LooksLikeCall name (Text.javaLiteral s).toList := by
  rw [isSettled_iff]
  simp [isSettledNode_iff, writtenName?, Expr.string, children]

@[simp] theorem isSettled_binary {op : BinaryOp} {left right : Expr} :
    (binary op left right).IsSettled name ↔ left.IsSettled name ∧ right.IsSettled name := by
  rw [isSettled_iff]
  simp [isSettledNode_iff, writtenName?, Expr.string, children]

theorem settled_java (hname : IsName name) {value : Literal}
    (h : ∀ s, value = .string s → ¬ LooksLikeCall name (Text.javaLiteral s).toList) :
    Settled name value.java := by
  cases value with
  | string s => exact settled_javaLiteral hname (h s rfl)
  | integer n =>
    refine settled_of_isBare hname ?_
    rw [Literal.java]
    split
    · exact isBare_intText _
    · exact isBare_append.2 ⟨isBare_intText _, by decide⟩
  | float x =>
    refine settled_of_isBare hname ?_
    rw [Literal.java]
    split
    · decide
    · split
      · split <;> decide
      · exact Double.isBare_plain (Double.isFinite_of_not_isNaN ‹_› ‹_›)
  | boolean b => exact settled_of_isBare hname (by cases b <;> decide)
  | null => exact settled_of_isBare hname (by decide)

theorem settled_parenthesized (hname : IsName name) {text : String} (h : Settled name text)
    (p : Bool) : Settled name (parenthesized p text) := by
  cases p with
  | false => exact h
  | true => exact (h.list hname "" (by decide)).of_toList_eq (by simp [parenthesized])

theorem isSeparator_symbol (op : BinaryOp) : IsSeparator (" " ++ op.symbol ++ " ") := by
  cases op <;> exact ⟨by decide, _, _, rfl, by decide⟩

theorem isSign_symbol (op : UnaryOp) : IsSign op.symbol := by
  cases op <;> decide

/-- The expression has a settled text or none. -/
def RendersSettled (name : List Char) (e : Expr) : Prop :=
  ∀ text, e.render = .ok text → Settled name text

theorem settled_renderAll {es : List Expr} (h : ∀ e ∈ es, e.RendersSettled name)
    {texts : List String} (htexts : renderAll es = .ok texts) : ∀ t ∈ texts, Settled name t := by
  rw [renderAll_eq, mapM_eq_ok_iff] at htexts
  intro t ht
  obtain ⟨e, he, htext⟩ := exists_of_mem_right htexts ht
  exact h e he t htext

theorem settled_renderEntries {es : List (Expr × Expr)}
    (h : ∀ p ∈ es, p.1.RendersSettled name ∧ p.2.RendersSettled name)
    {texts : List (String × String)} (htexts : renderEntries es = .ok texts) :
    ∀ p ∈ texts, Settled name p.1 ∧ Settled name p.2 := by
  rw [renderEntries_eq, mapM_eq_ok_iff] at htexts
  intro t ht
  obtain ⟨p, hp, htext⟩ := exists_of_mem_right htexts ht
  obtain ⟨key, hkey, htext⟩ := bind_eq_ok_iff.1 htext
  obtain ⟨value, hvalue, htext⟩ := bind_eq_ok_iff.1 htext
  cases htext
  exact ⟨(h p hp).1 key hkey, (h p hp).2 value hvalue⟩

/-- A node with settled children is settled. -/
theorem rendersSettled_node (hname : IsName name) (h : e.IsSettledNode name)
    (hchildren : ∀ c ∈ e.children, c.RendersSettled name) : e.RendersSettled name := by
  have hdot : IsSeparator "." := ⟨by decide, '.', [], by decide, by decide⟩
  intro text htext
  cases e with
  | literal value =>
    cases htext
    exact settled_java hname fun s hs => h.literal s (hs ▸ rfl)
  | var written => exact Except.ok.inj htext ▸ settled_of_isBare hname (h.bare written rfl)
  | postState => cases htext
  | self =>
    cases htext
    exact settled_of_isBare hname (by decide)
  | binary op left right =>
    simp only [children, List.forall_mem_cons] at hchildren
    obtain ⟨leftText, hleft, htext⟩ := bind_eq_ok_iff.1 htext
    obtain ⟨rightText, hright, htext⟩ := bind_eq_ok_iff.1 htext
    cases htext
    have hoperands := (hchildren.1 _ hleft).separated hname (isSeparator_symbol op)
      (hchildren.2.1 _ hright)
    exact (hoperands.list hname "" (by decide)).of_toList_eq (by simp)
  | unary op operand =>
    simp only [children, List.forall_mem_cons] at hchildren
    obtain ⟨operandText, hoperand, htext⟩ := bind_eq_ok_iff.1 htext
    cases htext
    exact (settled_parenthesized hname (hchildren.1 _ hoperand) _).signed hname (isSign_symbol op)
  | field scope written =>
    simp only [children, List.forall_mem_cons] at hchildren
    obtain ⟨scopeText, hscope, htext⟩ := bind_eq_ok_iff.1 htext
    cases htext
    exact (settled_parenthesized hname (hchildren.1 _ hscope) _).separated hname hdot
      (settled_of_isBare hname (h.bare written rfl))
  | index base position =>
    simp only [children, List.forall_mem_cons] at hchildren
    obtain ⟨baseText, hbase, htext⟩ := bind_eq_ok_iff.1 htext
    obtain ⟨positionText, hposition, htext⟩ := bind_eq_ok_iff.1 htext
    cases htext
    have hopen : IsSeparator "[" := ⟨by decide, '[', [], by decide, by decide⟩
    have hclose : IsSeparator "]" := ⟨by decide, ']', [], by decide, by decide⟩
    exact ((settled_parenthesized hname (hchildren.1 _ hbase) _).separated hname hopen
      (hchildren.2.1 _ hposition)).closed hname hclose
  | call written args =>
    rw [Expr.render] at htext
    split at htext
    · cases htext
    · obtain ⟨texts, htexts, htext⟩ := bind_eq_ok_iff.1 htext
      cases htext
      exact settled_call hname (settled_renderAll hchildren htexts) written (h.bare written rfl)
  | send receiver written args =>
    obtain ⟨hreceiver, hargs⟩ := List.forall_mem_cons.1 hchildren
    obtain ⟨texts, htexts, htext⟩ := bind_eq_ok_iff.1 htext
    obtain ⟨receiverText, hreceiverText, htext⟩ := bind_eq_ok_iff.1 htext
    cases htext
    have hcall := settled_call hname (settled_renderAll hargs htexts) written (h.bare written rfl)
    have hscope := settled_parenthesized hname (hreceiver _ hreceiverText) receiver.isUnary
    exact (hscope.separated hname hdot hcall).of_toList_eq (by simp)
  | create type args =>
    obtain ⟨texts, htexts, htext⟩ := bind_eq_ok_iff.1 htext
    cases htext
    exact settled_newObject hname (h.bare type rfl) (settled_renderAll hchildren htexts)
  | set elements =>
    obtain ⟨texts, htexts, htext⟩ := bind_eq_ok_iff.1 htext
    cases htext
    exact settled_newSet hname (settled_renderAll hchildren htexts)
  | map entries =>
    obtain ⟨texts, htexts, htext⟩ := bind_eq_ok_iff.1 htext
    cases htext
    refine settled_newMap hname (settled_renderEntries (fun p hp => ?_) htexts)
    have hentry : ∀ c ∈ [p.1, p.2], c.RendersSettled name := fun c hc =>
      hchildren c (List.mem_flatMap.2 ⟨p, hp, hc⟩)
    simpa using hentry
  | tuple elements =>
    obtain ⟨texts, htexts, htext⟩ := bind_eq_ok_iff.1 htext
    cases htext
    exact settled_newTuple hname (settled_renderAll hchildren htexts)
  | conditional condition yes no =>
    simp only [children, List.forall_mem_cons] at hchildren
    obtain ⟨conditionText, hcondition, htext⟩ := bind_eq_ok_iff.1 htext
    obtain ⟨yesText, hyes, htext⟩ := bind_eq_ok_iff.1 htext
    obtain ⟨noText, hno, htext⟩ := bind_eq_ok_iff.1 htext
    cases htext
    have hquestion : IsSeparator " ? " := ⟨by decide, '?', [' '], by decide, by decide⟩
    have hcolon : IsSeparator " : " := ⟨by decide, ':', [' '], by decide, by decide⟩
    have hchoice := (hchildren.1 _ hcondition).separated hname hquestion
      ((hchildren.2.1 _ hyes).separated hname hcolon (hchildren.2.2.1 _ hno))
    exact (hchoice.list hname "" (by decide)).of_toList_eq (by simp)
  | cast type operand =>
    simp only [children, List.forall_mem_cons] at hchildren
    obtain ⟨operandText, hoperand, htext⟩ := bind_eq_ok_iff.1 htext
    cases htext
    have hcast := (hchildren.1 _ hoperand).cast hname (h.bare type rfl)
    exact (hcast.list hname "" (by decide)).of_toList_eq (by simp)

/-- The text of a settled expression is settled. -/
theorem IsSettled.render (hname : IsName name) (h : e.IsSettled name) {text : String}
    (htext : e.render = .ok text) : Settled name text := by
  induction e using children_induction generalizing text with
  | node e ih =>
    obtain ⟨hnode, hchildren⟩ := isSettled_iff.1 h
    exact rendersSettled_node hname hnode (fun c hc _ => ih c hc (hchildren c hc)) text htext

theorem IsSettled.renderBare (hname : IsName name) (h : e.IsSettled name) {text : String}
    (htext : e.renderBare = .ok text) : Settled name text := by
  cases e with
  | binary op left right =>
    obtain ⟨hleft, hright⟩ := isSettled_binary.1 h
    obtain ⟨leftText, hleftText, htext⟩ := bind_eq_ok_iff.1 htext
    obtain ⟨rightText, hrightText, htext⟩ := bind_eq_ok_iff.1 htext
    cases htext
    exact ((hleft.render hname hleftText).separated hname (isSeparator_symbol op)
      (hright.render hname hrightText)).of_toList_eq (by simp)
  | _ => exact h.render hname htext

/-- The variable that takes the place of a call is bare. -/
theorem isSettledNode_resultVariable (taken : List String) {call : Expr}
    (h : call.IsSettledNode name) : (var (resultVariable taken call)).IsSettledNode name := by
  have hcall : IsBare (call.callName?.getD "call") := by
    cases call with
    | call written args => exact h.bare written rfl
    | send receiver written args => exact h.bare written rfl
    | _ => exact (by decide : IsBare "call")
  refine ⟨?_, nofun⟩
  rintro _ ⟨⟩
  obtain ⟨n, hn, -⟩ :=
    Text.fresh_spec (triedNames_injective (call.callName?.getD "call" ++ "_result")) taken
  rw [resultVariable, hn]
  have hresult : IsBare "_result" := by decide
  have hunderscore : IsBare "_" := by decide
  split
  · exact isBare_append.2 ⟨hcall, hresult⟩
  · simp [hcall, hresult, hunderscore, isBare_natText]

end Expr

end ContractTests
