import ContractTests.Java.Statement
import ContractTests.Proofs.Expr.Traversal

/-! # Indentation

`Stmt.outline` lists the lines of a statement with their depths: in how many blocks of the statement
each of them stands. `SourceText.addLines` puts such lines after those of a text, indented by the
level of the text and their own depth. This is what a statement does to a text
(`Stmt.render_eq_outline`), so that its lines do not depend on where it stands, except for their
indentation (`Stmt.render_indents`).
-/

set_option autoImplicit false

namespace ContractTests

/-! ## Lines with a depth -/

namespace SourceText

/-- The text with more lines, each of them indented from the level of the text on by its depth. -/
def addLines (out : SourceText) (lines : List (Nat × String)) : SourceText :=
  { out with
    lines := out.lines ++ lines.map fun line => indentation (out.level + line.1) ++ line.2 }

variable {out : SourceText} {text : String} {lines more : List (Nat × String)}

theorem indentation_add (k n : Nat) : indentation (k + n) = indentation k ++ indentation n := by
  rw [indentation, Nat.mul_add, ← List.replicate_append_replicate, String.ofList_append]
  rfl

theorem addLines_nil (out : SourceText) : out.addLines [] = out := by simp [addLines]

theorem addLines_addLines : (out.addLines lines).addLines more = out.addLines (lines ++ more) := by
  simp [addLines]

theorem line_eq_addLines (h : text ≠ "") : out.line text = out.addLines [(0, text)] := by
  simp [line, addLines, h]

/-- Adding lines to a text indents what adding them to the empty text gives. -/
theorem addLines_eq (out : SourceText) (lines : List (Nat × String)) :
    out.addLines lines =
      ⟨out.lines ++ (empty.addLines lines).lines.map (indentation out.level ++ ·), out.level⟩ := by
  simp [addLines, empty, indentation_add, String.append_assoc]

end SourceText

namespace Stmt

open SourceText

/-- The lines one block further inside. -/
def deepened (lines : List (Nat × String)) : List (Nat × String) :=
  lines.map fun line => (line.1 + 1, line.2)

/-- Lines one block further inside, between lines of the block itself. -/
theorem dedent_addLines (out : SourceText) (lines : List (Nat × String)) :
    (out.indent.addLines lines).dedent = out.addLines (deepened lines) := by
  simp [indent, addLines, dedent, deepened, Nat.add_assoc, Nat.add_comm 1]

mutual

/-- The lines of a statement with their depths. The body of a block and the early return are one
deeper than its head and its closing brace. -/
def outline : Stmt → Except Unsupported (List (Nat × String))
  | .whenever condition body returns => do
    let head ← condition.renderBare
    let inner ← outlineAll body
    return (0, "if (" ++ head ++ ") \x7b") ::
      (deepened (inner ++ if returns then [(0, "return;")] else []) ++ [(0, "\x7d")])
  | s => do
    let line ← s.render .empty
    return line.lines.map fun text => (0, text)

/-- The lines of all the statements. -/
def outlineAll : List Stmt → Except Unsupported (List (Nat × String))
  | [] => .ok []
  | s :: rest => do
    let lines ← outline s
    let more ← outlineAll rest
    return lines ++ more

end

/-! ## Statements add their outline -/

theorem inputLine_ne_empty (type name : String) : inputLine type name ≠ "" := by
  unfold inputLine
  split <;> simp

/-- A statement of one line adds that line. -/
theorem map_line_eq (out : SourceText) (x : Except Unsupported String) {f : String → String}
    (hf : ∀ text, f text ≠ "") :
    (do let text ← x; return out.line (f text) : Except Unsupported SourceText) =
      (do
        let line ← (do let text ← x; return empty.line (f text) : Except Unsupported SourceText)
        return line.lines.map fun text => (0, text)).map out.addLines := by
  cases x with
  | error cause => rfl
  | ok text =>
    have hline : (empty.line (f text)).lines = [f text] := by
      simp [line, empty, hf, indentation]
    show Except.ok (out.line (f text)) =
      .ok (out.addLines ((empty.line (f text)).lines.map fun text => (0, text)))
    rw [hline, line_eq_addLines (hf text)]
    rfl

mutual

theorem render_eq_outline (out : SourceText) : ∀ s : Stmt,
    s.render out = s.outline.map out.addLines
  | .input type name => by
    have hinput := inputLine_ne_empty type name
    exact map_line_eq out (.ok "") (f := fun _ => inputLine type name) fun _ => hinput
  | .declare type name init => map_line_eq out init.render fun _ => by simp
  | .assign target value => map_line_eq out value.render fun _ => by simp
  | .assume condition => map_line_eq out condition.render fun _ => by simp
  | .assert condition => map_line_eq out condition.render fun _ => by simp
  | .perform call => map_line_eq out call.render fun _ => by simp
  | .whenever condition body returns => by
    rw [render, outline]
    cases condition.renderBare with
    | error cause => rfl
    | ok head =>
      have hhead : "if (" ++ head ++ ") \x7b" ≠ "" := by simp
      have hreturn : "return;" ≠ "" := by decide
      have hclose : "\x7d" ≠ "" := by decide
      show (renderAll (out.line ("if (" ++ head ++ ") \x7b")).indent body >>= _) =
        Except.map _ (outlineAll body >>= _)
      rw [line_eq_addLines hhead, renderAll_eq_outline _ body]
      cases outlineAll body with
      | error cause => rfl
      | ok inner =>
        cases returns with
        | true =>
          show Except.ok _ = Except.ok _
          simp only [if_true, line_eq_addLines hreturn, line_eq_addLines hclose, addLines_addLines,
            dedent_addLines, List.cons_append, List.nil_append]
        | false =>
          show Except.ok _ = Except.ok _
          simp only [Bool.false_eq_true, if_false, line_eq_addLines hclose, addLines_addLines,
            dedent_addLines, List.cons_append, List.nil_append, List.append_nil]

theorem renderAll_eq_outline (out : SourceText) : ∀ body : List Stmt,
    renderAll out body = (outlineAll body).map out.addLines
  | [] => congrArg Except.ok (addLines_nil out).symm
  | s :: rest => by
    rw [renderAll, outlineAll, render_eq_outline out s]
    cases outline s with
    | error cause => rfl
    | ok lines =>
      show renderAll (out.addLines lines) rest = Except.map _ (outlineAll rest >>= _)
      rw [renderAll_eq_outline (out.addLines lines) rest]
      cases outlineAll rest with
      | error cause => rfl
      | ok more => exact congrArg Except.ok addLines_addLines

end

/-- A statement fails on a text exactly when it does so on an empty one, with the same cause. When
it does not, it leaves the level as it was and adds the lines that it gives on an empty text, each
behind four spaces for every level. These are the lines of its outline, behind four spaces more for
every block that they stand in, so that the body of a block stands one level deeper than its head,
and so does the early return. -/
theorem render_indents (out : SourceText) (s : Stmt) :
    (∀ cause, s.render out = .error cause ↔ s.render .empty = .error cause) ∧
    (∀ out', s.render out = .ok out' ↔ ∃ t, s.render .empty = .ok t ∧
      out' = ⟨out.lines ++ t.lines.map (String.ofList (List.replicate (4 * out.level) ' ') ++ ·),
        out.level⟩) ∧
    ∀ out', s.render out = .ok out' ↔ ∃ lines, s.outline = .ok lines ∧
      out' = ⟨out.lines ++ lines.map fun line =>
        String.ofList (List.replicate (4 * (out.level + line.1)) ' ') ++ line.2, out.level⟩ := by
  simp only [render_eq_outline, map_eq_ok_iff]
  refine ⟨fun cause => ?error, fun out' => ?empty, fun out' => ?outline⟩
  case error => cases s.outline <;> simp [Except.map]
  case empty =>
    constructor
    · rintro ⟨lines, hlines, rfl⟩
      exact ⟨_, ⟨lines, hlines, rfl⟩, addLines_eq out lines⟩
    · rintro ⟨_, ⟨lines, hlines, rfl⟩, rfl⟩
      exact ⟨lines, hlines, addLines_eq out lines⟩
  case outline => exact exists_congr fun lines => and_congr_right fun _ => eq_comm

/-- A block with an early return in another block, in a method of a class. -/
theorem nestedBlocks_indented :
    Stmt.render ⟨["class T \x7b", "    void t() \x7b"], 2⟩
        (.whenever (.var "a") [.whenever (.var "b") [.perform (.call "f" [])] true] false) =
      .ok ⟨["class T \x7b", "    void t() \x7b",
        "        if (a) \x7b",
        "            if (b) \x7b",
        "                f();",
        "                return;",
        "            \x7d",
        "        \x7d"], 2⟩ := by
  refine ((render_indents _ _).2.2 _).2 ⟨[(0, "if (a) \x7b"), (1, "if (b) \x7b"), (2, "f();"),
    (2, "return;"), (1, "\x7d"), (0, "\x7d")], rfl, ?_⟩
  decide

end Stmt

end ContractTests
