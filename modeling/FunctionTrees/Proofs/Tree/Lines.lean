import FunctionTrees.Proofs.Text.LineBreaks
import FunctionTrees.Proofs.Tree.Printer
import Mathlib.Algebra.BigOperators.Group.List.Basic
import Mathlib.Algebra.GroupWithZero.Nat
import Mathlib.Data.List.Zip

/-!
# The lines of a block

* `Tree.Inline tree` : the tree holds neither blocks nor spans; `Inline.textAt_eq`, `Inline.not_mem_text` : it is written
  on one line, and alike wherever it stands;
* `statementLine text span` : the line of a statement, with its span if it has one; `lineEnds_statementLine` : only the
  file of the span can break it;
* `closed lines` : the lines with a parenthesis behind the last one;
* `text_block` : a block is written as its head and the lines of its statements;
* `Lined texts spans text` : how the text splits into lines; `lined_block` : so does that of a block.
-/

set_option autoImplicit false

namespace FunctionTrees

open Text

/-! ## Literals and spans -/

theorem not_mem_of_isWordChar {text : String} (h : ∀ c ∈ text.toList, isWordChar c = true) : '\n' ∉ text.toList :=
  fun hmem => absurd (h _ hmem) (by decide)

theorem Literal.not_mem_floatText (bits : UInt64) : '\n' ∉ (floatText bits).toList := by
  unfold floatText
  cases htext : floatStyle.text? bits with
  | none =>
    dsimp only
    split_ifs <;> decide
  | some text =>
    intro hmem
    rcases Decimal.Style.figures_text? htext _ hmem with hfigure | hplus
    · exact absurd hfigure (by decide)
    · cases hplus

theorem Literal.not_mem_text (value : Literal) : '\n' ∉ value.text.toList := by
  cases value with
  | int value =>
    have hword : (Tree.literal (.int value)).word? = some (toString value.toInt) := rfl
    exact not_mem_of_isWordChar (Tree.isWordChar_of_word? hword)
  | float bits => exact Literal.not_mem_floatText bits
  | bool value => cases value <;> decide
  | str text => exact not_mem_quote text
  | null => decide

theorem Extent.not_mem_text (extent : Extent) : '\n' ∉ extent.text.toList := by
  have hnumber (n : UInt32) : '\n' ∉ (toString n).toList := by
    intro hmem
    have hmem : '\n' ∈ (toString (n.toNat : Int)).toList := hmem
    rcases Decimal.mem_integer hmem with hminus | hdigit
    · exact absurd hminus (by decide)
    · exact absurd hdigit (by decide)
  have hcolon : '\n' ∉ (toString ":").toList := by decide
  have hdash : '\n' ∉ (toString "-").toList := by decide
  simp [Extent.text, hnumber, hcolon, hdash]

/-- Only the file of a span can hold line ends. -/
theorem lineEnds_span (span : FileSpan) : lineEnds span.text = lineEnds span.file := by
  have hextent := lineEnds_eq_zero_iff.2 span.extent.not_mem_text
  have hcolon : lineEnds ":" = 0 := by decide
  rw [FileSpan.text, lineEnds_append, lineEnds_append, hextent, hcolon, Nat.add_zero]

namespace Tree

/-! ## Trees on one line -/

/-- A tree that holds neither blocks nor spans. -/
inductive Inline : Tree → Prop
  | operator (op : Operator) : Inline (operator op)
  | literal (value : Literal) : Inline (literal value)
  | empty : Inline empty
  | node {kind : NodeKind} {children : List Tree} (hkind : kind ≠ .block) (h : ∀ child ∈ children, Inline child) :
    Inline (node kind children)

variable {tree : Tree}

theorem textAt_node_of_ne {kind : NodeKind} (hkind : kind ≠ .block) (depth : Nat) (children : List Tree) :
    (node kind children).textAt depth = "(" ++ kind.name ++ textsAt " " depth children ++ ")" := by
  cases kind with
  | block => exact absurd rfl hkind
  | _ => rfl

theorem textsAt_congr {lead : String} {depth depth' : Nat} {trees : List Tree}
    (h : ∀ tree ∈ trees, tree.textAt depth = tree.textAt depth') :
    textsAt lead depth trees = textsAt lead depth' trees := by
  induction trees with
  | nil => rfl
  | cons tree trees ih =>
    rw [List.forall_mem_cons] at h
    rw [textsAt, textsAt, h.1, ih h.2]

/-- It does not matter in how many blocks the tree stands. -/
theorem Inline.textAt_eq (h : tree.Inline) (depth : Nat) : tree.textAt depth = tree.text := by
  unfold text
  induction h with
  | operator | literal | empty => rfl
  | node hkind _ ih => rw [textAt_node_of_ne hkind, textAt_node_of_ne hkind, textsAt_congr ih]

theorem not_mem_textsAt {depth : Nat} {trees : List Tree} (h : ∀ tree ∈ trees, '\n' ∉ (tree.textAt depth).toList) :
    '\n' ∉ (textsAt " " depth trees).toList := by
  induction trees with
  | nil => exact List.not_mem_nil
  | cons tree trees ih =>
    rw [List.forall_mem_cons] at h
    rw [textsAt, String.toList_append, String.toList_append]
    simp [h.1, ih h.2]

theorem Inline.not_mem_text (h : tree.Inline) : '\n' ∉ tree.text.toList := by
  unfold text
  induction h with
  | operator op =>
    have hword : (Tree.operator op).word? = some op.text := rfl
    exact not_mem_of_isWordChar (isWordChar_of_word? hword)
  | literal value => exact value.not_mem_text
  | empty => decide
  | @node kind children hkind _ ih =>
    have hname := not_mem_of_isWordChar kind.isWordChar_name
    rw [textAt_node_of_ne hkind]
    simp [hname, not_mem_textsAt ih]

end Tree

/-! ## Lines of statements -/

def statementLine (text : String) (span : Option FileSpan) : String :=
  "  " ++ text ++ span.elim "" fun span => "  ; " ++ span.text

/-- How many line ends there are in the file of the span, if there is one. -/
def fileLineEnds (span : Option FileSpan) : Nat := span.elim 0 fun span => lineEnds span.file

theorem lineEnds_statementLine {text : String} (h : '\n' ∉ text.toList) (span : Option FileSpan) :
    lineEnds (statementLine text span) = fileLineEnds span := by
  have hlead : lineEnds "  " = 0 := by decide
  rw [statementLine, lineEnds_append, lineEnds_append, lineEnds_eq_zero_iff.2 h, hlead]
  cases span with
  | none => decide
  | some span =>
    have hmark : lineEnds "  ; " = 0 := by decide
    rw [Option.elim_some, lineEnds_append, lineEnds_span, hmark, fileLineEnds, Option.elim_some, Nat.zero_add,
      Nat.zero_add]

/-- The lines with a parenthesis behind the last one. -/
def closed : List String → List String
  | [] => []
  | [last] => [last ++ ")"]
  | line :: next :: rest => line :: closed (next :: rest)

theorem length_closed (lines : List String) : (closed lines).length = lines.length := by
  induction lines using closed.induct with
  | case1 => rfl
  | case2 last => rfl
  | case3 line next rest ih => rw [closed, List.length_cons, ih, ← List.length_cons]

theorem closed_cons_ne_nil (line : String) (rest : List String) : closed (line :: rest) ≠ [] := by
  rw [← List.length_pos_iff, length_closed]
  exact Nat.succ_pos _

theorem sum_lineEnds_closed (lines : List String) :
    ((closed lines).map lineEnds).sum = (lines.map lineEnds).sum := by
  induction lines using closed.induct with
  | case1 => rfl
  | case2 last =>
    have hclose : lineEnds ")" = 0 := by decide
    simp [closed, lineEnds_append, hclose]
  | case3 line next rest ih => rw [closed, List.map_cons, List.sum_cons, ih, ← List.sum_cons, ← List.map_cons]

theorem sum_lineEnds_statementLines {texts : List String} {spans : List (Option FileSpan)}
    (hlength : texts.length = spans.length) (h : ∀ text ∈ texts, '\n' ∉ text.toList) :
    ((List.zipWith statementLine texts spans).map lineEnds).sum = (spans.map fileLineEnds).sum := by
  induction texts generalizing spans with
  | nil => rw [List.length_eq_zero_iff.1 hlength.symm]; rfl
  | cons text texts ih =>
    cases spans with
    | nil => cases hlength
    | cons span spans =>
      rw [List.forall_mem_cons] at h
      have hrest := ih (Nat.succ.inj hlength) h.2
      rw [List.zipWith_cons_cons, List.map_cons, List.sum_cons, List.map_cons, List.sum_cons, hrest,
        lineEnds_statementLine h.1]

/-! ## Blocks -/

/-- How the text of a block splits into lines: each statement gets one line, but for the line ends in files. -/
structure Lined (texts : List String) (spans : List (Option FileSpan)) (text : String) : Prop where
  /-- Statements are written on one line each. -/
  inline : ∀ statement ∈ texts, '\n' ∉ statement.toList
  below : text = "\n".intercalate (closed ("(BLOCK_STMT" :: List.zipWith statementLine texts spans))
  length : (linesOf text).length = 1 + texts.length + (spans.map fileLineEnds).sum
  lines : (∀ span ∈ spans, fileLineEnds span = 0) →
    linesOf text = closed ("(BLOCK_STMT" :: List.zipWith statementLine texts spans)

theorem lined_of_below {texts : List String} {spans : List (Option FileSpan)} {text : String}
    (hlength : texts.length = spans.length) (hinline : ∀ statement ∈ texts, '\n' ∉ statement.toList)
    (hbelow : text = "\n".intercalate (closed ("(BLOCK_STMT" :: List.zipWith statementLine texts spans))) :
    Lined texts spans text := by
  have hlines := linesOf_intercalate (closed_cons_ne_nil "(BLOCK_STMT" (List.zipWith statementLine texts spans))
  have hhead : lineEnds "(BLOCK_STMT" = 0 := by decide
  have hsum := sum_lineEnds_statementLines hlength hinline
  rw [← hbelow] at hlines
  refine ⟨hinline, hbelow, ?_, fun hfiles => ?_⟩
  · rw [hlines, List.length_flatMap]
    simp only [length_linesOf]
    rw [List.sum_map_add, sum_lineEnds_closed, List.map_cons, List.sum_cons, hhead, hsum]
    simp [length_closed, ← hlength]
    omega
  · have hzero : ((closed ("(BLOCK_STMT" :: List.zipWith statementLine texts spans)).map lineEnds).sum = 0 := by
      have hspans : (spans.map fileLineEnds).sum = 0 :=
        List.sum_eq_zero_iff_forall_eq_nat.2 (List.forall_mem_map.2 hfiles)
      rw [sum_lineEnds_closed, List.map_cons, List.sum_cons, hhead, hsum, hspans]
    have hnone : ∀ line ∈ closed ("(BLOCK_STMT" :: List.zipWith statementLine texts spans), linesOf line = [line] := by
      intro line hline
      have hends : lineEnds line = 0 := List.sum_eq_zero_iff_forall_eq_nat.1 hzero _ (List.mem_map_of_mem hline)
      exact linesOf_of_not_mem (lineEnds_eq_zero_iff.1 hends)
    rw [hlines, List.flatMap_congr hnone, List.flatMap_singleton']

namespace Tree

def notedWith (tree : Tree) (span : Option FileSpan) : Tree := span.elim tree tree.noted

/-- What comes after the head of a block is put below it. -/
theorem textsAt_statements (head : String) (statements : List Tree) :
    head ++ textsAt (statementLead 1) 1 statements ++ ")" =
      "\n".intercalate (closed (head :: statements.map fun statement => "  " ++ statement.textAt 1)) := by
  induction statements generalizing head with
  | nil => simp [textsAt, closed]
  | cons statement rest ih =>
    have hlead : statementLead 1 = "\n" ++ "  " := rfl
    rw [List.map_cons, closed, String.intercalate_cons_of_ne_nil (closed_cons_ne_nil _ _), ← ih, textsAt, hlead]
    simp only [String.append_assoc]

theorem text_block (statements : List Tree) : (node .block statements).text =
    "\n".intercalate (closed ("(BLOCK_STMT" :: statements.map fun statement => "  " ++ statement.textAt 1)) :=
  textsAt_statements "(BLOCK_STMT" statements

theorem Inline.line_eq {tree : Tree} (h : tree.Inline) (span : Option FileSpan) :
    "  " ++ (tree.notedWith span).textAt 1 = statementLine tree.text span := by
  cases span with
  | none =>
    rw [notedWith, Option.elim_none, h.textAt_eq, statementLine, Option.elim_none, String.append_empty]
  | some span =>
    rw [notedWith, Option.elim_some, textAt, h.textAt_eq, statementLine, Option.elim_some]
    simp only [String.append_assoc]

/-- The text of a block of statements on one line each. -/
theorem lined_block {trees : List Tree} {spans : List (Option FileSpan)} (hlength : trees.length = spans.length)
    (h : ∀ tree ∈ trees, tree.Inline) :
    Lined (trees.map text) spans (node .block (List.zipWith notedWith trees spans)).text := by
  have hlines : (List.zipWith notedWith trees spans).map (fun statement => "  " ++ statement.textAt 1) =
      List.zipWith statementLine (trees.map text) spans := by
    rw [List.map_zipWith, List.zipWith_map_left]
    have hline {tree : Tree} {span : Option FileSpan} (hmem : (tree, span) ∈ trees.zip spans) :
        "  " ++ (tree.notedWith span).textAt 1 = statementLine tree.text span :=
      (h tree (List.of_mem_zip hmem).1).line_eq span
    exact List.zipWith_congr _ _ trees spans (List.forall₂_iff_zip.2 ⟨hlength, hline⟩)
  refine lined_of_below (by rw [List.length_map, hlength]) ?_ ?_
  · exact List.forall_mem_map.2 fun tree hmem => (h tree hmem).not_mem_text
  · rw [text_block, hlines]

end Tree

end FunctionTrees
