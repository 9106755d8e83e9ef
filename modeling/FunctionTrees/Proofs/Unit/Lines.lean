import FunctionTrees.Proofs.Lowering.References
import FunctionTrees.Proofs.Tree.Lines
import FunctionTrees.Proofs.Unit

/-!
# One line for each statement

* `Block.inline_trees` : the statements of a block are written on one line each;
* `Ast.spanOf?` : the span with which a statement is noted;
* `lined_of_lower` : the roots of a lowered function are written in lines;
* `lines_of_entityOf` : so are those of its entity, each statement on a line of its own but for line ends in files;
* `multiline` : a function with line ends in its texts, which break no line; `scattered`, `broken_by_file` : a function
  with a line end in a file, which does.
-/

set_option autoImplicit false

namespace FunctionTrees

open Outcome Text Transfer

/-! ## Statements -/

theorem Tree.inline_hereditary : Hereditary Inline :=
  ⟨.operator, fun text => .literal (.str text), fun _ _ => .node⟩

theorem Transfer.Operand.inline_tree (operand : Operand) : operand.tree.Inline := by
  cases operand with
  | var name => exact Tree.inline_hereditary.named NodeKind.noConfusion name
  | _ => exact .literal _

/-- The statements of a block are written on one line each. -/
theorem Transfer.Block.inline_trees (block : Block) :
    ∀ tree ∈ Tree.named .label block.label :: block.instructions.flatMap Instruction.trees, tree.Inline := by
  refine List.forall_mem_cons.2 ⟨Tree.inline_hereditary.named NodeKind.noConfusion block.label, fun tree hmem => ?_⟩
  obtain ⟨inst, -, htree⟩ := List.mem_flatMap.1 hmem
  exact Tree.inline_hereditary.trees (fun operand _ => operand.inline_tree) tree htree

namespace Ast

def spanOf? (ast : Ast) (positions : PositionTable) (statement : Node) : Except Misuse (Option FileSpan) :=
  (positions.get? statement).mapM fun position => position.resolve ast.strings

variable {ast : Ast} {positions : PositionTable}

theorem note_eq_notedWith {statement : Node} {span : Option FileSpan}
    (h : ast.spanOf? positions statement = .ok span) (tree : Tree) :
    ast.note (positions.get? statement) tree = .ok (tree.notedWith span) := by
  unfold spanOf? at h
  cases hposition : positions.get? statement with
  | none =>
    rw [hposition] at h
    cases h
    rfl
  | some position =>
    rw [hposition] at h
    obtain ⟨located, hlocated, rfl⟩ := map_eq_ok_iff.1 h
    exact map_eq_ok_iff.2 ⟨located, hlocated, rfl⟩

theorem exists_spanOf? (h : ∀ node position, positions.get? node = some position → ast.Knows position.file)
    (statement : Node) : ∃ span, ast.spanOf? positions statement = .ok span := by
  unfold spanOf?
  cases hposition : positions.get? statement with
  | none => exact ⟨none, rfl⟩
  | some position =>
    obtain ⟨file, hfile⟩ := h statement position hposition
    exact ⟨_, map_eq_ok_iff.2 ⟨_, map_eq_ok_iff.2 ⟨file, hfile, rfl⟩, rfl⟩⟩

/-- What stands for a tree is written as the tree. -/
theorem Stands.textOf {node : Node} {tree : Tree} (h : ast.Stands node tree) : ast.textOf none node = .ok tree.text :=
  map_eq_ok_iff.2 ⟨tree, h.unfoldTo (Nat.lt_succ_of_lt h.lt_size) _, rfl⟩

end Ast

/-! ## Blocks -/

/-- The root of a block of a lowered function is written in lines. -/
theorem Lowering.lined_of_lower {function : Function} {parts : EntityParts}
    (h : (lower function).result = .ok parts) {root : Node} (hroot : root ∈ parts.blocks) :
    ∃ statements texts spans text, parts.ast.children root = .ok statements ∧
      statements.mapM (parts.ast.textOf none) = .ok texts ∧
      statements.mapM (parts.ast.spanOf? parts.positions) = .ok spans ∧
      parts.ast.textOf (some parts.positions) root = .ok text ∧ texts.length = statements.length ∧
        Lined texts spans text := by
  have hbuilt := functionBuilt_of_lower h
  have hknown := fun node position hposition => ((partsResolved_of_lower h).recorded node position hposition).2
  obtain ⟨block, -, label, segments, hblock⟩ := exists_mem_zip_of_forall₂ hbuilt.blocks hroot
  have hstands := hblock.stands
  obtain ⟨spans, hspans⟩ := exists_mapM fun (statement : Node) (_ : statement ∈ label :: segments.flatten) =>
    Ast.exists_spanOf? hknown statement
  have hspans' := mapM_eq_ok_iff.1 hspans
  have hnoted : List.Forall₂ (fun statement result => ∃ tree, parts.ast.Stands statement tree ∧
      parts.ast.note (parts.positions.get? statement) tree = .ok result) (label :: segments.flatten)
      (List.zipWith Tree.notedWith _ spans) :=
    forall₂_zipWith hstands hspans' fun _ tree _ hstatement hspan => ⟨tree, hstatement, Ast.note_eq_notedWith hspan tree⟩
  have hunfold := Ast.unfold_block hblock.data hbuilt.covers.sound.closed hnoted
  have htexts : (label :: segments.flatten).mapM (parts.ast.textOf none) = .ok (List.map Tree.text _) :=
    mapM_eq_ok_iff.2 (List.forall₂_map_right_iff.2 (hstands.imp fun statement tree hstatement => hstatement.textOf))
  have hlength := hstands.length_eq
  refine ⟨_, _, spans, _, hblock.children, htexts, hspans, map_eq_ok_iff.2 ⟨_, hunfold, rfl⟩, ?_, ?_⟩
  · rw [List.length_map, hlength]
  · exact Tree.lined_block (hlength.symm.trans hspans'.length_eq) block.inline_trees

/-- The root of a block of an entity is written as its head and, below it, one line for each statement, which is the
text of the statement and the span that it is noted with; only line ends in the files of these spans break the lines. -/
theorem lines_of_entityOf (function : Function) (entity : Entity) (h : (entityOf function).result = .ok entity)
    (root : Node) (hroot : root ∈ entity.blocks) :
    ∃ statements texts spans text, entity.ast.children root = .ok statements ∧
      statements.mapM (entity.ast.textOf none) = .ok texts ∧
      statements.mapM (entity.ast.spanOf? entity.positions) = .ok spans ∧
      entity.ast.textOf (some entity.positions) root = .ok text ∧ texts.length = statements.length ∧
        Lined texts spans text :=
  Lowering.lined_of_lower (entityOf_eq_ok_iff.1 h) hroot

/-- A function with line ends in a label, in a name and in a string literal. -/
def multiline : Function where
  name := "print"
  returnType := "Void"
  blocks := [⟨"two\nlines", [
    { opcode := "call", operands := [.var "a\nb", .str "x\ny"], position := some ⟨"f.swift", 1, 2, 1, 9⟩ }]⟩]

theorem lines_of_entityOf_multiline : ∃ entity, (entityOf multiline).result = .ok entity ∧ entity.blocks = [⟨6⟩] ∧
    ∃ statements texts spans text, entity.ast.children ⟨6⟩ = .ok statements ∧
      statements.mapM (entity.ast.textOf none) = .ok texts ∧
      statements.mapM (entity.ast.spanOf? entity.positions) = .ok spans ∧
      entity.ast.textOf (some entity.positions) ⟨6⟩ = .ok text ∧ texts.length = statements.length ∧
        Lined texts spans text := by
  have hblocks : (entityOf multiline).result.map Entity.blocks = .ok [⟨6⟩] := by decide +kernel
  obtain ⟨entity, hentity, hroots⟩ := map_eq_ok_iff.1 hblocks
  have hroot : ⟨6⟩ ∈ entity.blocks := by rw [hroots]; exact List.mem_singleton_self _
  exact ⟨entity, hentity, hroots, lines_of_entityOf multiline entity hentity ⟨6⟩ hroot⟩

/-- A function of which an instruction comes from a file with a line end in its name. -/
def scattered : Function where
  name := "stop"
  returnType := "Void"
  blocks := [⟨"entry", [{ opcode := "return", position := some ⟨"a\nb.swift", 1, 1, 1, 6⟩ }]⟩]

/-- The file breaks the line of the statement. -/
theorem broken_by_file : ∃ entity statements text, (entityOf scattered).result = .ok entity ∧ entity.blocks = [⟨3⟩] ∧
    entity.ast.children ⟨3⟩ = .ok statements ∧ entity.ast.textOf (some entity.positions) ⟨3⟩ = .ok text ∧
      (linesOf text).length ≠ 1 + statements.length := by
  let text := "(BLOCK_STMT\n  (LABEL \"entry\")\n  (RETURN)  ; a\nb.swift:1:1-1:6)"
  have hscattered : (entityOf scattered).result.map (fun entity =>
      (entity.blocks, entity.ast.children ⟨3⟩, entity.ast.textOf (some entity.positions) ⟨3⟩)) =
      .ok ([⟨3⟩], .ok [⟨1⟩, ⟨2⟩], .ok text) := by decide +kernel
  obtain ⟨entity, hentity, hsame⟩ := map_eq_ok_iff.1 hscattered
  simp only [Prod.mk.injEq] at hsame
  obtain ⟨hblocks, hchildren, htext⟩ := hsame
  exact ⟨entity, _, text, hentity, hblocks, hchildren, htext, by decide +kernel⟩

end FunctionTrees
