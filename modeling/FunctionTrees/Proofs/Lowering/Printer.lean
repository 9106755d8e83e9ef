import FunctionTrees.Proofs.Lowering.Refinement
import FunctionTrees.Proofs.Tree.Printer

/-!
# Blocks with the same text have the same tree

* `Function.LacksFloats function` : no operand of the function is a float;
* `Block.plain_tree` : the trees of its blocks are plain;
* `exists_unfold_of_textOf` : blocks of two such functions that are written alike unfold to the same tree.
-/

set_option autoImplicit false

namespace FunctionTrees

/-! ## Plain trees -/

namespace Tree

theorem plain_hereditary : Hereditary Plain :=
  ⟨fun _ => .word rfl, fun text => .quoted text, fun _ _ _ h => .node h⟩

end Tree

namespace Transfer

def Function.LacksFloats (function : Function) : Prop :=
  ∀ block ∈ function.blocks, ∀ inst ∈ block.instructions, ∀ operand ∈ inst.operands, ∀ bits, operand ≠ .float bits

theorem Operand.plain_tree {operand : Operand} (h : ∀ bits, operand ≠ .float bits) : operand.tree.Plain := by
  cases operand with
  | var name => exact Tree.plain_hereditary.named NodeKind.noConfusion name
  | float bits => exact absurd rfl (h bits)
  | str text => exact .quoted text
  | _ => exact .word rfl

theorem Block.plain_tree {block : Block}
    (h : ∀ inst ∈ block.instructions, ∀ operand ∈ inst.operands, ∀ bits, operand ≠ .float bits) :
    block.tree.Plain := by
  refine .node (List.forall_mem_cons.2
    ⟨Tree.plain_hereditary.named NodeKind.noConfusion block.label, fun tree htree => ?_⟩)
  obtain ⟨inst, hmem, htree⟩ := List.mem_flatMap.1 htree
  exact Tree.plain_hereditary.trees (fun operand hoperand => Operand.plain_tree (h inst hmem operand hoperand)) tree htree

end Transfer

/-! ## Roots of blocks -/

namespace Lowering

open Transfer Outcome

variable {function : Function} {parts : EntityParts}

/-- The root of a block of a function without floats has the text of a plain tree. -/
theorem exists_plain_of_lower (h : (lower function).result = .ok parts) (hfloats : function.LacksFloats) {root : Node}
    (hroot : root ∈ parts.blocks) :
    ∃ tree, tree.Plain ∧ parts.ast.unfold (fun _ => none) root = .ok tree ∧ parts.ast.textOf none root = .ok tree.text := by
  have hblocks := List.forall₂_map_right_iff.1 (mapM_eq_ok_iff.1 (lower_unfold function parts h))
  obtain ⟨block, hmem, hunfold⟩ := exists_mem_of_forall₂ hblocks hroot
  exact ⟨block.tree, Block.plain_tree (hfloats block hmem), hunfold, congrArg (Except.map Tree.text) hunfold⟩

/-- Blocks of functions without floats that are written alike unfold to the same tree. -/
theorem exists_unfold_of_textOf {first second : Function} {parts parts' : EntityParts}
    (h : (lower first).result = .ok parts) (h' : (lower second).result = .ok parts') (hfloats : first.LacksFloats)
    (hfloats' : second.LacksFloats) {root root' : Node} (hroot : root ∈ parts.blocks) (hroot' : root' ∈ parts'.blocks)
    (htext : parts.ast.textOf none root = parts'.ast.textOf none root') :
    ∃ tree, parts.ast.unfold (fun _ => none) root = .ok tree ∧ parts'.ast.unfold (fun _ => none) root' = .ok tree := by
  obtain ⟨tree, hplain, hunfold, hwritten⟩ := exists_plain_of_lower h hfloats hroot
  obtain ⟨tree', hplain', hunfold', hwritten'⟩ := exists_plain_of_lower h' hfloats' hroot'
  rw [hwritten, hwritten', Except.ok.injEq] at htext
  obtain rfl := hplain.text_inj hplain' htext
  exact ⟨tree, hunfold, hunfold'⟩

/-- A block of which the texts hold quotes, backslashes, parentheses and line ends. -/
def intricate : Block :=
  ⟨"a) \"b\n", [{ opcode := "mix\\", result := some "x(", operands := [.str "1", .int 1, .null] }]⟩

def alone : Function := { name := "alone", returnType := "Int", blocks := [intricate] }

def preceded : Function :=
  { name := "preceded", returnType := "Int", blocks := [⟨"entry", [{ opcode := "return" }]⟩, intricate] }

theorem exists_unfold_of_textOf_intricate : ∃ parts parts' root root' tree,
    (lower alone).result = .ok parts ∧ (lower preceded).result = .ok parts' ∧
      root ∈ parts.blocks ∧ root' ∈ parts'.blocks ∧ root ≠ root' ∧
      parts.ast.unfold (fun _ => none) root = .ok tree ∧ parts'.ast.unfold (fun _ => none) root' = .ok tree := by
  let text := "(BLOCK_STMT\n  (LABEL \"a) \\\"b\\n\")\n  (ASSIGN (VAR \"x(\") (PRIMITIVE \"mix\\\\\" \"1\" 1 null)))"
  have halone : (lower alone).result.map (fun parts => (parts.blocks, parts.ast.textOf none ⟨10⟩)) =
      .ok ([⟨10⟩], .ok text) := by decide +kernel
  have hpreceded : (lower preceded).result.map (fun parts => (parts.blocks, parts.ast.textOf none ⟨14⟩)) =
      .ok ([⟨3⟩, ⟨14⟩], .ok text) := by decide +kernel
  obtain ⟨parts, hparts, hsame⟩ := map_eq_ok_iff.1 halone
  obtain ⟨hblocks, htext⟩ := Prod.mk.inj hsame
  obtain ⟨parts', hparts', hsame'⟩ := map_eq_ok_iff.1 hpreceded
  obtain ⟨hblocks', htext'⟩ := Prod.mk.inj hsame'
  have hroot : ⟨10⟩ ∈ parts.blocks := by rw [hblocks]; decide
  have hroot' : ⟨14⟩ ∈ parts'.blocks := by rw [hblocks']; decide
  obtain ⟨tree, hunfold, hunfold'⟩ := exists_unfold_of_textOf hparts hparts' (by simp [Function.LacksFloats, alone, intricate])
    (by simp [Function.LacksFloats, preceded, intricate]) hroot hroot' (htext.trans htext'.symm)
  exact ⟨parts, parts', _, _, tree, hparts, hparts', hroot, hroot', by decide, hunfold, hunfold'⟩

end Lowering

end FunctionTrees
