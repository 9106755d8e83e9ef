import FunctionTrees.Proofs.Lowering.Refinement

/-!
# Lowered functions stand for their trees, noted with spans

* `Span.ofLocated`, `located?_ofLocated`, `ofLocated_of_located?` : a sound span is known by its extent of the file;
* `noteTree`, `Instruction.notedTrees`, `Block.notedTree` : the trees of a function with the spans of its instructions;
* `note_of_shows` : a recorded position notes the span that it shows;
* `lower_unfold_noted` : the roots of a lowered function unfold to the noted trees of its blocks.
-/

set_option autoImplicit false

namespace FunctionTrees

open Transfer

/-! ## Spans -/

namespace Transfer.Span

/-- The span that reports an extent of a file. -/
def ofLocated (located : FileSpan) : Span :=
  ⟨located.file, located.extent.firstLine, located.extent.firstCol, located.extent.lastLine, located.extent.lastCol⟩

theorem located?_ofLocated (located : FileSpan) : (ofLocated located).located? = some located := by
  obtain ⟨file, extent⟩ := located
  have hextent : Extent.ofBounds? extent.firstLine extent.firstCol extent.lastLine extent.lastCol = some extent :=
    dif_pos ⟨extent.one_le, extent.ordered⟩
  exact congrArg (Option.map (Located.mk file)) hextent

theorem ofLocated_of_located? {span : Span} {located : FileSpan} (h : span.located? = some located) :
    ofLocated located = span := by
  obtain ⟨hfile, hfirstLine, hfirstCol, hlastLine, hlastCol⟩ := Lowering.Sited.fields h
  rw [ofLocated, hfile, hfirstLine, hfirstCol, hlastLine, hlastCol]

end Transfer.Span

/-! ## Noted trees -/

namespace Transfer

def noteTree (position : Option Span) (tree : Tree) : Tree :=
  match position.bind Span.located? with
  | some located => .noted tree located
  | none => tree

/-- The trees of the statements of a sound instruction, with its span. -/
def Instruction.notedTrees (inst : Instruction) : List Tree := inst.trees.map (noteTree inst.position)

def Block.notedTree (block : Block) : Tree :=
  .node .block (.named .label block.label :: block.instructions.flatMap Instruction.notedTrees)

end Transfer

namespace Lowering

/-! ## Notes -/

/-- A recorded position notes the span that it shows. -/
theorem note_of_shows {ast : Ast} {span : Option Span} {position : Option Position}
    (h : Option.Rel ast.Shows span position) (tree : Tree) : ast.note position tree = .ok (noteTree span tree) := by
  cases h with
  | none => rfl
  | @some span position hshows =>
    have hspan : Span.ofLocated ⟨span.file, position.extent⟩ = span := by
      rw [Span.ofLocated, hshows.firstLine, hshows.firstCol, hshows.lastLine, hshows.lastCol]
    have hlocated : (some span).bind Span.located? = some ⟨span.file, position.extent⟩ := by
      rw [← Span.located?_ofLocated ⟨span.file, position.extent⟩, hspan]
      rfl
    have hresolve : position.resolve ast.strings = .ok ⟨span.file, position.extent⟩ :=
      Outcome.map_eq_ok_iff.2 ⟨span.file, StringPool.fetch_eq_ok_iff.2 hshows.file, rfl⟩
    rw [noteTree, hlocated, Ast.note, hresolve]
    rfl

/-- The statements of an instruction are noted with its span. -/
theorem InstructionBuilt.noted {parts : EntityParts} {inst : Instruction} {nodes : List Node}
    (h : InstructionBuilt parts inst nodes) :
    List.Forall₂ (fun node result => ∃ tree, parts.ast.Stands node tree ∧
      parts.ast.note (parts.positions.get? node) tree = .ok result) nodes inst.notedTrees := by
  obtain ⟨position, hshows, hmarked⟩ := h.marked
  have hposition : ∀ node ∈ nodes, parts.positions.get? node = position :=
    fun node hmem => (hmarked node hmem node (.self node)).1 (h.inner node hmem)
  rw [Instruction.notedTrees, List.forall₂_map_right_iff]
  refine ((List.forall₂_and_left _ _).2 ⟨hposition, h.stands⟩).imp fun node tree hnode => ?_
  refine ⟨tree, hnode.2, ?_⟩
  rw [hnode.1]
  exact note_of_shows hshows tree

/-- The root of a block unfolds to the noted tree of the block. -/
theorem BlockBuilt.unfold_noted {parts : EntityParts} {block : Block} {root label : Node}
    {segments : List (List Node)} (h : BlockBuilt parts block root label segments) (hclosed : parts.ast.Closed) :
    parts.ast.unfold parts.positions.get? root = .ok block.notedTree := by
  apply Ast.unfold_block h.data hclosed
  refine .cons ⟨_, h.label_stands, ?_⟩ ?_
  · obtain ⟨children, hlabel⟩ := h.label_stands.exists_children
    have hinner : parts.ast.Inner label := (Ast.inner_iff hlabel).2 rfl
    have hunmarked : parts.positions.get? label = none :=
      (h.label_marked label (List.mem_singleton_self label) label (.self label)).1 hinner
    rw [hunmarked]
    rfl
  · rw [List.flatMap_def]
    apply List.rel_flatten
    rw [List.forall₂_map_right_iff]
    exact (h.instructions.imp fun _ _ hinst => hinst.noted).flip

/-- One root stands for each block, and unfolds to the tree of the block with the spans of its instructions. -/
theorem lower_unfold_noted {function : Function} {parts : EntityParts} (h : (lower function).result = .ok parts) :
    parts.blocks.mapM (parts.ast.unfold parts.positions.get?) = .ok (function.blocks.map Block.notedTree) := by
  have hbuilt := functionBuilt_of_lower h
  rw [Outcome.mapM_eq_ok_iff, List.forall₂_map_right_iff]
  apply List.Forall₂.flip
  apply hbuilt.blocks.imp
  rintro block root ⟨label, segments, hblock⟩
  exact hblock.unfold_noted hbuilt.covers.sound.closed

end Lowering

end FunctionTrees
