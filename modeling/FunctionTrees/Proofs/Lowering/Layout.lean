import FunctionTrees.Proofs.Lowering.Reference

/-!
# Where the parts of a function lie in its tree

* `Locates ast span position` : `position` is `span`, with its file as a string of the tree;
* `Marked b tops position` : the inner nodes under `tops` have this position, the leaves none;
* `Lays act roots R` : run between instructions, `act` covers `roots` and leaves `R`; `Lays.mapM`;
* `InstructionLaid`, `BlockLaid`, `PlanLaid` : an instruction, a block, a plan has been built, and where;
* `lays_instruction`, `lays_block`, `lays_plan` : what the build of a plan does.
-/

set_option autoImplicit false

namespace FunctionTrees

/-! ## Positions in a tree -/

/-- `position` is `span`, with its file as a string of the tree. -/
def Ast.Locates (ast : Ast) (span : FileSpan) (position : Position) : Prop :=
  position.resolve ast.strings = .ok span

namespace Builder

/-- The inner nodes under `tops` have this position, the leaves none. -/
def Marked (b : Builder) (tops : List Node) (position : Option Position) : Prop :=
  ∀ top ∈ tops, ∀ node, b.ast.Below top node →
    (b.ast.Inner node → b.positions.get? node = position) ∧ (¬ b.ast.Inner node → b.positions.get? node = none)

theorem Grows.marked {b b' : Builder} {roots : List Node} {trees : List Tree} (h : b.Grows b' roots trees) :
    b'.Marked roots b.current := by
  intro top htop node hbelow
  have hnew := (h.below_iff.1 ⟨top, htop, hbelow⟩).1
  exact ⟨h.stamped node hnew, h.bare node hnew⟩

theorem Keeps.marked {b b' : Builder} {tops : List Node} {position : Option Position} (h : b.Keeps b')
    (hsound : b.Sound) (htops : ∀ top ∈ tops, top.index < b.ast.size) (hmarked : b.Marked tops position) :
    b'.Marked tops position := by
  intro top htop node hbelow
  have hlt := htops top htop
  have hold := (h.grown.below_iff hsound.closed hlt).1 hbelow
  have hnode : node.index < b.ast.size := Nat.lt_of_le_of_lt (hsound.closed.le_of_below hold) hlt
  rw [h.kept node hnode, h.grown.inner_iff hnode]
  exact hmarked top htop node hold

end Builder

/-! ## Actions between instructions -/

namespace Build

variable {α β γ : Type}

/-- Where no position is current, `act` makes the nodes under `roots`, leaves no position current, and `R` holds. -/
def Lays (act : Build α) (roots : α → List Node) (R : Builder → α → Prop) : Prop :=
  ∀ b : Builder, b.Sound → b.current = none →
    b.Covers (act.run b).2 (roots (act.run b).1) ∧ (act.run b).2.current = none ∧ R (act.run b).2 (act.run b).1

/-- `R` stays true while the builder goes on. -/
def Lasting (R : Builder → α → Prop) : Prop :=
  ∀ (b b' : Builder) (value : α), b.Sound → b.Keeps b' → R b value → R b' value

theorem Lays.mapM {f : α → Build β} {roots : β → List Node} {R : α → Builder → β → Prop}
    (hf : ∀ item, (f item).Lays roots (R item)) (hlasting : ∀ item, Lasting (R item)) (items : List α) :
    (items.mapM f).Lays (fun values => values.flatMap roots)
      fun b values => List.Forall₂ (fun item value => R item b value) items values := by
  induction items with
  | nil =>
    intro b hsound hcurrent
    exact ⟨.refl hsound, hcurrent, .nil⟩
  | cons item items ih =>
    intro b hsound hcurrent
    rw [List.mapM_cons, run_bind, run_bind]
    obtain ⟨hcovers, hnone, hhead⟩ := hf item b hsound hcurrent
    obtain ⟨hrest, hnone', htail⟩ := ih _ hcovers.sound hnone
    exact ⟨hcovers.append hrest, hnone', .cons (hlasting item _ _ _ hcovers.sound hrest.toKeeps hhead) htail⟩

theorem lays_place (span : FileSpan) :
    (place span).Lays (fun _ => []) fun b position => b.ast.Locates span position := by
  intro b hsound hcurrent
  have hgrows := grows_intern span.file hsound
  refine ⟨hgrows.toCovers, hgrows.current.trans hcurrent, ?_⟩
  exact Outcome.map_eq_ok_iff.2 ⟨span.file, string_intern span.file b, rfl⟩

theorem lasting_locates (span : FileSpan) : Lasting fun b position => b.ast.Locates span position :=
  fun _ _ _ _ hkeeps hlocates => hkeeps.grown.resolve hlocates

theorem lays_place? (span : Option FileSpan) :
    (span.mapM place).Lays (fun _ => []) fun b position => Option.Rel b.ast.Locates span position := by
  intro b hsound hcurrent
  cases span with
  | none => exact ⟨.refl hsound, hcurrent, .none⟩
  | some span =>
    obtain ⟨hcovers, hnone, hlocates⟩ := lays_place span b hsound hcurrent
    exact ⟨hcovers, hnone, .some hlocates⟩

theorem lasting_locates? (span : Option FileSpan) : Lasting fun b position => Option.Rel b.ast.Locates span position := by
  intro b b' position _ hkeeps hrel
  cases hrel with
  | none => exact .none
  | some hlocates => exact .some (hkeeps.grown.resolve hlocates)

end Build

namespace Lowering

open Build

/-! ## Instructions -/

/-- The statements of an instruction have been built under `nodes`, at the position of the instruction. -/
structure InstructionLaid (b : Builder) (inst : PlannedInstruction) (nodes : List Node) : Prop where
  stands : List.Forall₂ b.ast.Stands nodes (inst.statements.map Statement.tree)
  marked : ∃ position, Option.Rel b.ast.Locates inst.position position ∧ b.Marked nodes position

theorem InstructionLaid.lt_size {b : Builder} {inst : PlannedInstruction} {nodes : List Node}
    (h : InstructionLaid b inst nodes) : ∀ node ∈ nodes, node.index < b.ast.size := by
  intro node hmem
  obtain ⟨index, hindex, rfl⟩ := List.mem_iff_getElem.1 hmem
  exact (h.stands.get hindex (h.stands.length_eq ▸ hindex)).lt_size

theorem InstructionLaid.lasting (inst : PlannedInstruction) : Lasting fun b nodes => InstructionLaid b inst nodes := by
  intro b b' nodes hsound hkeeps h
  obtain ⟨position, hlocates, hmarked⟩ := h.marked
  exact ⟨h.stands.imp fun _ _ => Ast.Stands.extends hkeeps.grown, position,
    lasting_locates? inst.position b b' position hsound hkeeps hlocates,
    hkeeps.marked hsound h.lt_size hmarked⟩

theorem lays_instruction (inst : PlannedInstruction) :
    inst.build.Lays (fun nodes => nodes) fun b nodes => InstructionLaid b inst nodes := by
  intro b hsound hcurrent
  obtain ⟨hplaced, -, hlocates⟩ := lays_place? inst.position b hsound hcurrent
  -- the span is current while the statements are built, and no longer
  have hgrows := makesAll_mapM Statement.makes_build inst.statements
    { ((inst.position.mapM place).run b).2 with current := ((inst.position.mapM place).run b).1 }
    (hplaced.sound.at _ _)
  have hcovers : Builder.Covers ((inst.position.mapM place).run b).2 (inst.build.run b).2 (inst.build.run b).1 :=
    hgrows.toCovers.at_ _ none
  refine ⟨hplaced.append hcovers, rfl, hgrows.stands, ((inst.position.mapM place).run b).1, ?_, hgrows.marked⟩
  exact lasting_locates? inst.position _ _ _ hplaced.sound hcovers.toKeeps hlocates

/-! ## Blocks -/

/-- The label of a block has been built under `label`, and its instructions over the nodes of `segments`. -/
structure BodyLaid (b : Builder) (block : PlannedBlock) (label : Node) (segments : List (List Node)) : Prop where
  label_stands : b.ast.Stands label (.named .label block.label)
  label_marked : b.Marked [label] none
  instructions : List.Forall₂ (InstructionLaid b) block.instructions segments

theorem BodyLaid.keeps {b b' : Builder} {block : PlannedBlock} {label : Node} {segments : List (List Node)}
    (h : BodyLaid b block label segments) (hsound : b.Sound) (hkeeps : b.Keeps b') :
    BodyLaid b' block label segments := by
  refine ⟨h.label_stands.extends hkeeps.grown, hkeeps.marked hsound ?_ h.label_marked, ?_⟩
  · intro top htop
    rw [List.mem_singleton.1 htop]
    exact h.label_stands.lt_size
  · exact h.instructions.imp fun inst nodes => InstructionLaid.lasting inst b b' nodes hsound hkeeps

structure BlockLaid (b : Builder) (block : PlannedBlock) (root label : Node) (segments : List (List Node)) : Prop
    extends BodyLaid b block label segments where
  data : b.ast.data root = .ok (.interior .block (label :: segments.flatten))
  unmarked : b.positions.get? root = none

theorem BlockLaid.lasting (block : PlannedBlock) :
    Lasting fun b root => ∃ label segments, BlockLaid b block root label segments := by
  rintro b b' root hsound hkeeps ⟨label, segments, h⟩
  refine ⟨label, segments, h.toBodyLaid.keeps hsound hkeeps, hkeeps.grown.data h.data, ?_⟩
  rw [hkeeps.kept root (Ast.lt_size_of_data h.data), h.unmarked]

theorem lays_block (block : PlannedBlock) :
    block.build.Lays (fun root => [root]) fun b root => ∃ label segments, BlockLaid b block root label segments := by
  intro b hsound hcurrent
  have hlabel := makes_label block.label b hsound
  obtain ⟨hcovers, hnone, hlaid⟩ := Lays.mapM lays_instruction InstructionLaid.lasting block.instructions
    ((Build.label block.label).run b).2 hlabel.sound (hlabel.current.trans hcurrent)
  have hall := hlabel.toCovers.append hcovers
  rw [PlannedBlock.build, run_bind, run_bind, Build.block, run_interior rfl]
  generalize (Build.label block.label).run b = labelled at *
  generalize (block.instructions.mapM PlannedInstruction.build).run labelled.2 = body at *
  have hbody : BodyLaid body.2 block labelled.1 body.1 := by
    have hstands := (List.forall₂_cons.1 hlabel.stands).1
    have hmarked := hlabel.marked
    rw [hcurrent] at hmarked
    refine ⟨hstands.extends hcovers.grown, hcovers.toKeeps.marked hlabel.sound ?_ hmarked, hlaid⟩
    exact fun top htop => (hlabel.toCovers.mem_roots htop).2
  refine ⟨hall.store ?_, hnone, labelled.1, body.1, ?_⟩
  · simp [NodeData.children, List.flatMap_id']
  · exact ⟨hbody.keeps hall.sound (body.2.keeps_store _), body.2.data_store _, by rw [hall.sound.get?_store, hnone]; rfl⟩

/-! ## Plans -/

structure PlanLaid (b : Builder) (plan : Plan) (built : Built) : Prop where
  position : Option.Rel b.ast.Locates plan.position built.position
  argumentPositions : List.Forall₂ b.ast.Locates plan.argumentPositions built.argumentPositions
  blocks : List.Forall₂ (fun block root => ∃ label segments, BlockLaid b block root label segments)
    plan.blocks built.blocks

theorem lays_plan (plan : Plan) : plan.build.Lays Built.blocks fun b built => PlanLaid b plan built := by
  intro b hsound hcurrent
  obtain ⟨hcovers, hnone, hposition⟩ := lays_place? plan.position b hsound hcurrent
  obtain ⟨hcovers', hnone', harguments⟩ :=
    Lays.mapM lays_place lasting_locates plan.argumentPositions _ hcovers.sound hnone
  obtain ⟨hcovers'', hnone'', hblocks⟩ :=
    Lays.mapM lays_block BlockLaid.lasting plan.blocks _ hcovers'.sound hnone'
  have hkeeps := (hcovers'.append hcovers'').toKeeps
  rw [Plan.build, run_bind, run_bind, run_bind]
  refine ⟨?_, hnone'', lasting_locates? plan.position _ _ _ hcovers.sound hkeeps hposition, ?_, hblocks⟩
  · have hall := (hcovers.append hcovers').append hcovers''
    -- positions have no nodes
    simp only [List.flatMap_eq_nil_iff.2 fun _ _ => rfl, List.flatMap_singleton', List.nil_append] at hall
    exact hall
  · exact harguments.imp fun span position => lasting_locates span _ _ position hcovers'.sound hcovers''.toKeeps

end Lowering

end FunctionTrees
