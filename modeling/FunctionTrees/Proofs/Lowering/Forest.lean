import FunctionTrees.Proofs.Ast.Mentions
import FunctionTrees.Proofs.Lowering.Order
import FunctionTrees.Proofs.Lowering.Refinement

/-!
# Lowered functions as forests

* `nodup_keysBetween`, `Ast.parent_unique` : where no node is a child twice, it has one parent;
* `Statement.pays_build`, `owes_instruction`, `stacking_block_owing`, `owes_plan` : all strings that are taken in are used;
* `EntityParts.Mentions symbol` : something in the parts refers to the string;
* `EntityParts.Forest` : the blocks share no node, leave none out, and neither is there a string without use;
* `forest_of_lower` : the parts of a lowered function are such a forest.
-/

set_option autoImplicit false

namespace FunctionTrees

/-! ## Parents -/

theorem nodup_keysBetween (low high : Nat) : (keysBetween low high).Nodup := by
  apply List.Nodup.map _ List.nodup_range'
  intro index other h
  exact congrArg Node.index h

namespace Ast

/-- Where no node is a child twice, it has one parent. -/
theorem parent_unique {ast : Ast} (h : (ast.childrenFrom 0).Nodup) {parent other node : Node} {data data' : NodeData}
    (hdata : ast.data parent = .ok data) (hmem : node ∈ data.children) (hdata' : ast.data other = .ok data')
    (hmem' : node ∈ data'.children) : parent = other := by
  rw [childrenFrom, List.drop_zero, List.nodup_flatMap] at h
  have hapart := List.pairwise_iff_getElem.1 h.2
  obtain ⟨hlt, hget⟩ := List.getElem?_eq_some_iff.1 (data_eq_ok_iff.1 hdata)
  obtain ⟨hlt', hget'⟩ := List.getElem?_eq_some_iff.1 (data_eq_ok_iff.1 hdata')
  rcases Nat.lt_trichotomy parent.index other.index with hbefore | hsame | hafter
  · have hdisjoint := hapart parent.index other.index hlt hlt' hbefore
    rw [hget, hget'] at hdisjoint
    exact absurd hmem' (hdisjoint hmem)
  · exact Node.ext_index hsame
  · have hdisjoint := hapart other.index parent.index hlt' hlt hafter
    rw [hget, hget'] at hdisjoint
    exact absurd hmem (hdisjoint hmem')

end Ast

namespace Lowering

open Build

/-! ## Strings -/

theorem pays_buildOperand (operand : Transfer.Operand) : (buildOperand operand).Pays := by
  cases operand with
  | var name => exact pays_var name
  | str text => exact pays_string text
  | _ => exact pays_constant _

theorem Expr.pays_build (value : Expr) : value.build.Pays := by
  cases value with
  | binary op lhs rhs =>
    exact (pays_buildOperand lhs).bind fun left => (pays_buildOperand rhs).bind fun right => pays_binary op left right
  | unary op operand => exact (pays_buildOperand operand).bind fun node => pays_unary op node
  | primitive name operands =>
    exact (Pays.mapM pays_buildOperand operands).bind fun nodes => pays_primitive name nodes
  | call target args =>
    exact (pays_buildOperand target).bind fun node =>
      (Pays.mapM pays_buildOperand args).bind fun nodes => pays_call node nodes

theorem pays_buildBinding (name : String) (value : Node) : (buildBinding name value).Pays :=
  (pays_var name).bind fun node => pays_interior rfl [node, value]

theorem Statement.pays_build (statement : Statement) : statement.build.Pays := by
  cases statement with
  | assign name value => exact (pays_buildOperand value).bind fun node => pays_buildBinding name node
  | bind name value => exact value.pays_build.bind fun node => pays_buildBinding name node
  | eval value => exact value.pays_build
  | ret value =>
    cases value with
    | none => exact pays_ret none
    | some value => exact (pays_buildOperand value).bind fun node => pays_ret (some node)
  | goto target => exact pays_goto target
  | ifGoto condition target => exact (pays_buildOperand condition).bind fun node => pays_ifGoto node target

section Owing

variable {b : Builder} {debts : List Symbol}

/-- A file that is taken in is owed, until a node has its position. -/
theorem owes_place (span : FileSpan) (h : b.Owes debts) :
    ((place span).run b).2.Owes (((place span).run b).1.file :: debts) :=
  h.intern span.file

theorem owes_place? (span : Option FileSpan) (h : b.Owes debts) :
    ((span.mapM place).run b).2.Owes (((span.mapM place).run b).1.toList.map Located.file ++ debts) := by
  cases span with
  | none => exact h
  | some span => exact owes_place span h

theorem owes_places (spans : List FileSpan) (h : b.Owes debts) :
    ((spans.mapM place).run b).2.Owes (((spans.mapM place).run b).1.map Located.file ++ debts) := by
  induction spans generalizing b debts with
  | nil => exact h
  | cons span spans ih =>
    rw [List.mapM_cons, run_bind, run_bind]
    have hrest := ih (owes_place span h)
    exact hrest.mono fun symbol hmem => .inl (List.perm_middle.mem_iff.1 hmem)

/-- The file of an instruction is the one of its nodes, of which there is at least one. -/
theorem owes_instruction (inst : PlannedInstruction) (hstatements : inst.statements ≠ []) (hsound : b.Sound)
    (hidle : Idle b) (h : b.Owes debts) : (inst.build.run b).2.Owes debts := by
  obtain ⟨-, hstacks⟩ := stacking_of_lays (lays_place? inst.position) b hsound hidle
  have howes := owes_place? inst.position h
  -- the builder while the statements are built, before and after
  let before : Builder :=
    { ((inst.position.mapM place).run b).2 with current := ((inst.position.mapM place).run b).1 }
  let built := (inst.statements.mapM Statement.build).run before
  have hgrows : before.Grows built.2 built.1 (inst.statements.map Statement.tree) :=
    makesAll_mapM Statement.makes_build inst.statements before (hstacks.sound.at _ _)
  have howes' := Pays.mapM Statement.pays_build inst.statements before _ (howes.congr rfl rfl rfl)
  have hdone : built.2.Owes debts := by
    cases hposition : ((inst.position.mapM place).run b).1 with
    | none =>
      rw [hposition] at howes'
      exact howes'
    | some position =>
      rw [hposition] at howes'
      obtain ⟨statement, statements, hcons⟩ := List.exists_cons_of_ne_nil hstatements
      have hstands := hgrows.stands
      rw [hcons, List.map_cons] at hstands
      obtain ⟨node, nodes, hnode, -, hnodes⟩ := List.forall₂_cons_right_iff.1 hstands
      have hmem : node ∈ built.1 := hnodes ▸ List.mem_cons_self
      have hnew := (hgrows.toCovers.mem_roots hmem).1
      have hmarked := hgrows.stamped node hnew (Statement.inner_of_stands hnode)
      exact howes'.settle_position (hmarked.trans hposition)
  exact hdone.congr rfl rfl rfl

/-- Between instructions, with these debts. -/
def IdleOwing (debts : List Symbol) (b : Builder) : Prop := Idle b ∧ b.Owes debts

theorem stacking_instruction_owing (inst : PlannedInstruction) (hstatements : inst.statements ≠ []) :
    inst.build.Stacking (IdleOwing debts) fun nodes => nodes := by
  rintro b hsound ⟨hidle, howes⟩
  obtain ⟨hidle', hstacks⟩ := stacking_instruction inst b hsound hidle
  exact ⟨⟨hidle', owes_instruction inst hstatements hsound hidle howes⟩, hstacks⟩

theorem stacking_block_owing (block : PlannedBlock) (hstatements : ∀ inst ∈ block.instructions, inst.statements ≠ []) :
    block.build.Stacking (IdleOwing debts) fun root => [root] := by
  rintro b hsound ⟨hidle, howes⟩
  obtain ⟨hidle', hstacks⟩ := stacking_block block b hsound hidle
  refine ⟨⟨hidle', ?_⟩, hstacks⟩
  have hlabel := makes_label block.label b hsound
  obtain ⟨⟨-, hbody⟩, -⟩ :=
    Stacking.mapM (fun inst hmem => stacking_instruction_owing inst (hstatements inst hmem)) _ hlabel.sound
      ⟨hlabel.current.trans hidle, pays_label block.label b debts howes⟩
  exact pays_interior rfl _ _ debts hbody

/-- The files of the function and of its arguments are all that is owed in the end. -/
theorem owes_plan (plan : Plan)
    (hstatements : ∀ block ∈ plan.blocks, ∀ inst ∈ block.instructions, inst.statements ≠ []) :
    (plan.build.run {}).2.Owes ((plan.build.run {}).1.argumentPositions.map Located.file ++
      (plan.build.run {}).1.position.toList.map Located.file) := by
  obtain ⟨hidle₁, hposition⟩ := stacking_of_lays (lays_place? plan.position) {} Builder.sound_empty rfl
  have howes₁ := owes_place? plan.position Builder.owes_empty
  obtain ⟨hidle₂, harguments⟩ :=
    Stacking.mapM (fun span (_ : span ∈ plan.argumentPositions) => stacking_of_lays (lays_place span)) _
      hposition.sound hidle₁
  have howes₂ := owes_places plan.argumentPositions howes₁
  obtain ⟨⟨-, howes₃⟩, -⟩ :=
    Stacking.mapM (fun block hmem => stacking_block_owing block (hstatements block hmem)) _ harguments.sound
      ⟨hidle₂, howes₂⟩
  rw [List.append_nil] at howes₃
  exact howes₃

end Owing

end Lowering

/-! ## Forests -/

namespace EntityParts

/-- A constant refers to the string, or the position of a node, of an argument or of the function. -/
def Mentions (parts : EntityParts) (symbol : Symbol) : Prop :=
  (∃ node, parts.ast.data node = .ok (.constant (.str symbol))) ∨
    (∃ node position, parts.positions.get? node = some position ∧ position.file = symbol) ∨
    (∃ position ∈ parts.argumentPositions, position.file = symbol) ∨
    ∃ position ∈ parts.position, position.file = symbol

/-- The blocks share no node and leave none out, and neither is there a string without use. -/
structure Forest (parts : EntityParts) : Prop where
  /-- The roots come in the order of their keys. -/
  increasing : parts.blocks.Pairwise fun root next => root.index < next.index
  /-- The root of a block is no child. -/
  roots : ∀ root ∈ parts.blocks, ∀ parent children, parts.ast.children parent = .ok children → root ∉ children
  /-- Any other node is a child of one node, and once. -/
  others : ∀ node, parts.ast.contains node → node ∉ parts.blocks →
    ∃ parent children, parts.ast.children parent = .ok children ∧ children.count node = 1 ∧
      ∀ other siblings, parts.ast.children other = .ok siblings → node ∈ siblings → other = parent
  /-- Children come before their parent. -/
  before : ∀ parent children, parts.ast.children parent = .ok children → ∀ child ∈ children, child.index < parent.index
  /-- Under the first root are the keys up to its own. -/
  first : ∀ root, parts.blocks[0]? = some root → ∀ node, parts.ast.Below root node ↔ node.index ≤ root.index
  /-- Under each further root are the keys after the root before it, up to its own. -/
  next : ∀ (index : Nat) (root next : Node), parts.blocks[index]? = some root → parts.blocks[index + 1]? = some next →
    ∀ node, parts.ast.Below next node ↔ root.index < node.index ∧ node.index ≤ next.index
  /-- Each node is under a root, and under no other. -/
  parted : ∀ node, parts.ast.contains node ↔
    ∃! index : Nat, ∃ root, parts.blocks[index]? = some root ∧ parts.ast.Below root node
  /-- Each string is used. -/
  strings : ∀ symbol : Symbol, symbol.index < parts.ast.strings.size → parts.Mentions symbol

end EntityParts

namespace Lowering

variable {function : Transfer.Function} {parts : EntityParts}

theorem FunctionBuilt.nodup (h : FunctionBuilt function parts) :
    (parts.blocks ++ parts.ast.childrenFrom 0).Nodup :=
  h.covers.parents.nodup_iff.2 (nodup_keysBetween _ _)

theorem FunctionBuilt.root_not_mem (h : FunctionBuilt function parts) {root : Node} (hroot : root ∈ parts.blocks)
    {parent : Node} {children : List Node} (hchildren : parts.ast.children parent = .ok children) :
    root ∉ children := by
  intro hmem
  obtain ⟨data, hdata, rfl⟩ := Ast.children_eq_ok_iff.1 hchildren
  have hchild := Ast.mem_childrenFrom.2 ⟨parent, data, Nat.zero_le _, hdata, hmem⟩
  exact (List.disjoint_of_nodup_append h.nodup) hroot hchild

theorem FunctionBuilt.one_parent (h : FunctionBuilt function parts) {node : Node} (hnode : parts.ast.contains node)
    (hroot : node ∉ parts.blocks) :
    ∃ parent children, parts.ast.children parent = .ok children ∧ children.count node = 1 ∧
      ∀ other siblings, parts.ast.children other = .ok siblings → node ∈ siblings → other = parent := by
  have hkey : node ∈ keysBetween 0 parts.ast.size := mem_keysBetween.2 ⟨Nat.zero_le _, Ast.contains_iff.1 hnode⟩
  have hnodup := (List.nodup_append.1 h.nodup).2.1
  rcases List.mem_append.1 (h.covers.parents.mem_iff.2 hkey) with hmem | hmem
  · exact absurd hmem hroot
  · obtain ⟨parent, data, -, hdata, hchild⟩ := Ast.mem_childrenFrom.1 hmem
    refine ⟨parent, data.children, Ast.children_eq_ok_iff.2 ⟨data, hdata, rfl⟩, ?_, ?_⟩
    · have hsingle : ∀ data ∈ parts.ast.nodes.toList, data.children.Nodup := by
        have hall := hnodup
        rw [Ast.childrenFrom, List.drop_zero, List.nodup_flatMap] at hall
        exact hall.1
      exact List.count_eq_one_of_mem (hsingle data (List.mem_of_getElem? (Ast.data_eq_ok_iff.1 hdata))) hchild
    · intro other siblings hsiblings hmem'
      obtain ⟨data', hdata', rfl⟩ := Ast.children_eq_ok_iff.1 hsiblings
      exact Ast.parent_unique hnodup hdata' hmem' hdata hchild

theorem mentions_of_lower (h : (lower function).result = .ok parts) {symbol : Symbol}
    (hlt : symbol.index < parts.ast.strings.size) : parts.Mentions symbol := by
  rw [result_lower] at h
  obtain ⟨plan, hplan, ⟨⟩⟩ := Outcome.bind_eq_ok_iff.1 h
  have hplanned := functionPlanned_of_planOf hplan
  have hstatements : ∀ block ∈ plan.blocks, ∀ inst ∈ block.instructions, inst.statements ≠ [] := by
    intro block hblock planned hinst
    obtain ⟨_, _, hmeans⟩ := hplanned.exists_means hblock hinst
    exact hmeans.ne_nil
  rcases (owes_plan plan hstatements).referred symbol hlt with hmem | hconstant | hposition
  · rcases List.mem_append.1 hmem with hargument | hfunction
    · obtain ⟨position, hposition, rfl⟩ := List.mem_map.1 hargument
      exact .inr (.inr (.inl ⟨position, hposition, rfl⟩))
    · obtain ⟨position, hposition, rfl⟩ := List.mem_map.1 hfunction
      exact .inr (.inr (.inr ⟨position, Option.mem_toList.1 hposition, rfl⟩))
  · exact .inl hconstant
  · exact .inr (.inl hposition)

theorem forest_of_lower (function : Transfer.Function) (parts : EntityParts) (h : (lower function).result = .ok parts) :
    parts.Forest := by
  have hbuilt := functionBuilt_of_lower h
  have hrows := (functionStacked_of_lower h).rows
  refine ⟨hrows.pairwise, ?_, ?_, ?_, ?_, ?_, ?_, ?_⟩
  · intro root hroot parent children hchildren
    exact hbuilt.root_not_mem hroot hchildren
  · intro node hnode hroot
    exact hbuilt.one_parent hnode hroot
  · intro parent children hchildren child hmem
    obtain ⟨data, hdata, rfl⟩ := Ast.children_eq_ok_iff.1 hchildren
    exact hbuilt.covers.sound.closed parent data hdata child hmem
  · intro root hroot node
    rw [hrows.first hroot]
    omega
  · intro index root next hroot hnext node
    exact hrows.next hroot hnext node
  · intro node
    constructor
    · intro hnode
      obtain ⟨root, hroot, hbelow⟩ := hrows.exists_below_iff.2 ⟨Nat.zero_le _, Ast.contains_iff.1 hnode⟩
      obtain ⟨index, hindex⟩ := List.mem_iff_getElem?.1 hroot
      refine ⟨index, ⟨root, hindex, hbelow⟩, ?_⟩
      rintro other ⟨root', hother, hbelow'⟩
      exact hrows.unique hother hindex hbelow' hbelow
    · rintro ⟨index, ⟨root, hroot, hbelow⟩, -⟩
      exact Ast.contains_iff.2 (hrows.exists_below_iff.1 ⟨root, List.mem_of_getElem? hroot, hbelow⟩).2
  · intro symbol hlt
    exact mentions_of_lower h hlt

theorem forest_sample : ∃ parts, (lower sample).result = .ok parts ∧ parts.Forest :=
  ⟨_, rfl, forest_of_lower sample _ rfl⟩

end Lowering

end FunctionTrees
