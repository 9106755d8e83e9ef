import FunctionTrees.Proofs.Lowering.Sources

/-!
# Control flow of lowered functions

* `Ast.JumpsTo node symbol`, `Ast.Opens root symbol` : the string that a jump goes to, and the one that a block opens
  with; `JumpsTo.unique`;
* `Statement.target?`, `Means.mem_targets_iff` : the label that a statement goes to is a target of its instruction;
* `jumpsTo_of_stands`, `target?_of_stands` : what a node of such a statement goes to;
* `BlockBuilt.opens_iff`, `BlockBuilt.exists_target`, `BlockBuilt.exists_jump` : the label and the jumps of a block;
* `EntityParts.Follows`, `Function.Follows` : the next blocks, read off the tree and off the instructions;
* `flowClosed_of_lower` : in a lowered function, all jumps go to blocks, and both say the same.
-/

set_option autoImplicit false

namespace FunctionTrees

open Transfer

/-! ## Jumps and labels -/

namespace Ast

variable {ast : Ast}

/-- The node goes to the label whose text is the string `symbol`: always, or where its condition holds. -/
inductive JumpsTo (ast : Ast) (node : Node) (symbol : Symbol) : Prop
  | goto {label : Node} (hdata : ast.data node = .ok (.interior .goto [label]))
      (hlabel : ast.data label = .ok (.constant (.str symbol)))
  | ifGoto {condition label : Node} (hdata : ast.data node = .ok (.interior .ifGoto [condition, label]))
      (hlabel : ast.data label = .ok (.constant (.str symbol)))

/-- The block under `root` opens with a label whose text is the string `symbol`. -/
def Opens (ast : Ast) (root : Node) (symbol : Symbol) : Prop :=
  ∃ label statements name, ast.data root = .ok (.interior .block (label :: statements)) ∧
    ast.data label = .ok (.interior .label [name]) ∧ ast.data name = .ok (.constant (.str symbol))

abbrev jumpKinds : List NodeKind := [.goto, .ifGoto]

theorem jumpKinds_apart {kind : NodeKind} (h : kind ∈ jumpKinds) :
    kind.isLeaf = false ∧ kind ≠ .var ∧ kind ≠ .label ∧ kind ≠ .block := by
  rcases List.mem_pair.1 h with rfl | rfl <;> decide

theorem JumpsTo.kind {node : Node} {symbol : Symbol} (h : ast.JumpsTo node symbol) :
    ∃ kind ∈ jumpKinds, ast.kind node = .ok kind := by
  cases h with
  | goto hdata => exact ⟨.goto, by simp, kind_eq_ok_iff.2 ⟨_, hdata, rfl⟩⟩
  | ifGoto hdata => exact ⟨.ifGoto, by simp, kind_eq_ok_iff.2 ⟨_, hdata, rfl⟩⟩

theorem JumpsTo.unique {node : Node} {symbol other : Symbol} (h : ast.JumpsTo node symbol)
    (h' : ast.JumpsTo node other) : symbol = other := by
  cases h with
  | goto hdata hlabel =>
    cases h' with
    | goto hdata' hlabel' =>
      cases hdata.symm.trans hdata'
      cases hlabel.symm.trans hlabel'
      rfl
    | ifGoto hdata' => cases hdata.symm.trans hdata'
  | ifGoto hdata hlabel =>
    cases h' with
    | goto hdata' => cases hdata.symm.trans hdata'
    | ifGoto hdata' hlabel' =>
      cases hdata.symm.trans hdata'
      cases hlabel.symm.trans hlabel'
      rfl

theorem Opens.unique {root : Node} {symbol other : Symbol} (h : ast.Opens root symbol) (h' : ast.Opens root other) :
    symbol = other := by
  obtain ⟨label, statements, name, hroot, hlabel, hname⟩ := h
  obtain ⟨label', statements', name', hroot', hlabel', hname'⟩ := h'
  cases hroot.symm.trans hroot'
  cases hlabel.symm.trans hlabel'
  cases hname.symm.trans hname'
  rfl

end Ast

/-! ## Next blocks -/

namespace EntityParts

def OpensAt (parts : EntityParts) (index : Nat) (symbol : Symbol) : Prop :=
  ∃ root, parts.blocks[index]? = some root ∧ parts.ast.Opens root symbol

/-- A node of the block with number `index` goes to the label of the block with number `next`. -/
def Follows (parts : EntityParts) (index next : Nat) : Prop :=
  ∃ root node symbol, parts.blocks[index]? = some root ∧ parts.ast.Below root node ∧ parts.ast.JumpsTo node symbol ∧
    parts.OpensAt next symbol

end EntityParts

/-- A branch of the block with number `index` has the label of the block with number `next` as a target. -/
def Transfer.Function.Follows (function : Function) (index next : Nat) : Prop :=
  ∃ block nextBlock inst, function.blocks[index]? = some block ∧ function.blocks[next]? = some nextBlock ∧
    inst ∈ block.instructions ∧ (inst.opcode = "br" ∨ inst.opcode = "cond_br") ∧ nextBlock.label ∈ inst.targets

namespace Lowering

variable {function : Function} {parts : EntityParts} {labels : List String}

/-! ## Statements that jump -/

def Statement.target? : Statement → Option String
  | goto label => some label
  | ifGoto _ label => some label
  | _ => none

/-- The statements of an instruction go to its targets. -/
theorem Means.mem_targets_iff {inst : Instruction} {statements : List Statement} (h : Means labels inst statements)
    {label : String} : label ∈ inst.targets ↔ ∃ statement ∈ statements, statement.target? = some label := by
  cases h with
  | call result target args => cases result <;> simp [deliver, Statement.target?]
  | operation result operands => cases result <;> simp [deliver, Statement.target?]
  | _ => simp [Statement.target?, eq_comm]

theorem Means.targets_subset {inst : Instruction} {statements : List Statement} (h : Means labels inst statements) :
    ∀ label ∈ inst.targets, label ∈ labels := by
  cases h with
  | br position htarget => simp [htarget]
  | condBr condition position htarget hotherwise => simp [htarget, hotherwise]
  | _ => simp

theorem Means.branch_of_target {inst : Instruction} {statements : List Statement} (h : Means labels inst statements)
    {label : String} (hlabel : label ∈ inst.targets) : inst.opcode = "br" ∨ inst.opcode = "cond_br" := by
  cases h with
  | br => exact .inl rfl
  | condBr => exact .inr rfl
  | _ => cases hlabel

theorem Expr.lacks_jumps (value : Expr) {kind : NodeKind} (hkind : kind ∈ Ast.jumpKinds) : value.tree.Lacks kind := by
  have hoperand (operand : Operand) : operand.tree.Lacks kind := operand.lacks_tree (Ast.jumpKinds_apart hkind).2.1
  rcases List.mem_pair.1 hkind with rfl | rfl <;> cases value <;> simp [Expr.tree, hoperand]

/-- Nothing under a statement jumps. -/
theorem Statement.exists_lacking (statement : Statement) {kind : NodeKind} (hkind : kind ∈ Ast.jumpKinds) :
    ∃ top trees, statement.tree = .node top trees ∧ ∀ tree ∈ trees, tree.Lacks kind := by
  have hvar : .var ≠ kind := (Ast.jumpKinds_apart hkind).2.1.symm
  have hoperand (operand : Operand) : operand.tree.Lacks kind := operand.lacks_tree hvar.symm
  cases statement with
  | eval value => cases value <;> exact ⟨_, _, rfl, by simp [hoperand]⟩
  | bind name value => exact ⟨_, _, rfl, by simp [hvar, value.lacks_jumps hkind]⟩
  | _ => exact ⟨_, _, rfl, by simp [hvar, hoperand]⟩

/-- A node of a statement that goes to a label goes to the string of that label. -/
theorem jumpsTo_of_stands (hclosed : parts.ast.Closed) {node : Node} {statement : Statement}
    (h : parts.ast.Stands node statement.tree) {label : String} (htarget : statement.target? = some label) :
    ∃ symbol, parts.ast.JumpsTo node symbol ∧ parts.ast.string? symbol = some label := by
  cases statement with
  | goto target =>
    cases htarget
    obtain ⟨child, symbol, hdata, hlabel, htext⟩ := h.exists_name hclosed
    exact ⟨symbol, .goto hdata hlabel, htext⟩
  | ifGoto condition target =>
    cases htarget
    obtain ⟨first, second, hdata, -, hsecond⟩ := h.exists_pair hclosed
    obtain ⟨symbol, hlabel, htext⟩ := hsecond.exists_symbol hclosed
    exact ⟨symbol, .ifGoto hdata hlabel, htext⟩
  | _ => cases htarget

/-- A node of a statement that jumps is one of a statement that goes to a label. -/
theorem target?_of_stands (hclosed : parts.ast.Closed) {node : Node} {statement : Statement}
    (h : parts.ast.Stands node statement.tree) {kind : NodeKind} (hkind : kind ∈ Ast.jumpKinds)
    (hnode : parts.ast.kind node = .ok kind) : ∃ label, statement.target? = some label := by
  obtain ⟨children, hdata⟩ := Ast.exists_children_of_kind (Ast.jumpKinds_apart hkind).1 hnode
  obtain ⟨trees, hsame, -⟩ := h.eq_node hclosed hdata
  cases statement with
  | goto target => exact ⟨target, rfl⟩
  | ifGoto condition target => exact ⟨target, rfl⟩
  | eval value => cases value <;> cases hsame <;> simp at hkind
  | _ =>
    cases hsame
    simp at hkind

/-! ## Blocks -/

namespace BlockBuilt

variable {block : Block} {root label : Node} {segments : List (List Node)}

theorem opens_iff (h : BlockBuilt parts block root label segments) (hclosed : parts.ast.Closed) {symbol : Symbol} :
    parts.ast.Opens root symbol ↔ parts.ast.string? symbol = some block.label := by
  obtain ⟨name, own, hlabel, hname, htext⟩ := h.label_stands.exists_name hclosed
  have hopens : parts.ast.Opens root own := ⟨label, _, name, h.data, hlabel, hname⟩
  constructor
  · intro hsymbol
    rw [hsymbol.unique hopens]
    exact htext
  · intro hsymbol
    rw [StringPool.symbol_unique hsymbol htext]
    exact hopens

/-- A jump in a block goes to a target of one of its instructions. -/
theorem exists_target (h : BlockBuilt parts block root label segments) (hclosed : parts.ast.Closed)
    (hmeans : ∀ inst ∈ block.instructions, ∃ statements, Means labels inst statements) {node : Node}
    (hbelow : parts.ast.Below root node) {kind : NodeKind} (hkind : kind ∈ Ast.jumpKinds)
    (hnode : parts.ast.kind node = .ok kind) :
    ∃ inst ∈ block.instructions, ∃ text ∈ inst.targets, ∃ symbol, parts.ast.JumpsTo node symbol ∧
      parts.ast.string? symbol = some text := by
  obtain ⟨hleaf, -, hlabel, hblock⟩ := Ast.jumpKinds_apart hkind
  rcases hbelow.eq_or_under h.data with rfl | ⟨child, hmem, hbelow⟩
  · rw [Ast.kind, h.data] at hnode
    exact absurd (Except.ok.inj hnode).symm hblock
  · rcases List.mem_cons.1 hmem with rfl | hmem
    · have hlacks : (Tree.named .label block.label).Lacks kind := Tree.lacks_named_iff.2 hlabel.symm
      exact absurd hnode (h.label_stands.kind_ne hclosed hleaf hlacks hbelow)
    · obtain ⟨nodes, hnodes, hmem⟩ := List.mem_flatten.1 hmem
      obtain ⟨inst, hzip, hinst⟩ := Outcome.exists_mem_zip_of_forall₂ h.instructions hnodes
      have hinstruction := (List.of_mem_zip hzip).1
      obtain ⟨statements, hsound⟩ := hmeans inst hinstruction
      obtain ⟨statement, hstatement, hstands⟩ := hinst.exists_statement hsound hmem
      -- of all that is under the statement, only the statement itself can jump
      obtain ⟨top, trees, htree, hlacks⟩ := statement.exists_lacking hkind
      obtain rfl := (htree ▸ hstands).eq_top hclosed hleaf hlacks hbelow hnode
      obtain ⟨text, htarget⟩ := target?_of_stands hclosed hstands hkind hnode
      exact ⟨inst, hinstruction, text, hsound.mem_targets_iff.2 ⟨statement, hstatement, htarget⟩,
        jumpsTo_of_stands hclosed hstands htarget⟩

/-- Each target of an instruction is jumped to in its block. -/
theorem exists_jump (h : BlockBuilt parts block root label segments) (hclosed : parts.ast.Closed) {inst : Instruction}
    (hinst : inst ∈ block.instructions) {statements : List Statement} (hmeans : Means labels inst statements)
    {text : String} (htext : text ∈ inst.targets) :
    ∃ node symbol, parts.ast.Below root node ∧ parts.ast.JumpsTo node symbol ∧
      parts.ast.string? symbol = some text := by
  obtain ⟨nodes, hnodes, hbuilt⟩ := Outcome.exists_mem_of_forall₂ h.instructions hinst
  obtain ⟨statement, hstatement, htarget⟩ := hmeans.mem_targets_iff.1 htext
  obtain ⟨node, hnode, hstands⟩ := hbuilt.exists_node hmeans hstatement
  obtain ⟨symbol, hjumps, hsymbol⟩ := jumpsTo_of_stands hclosed hstands htarget
  have hchild := List.mem_cons_of_mem label (List.mem_flatten.2 ⟨nodes, hnodes, hnode⟩)
  exact ⟨node, symbol, .under h.children hchild (.self node), hjumps, hsymbol⟩

end BlockBuilt

/-! ## Functions -/

/-- All jumps go to blocks, and from block to block they go as the instructions say. -/
structure FlowClosed (function : Function) (parts : EntityParts) : Prop where
  /-- Each jump goes to the label of one block. -/
  jumps : ∀ node, parts.ast.kind node = .ok .goto ∨ parts.ast.kind node = .ok .ifGoto →
    ∃ symbol, parts.ast.JumpsTo node symbol ∧ ∃! index, parts.OpensAt index symbol
  follows_iff : ∀ index next, parts.Follows index next ↔ function.Follows index next

/-- The block with some number opens with a symbol exactly if its label is the text of that symbol. -/
theorem opensAt_iff (hbuilt : FunctionBuilt function parts) {index : Nat} {symbol : Symbol} :
    parts.OpensAt index symbol ↔
      ∃ block, function.blocks[index]? = some block ∧ parts.ast.string? symbol = some block.label := by
  have hclosed := hbuilt.covers.sound.closed
  constructor
  · rintro ⟨root, hroot, hopens⟩
    obtain ⟨block, hblock, label, segments, hbuilt⟩ := Outcome.exists_of_forall₂ hbuilt.blocks.flip hroot
    exact ⟨block, hblock, (hbuilt.opens_iff hclosed).1 hopens⟩
  · rintro ⟨block, hblock, htext⟩
    obtain ⟨root, hroot, label, segments, hbuilt⟩ := Outcome.exists_of_forall₂ hbuilt.blocks hblock
    exact ⟨root, hroot, (hbuilt.opens_iff hclosed).2 htext⟩

theorem existsUnique_opensAt (h : (lower function).result = .ok parts) {symbol : Symbol} {text : String}
    (hsymbol : parts.ast.string? symbol = some text) (htext : text ∈ function.labels) :
    ∃! index, parts.OpensAt index symbol := by
  have hnodup : function.labels.Nodup := ((exists_lower_iff function).1 ⟨parts, h⟩).labels
  have hopens (index : Nat) : parts.OpensAt index symbol ↔ function.labels[index]? = some text := by
    rw [opensAt_iff (functionBuilt_of_lower h), hsymbol, Function.labels, List.getElem?_map, Option.map_eq_some_iff]
    simp [eq_comm]
  simp only [hopens]
  obtain ⟨index, hindex⟩ := List.mem_iff_getElem?.1 htext
  obtain ⟨hlt, hget⟩ := List.getElem?_eq_some_iff.1 hindex
  refine ⟨index, hindex, fun other hother => ?_⟩
  obtain ⟨hlt', hget'⟩ := List.getElem?_eq_some_iff.1 hother
  exact (List.getElem_inj hnodup).1 (hget'.trans hget.symm)

/-- A jump in a block of a lowered function goes to a target of an instruction of that block. -/
theorem exists_target_of_lower (h : (lower function).result = .ok parts) {index : Nat} {root node : Node}
    (hroot : parts.blocks[index]? = some root) (hbelow : parts.ast.Below root node) {kind : NodeKind}
    (hkind : kind ∈ Ast.jumpKinds) (hnode : parts.ast.kind node = .ok kind) :
    ∃ block inst statements, function.blocks[index]? = some block ∧ inst ∈ block.instructions ∧
      Means function.labels inst statements ∧ ∃ text ∈ inst.targets, ∃ symbol, parts.ast.JumpsTo node symbol ∧
        parts.ast.string? symbol = some text := by
  have hbuilt := functionBuilt_of_lower h
  obtain ⟨block, hblock, label, segments, hrootBuilt⟩ := Outcome.exists_of_forall₂ hbuilt.blocks.flip hroot
  have hmeans : ∀ inst ∈ block.instructions, ∃ statements, Means function.labels inst statements :=
    fun inst => means_of_lower h (List.mem_of_getElem? hblock)
  obtain ⟨inst, hinst, htarget⟩ := hrootBuilt.exists_target hbuilt.covers.sound.closed hmeans hbelow hkind hnode
  obtain ⟨statements, hsound⟩ := hmeans inst hinst
  exact ⟨block, inst, statements, hblock, hinst, hsound, htarget⟩

theorem flowClosed_of_lower (function : Function) (parts : EntityParts) (h : (lower function).result = .ok parts) :
    FlowClosed function parts := by
  have hbuilt := functionBuilt_of_lower h
  refine ⟨fun node hnode => ?_, fun index next => ⟨?_, ?_⟩⟩
  · obtain ⟨kind, hkind, hnode⟩ : ∃ kind ∈ Ast.jumpKinds, parts.ast.kind node = .ok kind := by
      rcases hnode with hgoto | hifGoto
      · exact ⟨.goto, by simp, hgoto⟩
      · exact ⟨.ifGoto, by simp, hifGoto⟩
    obtain ⟨data, hdata, -⟩ := Ast.kind_eq_ok_iff.1 hnode
    obtain ⟨root, hroot, hbelow⟩ := hbuilt.covers.below_iff.2 ⟨Nat.zero_le _, Ast.lt_size_of_data hdata⟩
    obtain ⟨index, hindex⟩ := List.mem_iff_getElem?.1 hroot
    obtain ⟨block, inst, statements, -, -, hmeans, text, htext, symbol, hjumps, hsymbol⟩ :=
      exists_target_of_lower h hindex hbelow hkind hnode
    exact ⟨symbol, hjumps, existsUnique_opensAt h hsymbol (hmeans.targets_subset text htext)⟩
  · rintro ⟨root, node, symbol, hroot, hbelow, hjumps, hopens⟩
    obtain ⟨kind, hkind, hnode⟩ := hjumps.kind
    obtain ⟨block, inst, statements, hblock, hinst, hmeans, text, htext, own, hown, hsymbol⟩ :=
      exists_target_of_lower h hroot hbelow hkind hnode
    obtain ⟨nextBlock, hnext, hlabel⟩ := (opensAt_iff hbuilt).1 hopens
    -- the node jumps to one string, which has one text
    obtain rfl := hjumps.unique hown
    obtain rfl : text = nextBlock.label := Option.some.inj (hsymbol.symm.trans hlabel)
    exact ⟨block, nextBlock, inst, hblock, hnext, hinst, hmeans.branch_of_target htext, htext⟩
  · rintro ⟨block, nextBlock, inst, hblock, hnext, hinst, -, htext⟩
    obtain ⟨root, hroot, label, segments, hrootBuilt⟩ := Outcome.exists_of_forall₂ hbuilt.blocks hblock
    obtain ⟨statements, hmeans⟩ := means_of_lower h (List.mem_of_getElem? hblock) hinst
    obtain ⟨node, symbol, hbelow, hjumps, hsymbol⟩ :=
      hrootBuilt.exists_jump hbuilt.covers.sound.closed hinst hmeans htext
    exact ⟨root, node, symbol, hroot, hbelow, hjumps, (opensAt_iff hbuilt).2 ⟨nextBlock, hnext, hsymbol⟩⟩

theorem flowClosed_sample : ∃ parts, (lower sample).result = .ok parts ∧ FlowClosed sample parts :=
  ⟨_, rfl, flowClosed_of_lower sample _ rfl⟩

end Lowering

end FunctionTrees
