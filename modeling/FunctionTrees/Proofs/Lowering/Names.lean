import FunctionTrees.Proofs.Ast.Names
import FunctionTrees.Proofs.Lowering.Sources

/-!
# The names of the nodes of a function

A node is called by its first child wherever that is a string constant, so that a call, a return or a conditional branch
over a string literal is called by that literal.

* `namedKinds`, `literalKinds` : the kinds whose nodes have a name of their own, and the kinds that may be called by an
  operand;
* `Instruction.Titles inst kind title` : what a node of the kind is called, where it is built for the instruction;
  `Means.each_entitled` : the trees of a sound instruction keep to it;
* `Named function parts` : how all nodes are called; `named_of_lower` : so it is in a lowered function;
* `spoken`, `called_by_literals` : a function whose calls, returns and conditional branches are called by literals.
-/

set_option autoImplicit false

namespace FunctionTrees

def NodeKind.namedKinds : List NodeKind := [.var, .label, .goto, .primitive]

/-- The kinds whose nodes have an operand of the instruction as their first child. -/
def NodeKind.literalKinds : List NodeKind := [.call, .ret, .ifGoto]

open Transfer

namespace Transfer

def Operand.text? : Operand → Option String
  | .str text => some text
  | _ => none

@[simp] theorem Operand.text?_tree (operand : Operand) : operand.tree.text? = operand.text? := by
  cases operand <;> rfl

namespace Instruction

/-- What a node of the kind is called, where it is built for the instruction; labels and blocks are not. -/
def Titles (inst : Instruction) (kind : NodeKind) (title : Option String) : Prop :=
  match kind with
  | .var => ∃ name, title = some name ∧ (inst.result = some name ∨ .var name ∈ inst.operands)
  | .goto => ∃ label, title = some label ∧ inst.targets.getLast? = some label
  | .primitive => title = some inst.opcode
  | .call | .ret | .ifGoto => title = inst.operands.head?.bind Operand.text?
  | .label | .block => False
  | _ => title = none

/-- The tree is called as it should be where it is built for the instruction. -/
def Entitles (inst : Instruction) (tree : Tree) : Prop := ∀ kind, tree.kind? = some kind → inst.Titles kind tree.title?

variable {inst : Instruction}

/-- The named kinds have a title, and the others only from a string literal. -/
theorem Titles.exists_iff {kind : NodeKind} {title : Option String} (h : inst.Titles kind title) :
    (∃ name, title = some name) ↔ kind ∈ NodeKind.namedKinds ∨
      kind ∈ NodeKind.literalKinds ∧ ∃ text rest, inst.operands = .str text :: rest := by
  have hliteral : (∃ name, inst.operands.head?.bind Operand.text? = some name) ↔
      ∃ text rest, inst.operands = .str text :: rest := by
    constructor
    · rintro ⟨name, hname⟩
      obtain ⟨operand, hoperand, htext⟩ := Option.bind_eq_some_iff.1 hname
      obtain ⟨rest, hrest⟩ := List.head?_eq_some_iff.1 hoperand
      cases operand <;> cases htext
      exact ⟨name, rest, hrest⟩
    · rintro ⟨text, rest, hrest⟩
      exact ⟨text, by rw [hrest]; rfl⟩
  cases kind with
  | var =>
    obtain ⟨name, hname, -⟩ := h
    exact iff_of_true ⟨name, hname⟩ (.inl (by decide))
  | goto =>
    obtain ⟨label, hlabel, -⟩ := h
    exact iff_of_true ⟨label, hlabel⟩ (.inl (by decide))
  | primitive => exact iff_of_true ⟨inst.opcode, h⟩ (.inl (by decide))
  | call | ret | ifGoto =>
    obtain rfl : title = inst.operands.head?.bind Operand.text? := h
    rw [hliteral]
    exact ⟨fun h => .inr ⟨by decide, h⟩, fun h => (h.resolve_left (by decide)).2⟩
  | label | block => exact h.elim
  | _ =>
    obtain rfl : title = none := h
    exact iff_of_false nofun fun h => h.elim (by decide) fun h => absurd h.1 (by decide)

theorem entitles_node {kind : NodeKind} {children : List Tree} :
    inst.Entitles (.node kind children) ↔ inst.Titles kind (Tree.node kind children).title? := by
  simp [Entitles, Tree.kind?]

@[simp] theorem each_string (text : String) : (Tree.string text).Each inst.Entitles := by
  simp [Tree.string, Entitles, Tree.kind?, Titles, Tree.title?]

@[simp] theorem each_operator (op : Operator) : (Tree.operator op).Each inst.Entitles := by
  simp [Entitles, Tree.kind?, Titles, Tree.title?]

theorem each_var {name : String} (h : inst.result = some name ∨ .var name ∈ inst.operands) :
    (Tree.named .var name).Each inst.Entitles := by
  refine (Tree.each_node_iff _ _).2 ⟨entitles_node.2 ⟨name, rfl, h⟩, ?_⟩
  simp

theorem each_goto {label : String} (h : inst.targets.getLast? = some label) :
    (Tree.named .goto label).Each inst.Entitles := by
  refine (Tree.each_node_iff _ _).2 ⟨entitles_node.2 ⟨label, rfl, h⟩, ?_⟩
  simp

theorem each_operand {operand : Operand} (h : operand ∈ inst.operands) : operand.tree.Each inst.Entitles := by
  cases operand with
  | var name => exact each_var (.inr h)
  | str text => exact each_string text
  | _ => simp [Operand.tree, Entitles, Tree.kind?, Titles, Tree.title?]

/-- Over operands of the instruction, all depends on the node itself. -/
theorem each_over_operands {kind : NodeKind} {operands : List Operand} (hoperands : operands ⊆ inst.operands)
    (h : inst.Titles kind (operands.head?.bind Operand.text?)) :
    (Tree.node kind (operands.map Operand.tree)).Each inst.Entitles := by
  refine (Tree.each_node_iff _ _).2 ⟨entitles_node.2 ?_, ?_⟩
  · cases operands with
    | nil => exact h
    | cons operand rest => simpa [Tree.title?] using h
  · rw [List.forall_mem_map]
    exact fun operand hmem => each_operand (hoperands hmem)

theorem each_operationTree {trees : List Tree} (h : ∀ tree ∈ trees, tree.Each inst.Entitles) :
    (operationTree inst.opcode trees).Each inst.Entitles := by
  unfold operationTree
  split
  next =>
    exact (Tree.each_node_iff _ _).2 ⟨entitles_node.2 rfl, List.forall_mem_cons.2 ⟨each_operator _, h⟩⟩
  next =>
    exact (Tree.each_node_iff _ _).2 ⟨entitles_node.2 rfl, List.forall_mem_cons.2 ⟨each_operator _, h⟩⟩
  next =>
    exact (Tree.each_node_iff _ _).2 ⟨entitles_node.2 rfl, List.forall_mem_cons.2 ⟨each_string _, h⟩⟩

theorem each_assignTree {name : String} {value : Tree} (hname : inst.result = some name)
    (hvalue : value.Each inst.Entitles) : (assignTree name value).Each inst.Entitles := by
  refine (Tree.each_node_iff _ _).2 ⟨entitles_node.2 rfl, ?_⟩
  simp [each_var (.inl hname), hvalue]

theorem each_deliverTree {value : Tree} (hvalue : value.Each inst.Entitles) :
    (deliverTree inst.result value).Each inst.Entitles := by
  cases hresult : inst.result with
  | none => exact hvalue
  | some name => exact each_assignTree hresult hvalue

end Instruction

end Transfer

namespace Lowering

/-- The trees of a sound instruction are called as they should be. -/
theorem Means.each_entitled {labels : List String} {inst : Instruction} {statements : List Statement}
    (h : Means labels inst statements) : ∀ tree ∈ inst.trees, tree.Each inst.Entitles := by
  have hoperands : ∀ operand ∈ inst.operands, operand.tree.Each inst.Entitles :=
    fun operand => Instruction.each_operand
  rw [← h.map_tree]
  cases h with
  | assign name value position =>
    rw [List.map_singleton, List.forall_mem_singleton]
    exact Instruction.each_assignTree rfl (hoperands value (List.mem_singleton_self value))
  | ret value position =>
    rw [List.map_singleton, List.forall_mem_singleton]
    exact Instruction.each_over_operands (List.Subset.refl _) rfl
  | br position htarget =>
    rw [List.map_singleton, List.forall_mem_singleton]
    exact Instruction.each_goto rfl
  | @condBr condition target otherwise position htarget hotherwise =>
    rw [List.map_cons, List.map_singleton, List.forall_mem_cons, List.forall_mem_singleton]
    refine ⟨(Tree.each_node_iff _ _).2 ⟨Instruction.entitles_node.2 condition.text?_tree, ?_⟩, Instruction.each_goto rfl⟩
    simpa using hoperands
  | call result target args position =>
    rw [List.map_singleton, List.forall_mem_singleton, Statement.tree_deliver]
    have hcall : (Expr.call target args).tree = .node .call ((target :: args).map Operand.tree) := rfl
    rw [hcall]
    exact Instruction.each_deliverTree (Instruction.each_over_operands (List.Subset.refl _) rfl)
  | operation result operands position hmnemonic =>
    rw [List.map_singleton, List.forall_mem_singleton, Statement.tree_deliver, Expr.tree_ofOperation]
    exact Instruction.each_deliverTree (Instruction.each_operationTree (List.forall_mem_map.2 hoperands))

/-! ## Functions -/

/-- How the nodes of a function are called. -/
structure Named (function : Function) (parts : EntityParts) : Prop where
  /-- Every node has a place under the root of a block. -/
  placed : ∀ node, parts.ast.contains node = true → ∃ block root path,
    (block, root) ∈ function.blocks.zip parts.blocks ∧ parts.ast.Reaches root path node
  /-- At each place it has the kind and the title that the tree of the block has there. -/
  titled : ∀ block root path node, (block, root) ∈ function.blocks.zip parts.blocks →
    parts.ast.Reaches root path node → ∃ tree kind, block.tree.at? path = some tree ∧ tree.kind? = some kind ∧
      parts.ast.kind node = .ok kind ∧ parts.ast.name? node = .ok tree.title?
  roots : ∀ root ∈ parts.blocks, parts.ast.kind root = .ok .block ∧ parts.ast.name? root = .ok none
  labels : ∀ block root label statements, (block, root) ∈ function.blocks.zip parts.blocks →
    parts.ast.children root = .ok (label :: statements) →
      parts.ast.kind label = .ok .label ∧ parts.ast.name? label = .ok (some block.label)
  /-- Under a statement, nodes are called after what the instruction has. -/
  statements : ∀ statement inst node, ComesFrom function parts statement inst → parts.ast.Below statement node →
    ∃ kind title, parts.ast.kind node = .ok kind ∧ parts.ast.name? node = .ok title ∧ inst.Titles kind title
  /-- Nodes of the named kinds have a name; of the others, those have one whose first operand is a string literal. -/
  kinds : ∀ node kind, parts.ast.kind node = .ok kind → ((∃ name, parts.ast.name? node = .ok (some name)) ↔
    kind ∈ NodeKind.namedKinds ∨ kind ∈ NodeKind.literalKinds ∧ ∃ statement inst text rest,
      ComesFrom function parts statement inst ∧ parts.ast.Below statement node ∧ inst.operands = .str text :: rest)

section Built

variable {function : Function} {parts : EntityParts}

/-- Going down from the root of a block leads down the tree of the block. -/
theorem BlockBuilt.titled {block : Block} {root label : Node} {segments : List (List Node)}
    (h : BlockBuilt parts block root label segments) (hclosed : parts.ast.Closed) {path : List Nat} {node : Node}
    (hreaches : parts.ast.Reaches root path node) : ∃ tree kind, block.tree.at? path = some tree ∧
      tree.kind? = some kind ∧ parts.ast.kind node = .ok kind ∧ parts.ast.name? node = .ok tree.title? := by
  cases hreaches with
  | here =>
    obtain ⟨data, hdata, hpictured⟩ := h.label_stands.exists_pictured hclosed
    have hname := Ast.name?_of_symbol (Ast.nameSymbol?_of_child h.data hdata) hpictured.text
    exact ⟨block.tree, .block, by rw [Tree.at?], rfl, Ast.kind_eq_ok_iff.2 ⟨_, h.data, rfl⟩, hname⟩
  | down hchildren hchild hreaches =>
    rw [h.children] at hchildren
    cases hchildren
    obtain ⟨subtree, hsubtree, hstands⟩ := Outcome.exists_of_forall₂ h.stands hchild
    obtain ⟨tree, htree, hnode⟩ := hstands.exists_at hclosed hreaches
    obtain ⟨kind, hkind, hnodeKind⟩ := hnode.kind_eq hclosed
    refine ⟨tree, kind, ?_, hkind, hnodeKind, hnode.name?_eq hclosed⟩
    rw [Block.tree, Tree.at?, hsubtree, Option.bind_some, htree]

theorem FunctionBuilt.placed (h : FunctionBuilt function parts) {node : Node}
    (hnode : parts.ast.contains node = true) : ∃ block root path,
      (block, root) ∈ function.blocks.zip parts.blocks ∧ parts.ast.Reaches root path node := by
  obtain ⟨root, hroot, hbelow⟩ := h.covers.below_iff.2 ⟨Nat.zero_le _, Ast.contains_iff.1 hnode⟩
  obtain ⟨block, hzip, -⟩ := Outcome.exists_mem_zip_of_forall₂ h.blocks hroot
  obtain ⟨path, hreaches⟩ := hbelow.exists_reaches
  exact ⟨block, root, path, hzip, hreaches⟩

theorem FunctionBuilt.roots (h : FunctionBuilt function parts) {root : Node} (hroot : root ∈ parts.blocks) :
    parts.ast.kind root = .ok .block ∧ parts.ast.name? root = .ok none := by
  obtain ⟨block, -, label, segments, hblock⟩ := Outcome.exists_mem_zip_of_forall₂ h.blocks hroot
  obtain ⟨tree, kind, htree, hkind, hroot⟩ := hblock.titled h.covers.sound.closed (.here root)
  rw [Tree.at?] at htree
  cases htree
  cases hkind
  exact hroot

/-- Under a statement, nodes are called after what the instruction has. -/
theorem titles_of_lower (h : (lower function).result = .ok parts) {statement node : Node} {inst : Instruction}
    (hfrom : ComesFrom function parts statement inst) (hbelow : parts.ast.Below statement node) :
    ∃ kind title, parts.ast.kind node = .ok kind ∧ parts.ast.name? node = .ok title ∧ inst.Titles kind title := by
  have hbuilt := functionBuilt_of_lower h
  have hclosed := hbuilt.covers.sound.closed
  obtain ⟨block, hblock, hinst⟩ := hfrom.mem
  obtain ⟨statements, hmeans⟩ := means_of_lower h hblock hinst
  obtain ⟨nodes, hnodes, hmem⟩ := hbuilt.exists_of_comesFrom hfrom
  obtain ⟨tree, htree, hstands⟩ := Outcome.exists_mem_of_forall₂ hnodes.stands hmem
  obtain ⟨part, hpart, hnode⟩ := hstands.exists_part hclosed hbelow
  obtain ⟨kind, hkind, hnodeKind⟩ := hnode.kind_eq hclosed
  exact ⟨kind, part.title?, hnodeKind, hnode.name?_eq hclosed, hmeans.each_entitled tree htree part hpart kind hkind⟩

/-- Under a label, the label itself is called by the label of the block, and the text under it is not called anything. -/
theorem BlockBuilt.labelled {block : Block} {root label : Node} {segments : List (List Node)}
    (h : BlockBuilt parts block root label segments) (hclosed : parts.ast.Closed) {node : Node}
    (hbelow : parts.ast.Below label node) :
    parts.ast.kind node = .ok .label ∧ parts.ast.name? node = .ok (some block.label) ∨
      parts.ast.kind node = .ok .constant ∧ parts.ast.name? node = .ok none := by
  obtain ⟨part, hpart, hnode⟩ := h.label_stands.exists_part hclosed hbelow
  obtain ⟨kind, hkind, hnodeKind⟩ := hnode.kind_eq hclosed
  have hname := hnode.name?_eq hclosed
  cases hpart with
  | self =>
    cases hkind
    exact .inl ⟨hnodeKind, hname⟩
  | under hmem hpart =>
    obtain rfl := List.mem_singleton.1 hmem
    cases hpart
    cases hkind
    exact .inr ⟨hnodeKind, hname⟩

/-- Every node is a label, or one of a kind that has no name, or under a statement. -/
theorem exists_title_of_lower (h : (lower function).result = .ok parts) {node : Node}
    (hlt : node.index < parts.ast.size) :
    ∃ kind title, parts.ast.kind node = .ok kind ∧ parts.ast.name? node = .ok title ∧
      (kind = .label ∧ title.isSome ∨ (kind = .block ∨ kind = .constant) ∧ title = none ∨
        ∃ statement inst, ComesFrom function parts statement inst ∧ parts.ast.Below statement node ∧
          inst.Titles kind title) := by
  have hbuilt := functionBuilt_of_lower h
  rcases hbuilt.owner hlt with hroot | ⟨root, hroot, label, statements, hchildren, hbelow⟩ | ⟨statement, inst, hfrom, hbelow⟩
  · obtain ⟨hkind, hname⟩ := hbuilt.roots hroot
    exact ⟨_, _, hkind, hname, .inr (.inl ⟨.inl rfl, rfl⟩)⟩
  · obtain ⟨block, -, label', segments, hblock⟩ := Outcome.exists_mem_zip_of_forall₂ hbuilt.blocks hroot
    rw [hblock.children] at hchildren
    cases hchildren
    rcases hblock.labelled hbuilt.covers.sound.closed hbelow with ⟨hkind, hname⟩ | ⟨hkind, hname⟩
    · exact ⟨_, _, hkind, hname, .inl ⟨rfl, rfl⟩⟩
    · exact ⟨_, _, hkind, hname, .inr (.inl ⟨.inr rfl, rfl⟩)⟩
  · obtain ⟨kind, title, hkind, hname, htitles⟩ := titles_of_lower h hfrom hbelow
    exact ⟨kind, title, hkind, hname, .inr (.inr ⟨statement, inst, hfrom, hbelow, htitles⟩)⟩

end Built

/-- How the nodes of a lowered function are called. -/
theorem named_of_lower (function : Function) (parts : EntityParts) (h : (lower function).result = .ok parts) :
    Named function parts := by
  have hbuilt := functionBuilt_of_lower h
  have hclosed := hbuilt.covers.sound.closed
  refine ⟨fun node => hbuilt.placed, fun block root path node hzip hreaches => ?_, fun root => hbuilt.roots,
    fun block root label statements hzip hchildren => ?_, fun statement inst node => titles_of_lower h,
    fun node kind hkind => ?_⟩
  · obtain ⟨label, segments, hblock⟩ := List.forall₂_zip hbuilt.blocks hzip
    exact hblock.titled hclosed hreaches
  · obtain ⟨label', segments, hblock⟩ := List.forall₂_zip hbuilt.blocks hzip
    rw [hblock.children] at hchildren
    cases hchildren
    obtain ⟨kind, hkind, hlabel⟩ := hblock.label_stands.kind_eq hclosed
    cases hkind
    exact ⟨hlabel, hblock.label_stands.name?_eq hclosed⟩
  · obtain ⟨data, hdata, -⟩ := Ast.kind_eq_ok_iff.1 hkind
    obtain ⟨kind', title, hkind', htitle, hcases⟩ := exists_title_of_lower h (Ast.lt_size_of_data hdata)
    cases hkind.symm.trans hkind'
    rw [htitle]
    simp only [Except.ok.injEq]
    rcases hcases with ⟨rfl, hsome⟩ | ⟨hkinds, rfl⟩ | ⟨statement, inst, hfrom, hbelow, htitles⟩
    · exact iff_of_true (Option.isSome_iff_exists.1 hsome) (.inl (by decide))
    · refine iff_of_false nofun fun hcase => ?_
      have hkind : kind ∈ NodeKind.namedKinds ∨ kind ∈ NodeKind.literalKinds := hcase.imp_right And.left
      rcases hkinds with rfl | rfl <;> exact absurd hkind (by decide)
    · rw [htitles.exists_iff]
      constructor
      · rintro (hnamed | ⟨hliteral, text, rest, hoperands⟩)
        · exact .inl hnamed
        · exact .inr ⟨hliteral, statement, inst, text, rest, hfrom, hbelow, hoperands⟩
      · rintro (hnamed | ⟨hliteral, statement', inst', text, rest, hfrom', hbelow', hoperands⟩)
        · exact .inl hnamed
        · -- the node may be looked up under any statement: it has one title only
          obtain ⟨kind', title', hkind', htitle', htitles'⟩ := titles_of_lower h hfrom' hbelow'
          cases hkind.symm.trans hkind'
          cases htitle.symm.trans htitle'
          exact htitles.exists_iff.1 (htitles'.exists_iff.2 (.inr ⟨hliteral, text, rest, hoperands⟩))

theorem named_sample : ∃ parts, (lower sample).result = .ok parts ∧ Named sample parts :=
  ⟨_, rfl, named_of_lower sample _ rfl⟩

/-- A call, a conditional branch and a return over string literals. -/
def spoken : Function where
  name := "announce"
  returnType := "String"
  blocks := [⟨"entry", [
    { opcode := "call", operands := [.str "print", .int 1] },
    { opcode := "cond_br", operands := [.str "ready"], targets := ["entry", "entry"] },
    { opcode := "return", operands := [.str "done"] }]⟩]

/-- The call, the conditional branch and the return are called by their literals. -/
theorem called_by_literals : ∃ parts, (lower spoken).result = .ok parts ∧
    (parts.ast.kind ⟨4⟩ = .ok .call ∧ parts.ast.name? ⟨4⟩ = .ok (some "print")) ∧
    (parts.ast.kind ⟨7⟩ = .ok .ifGoto ∧ parts.ast.name? ⟨7⟩ = .ok (some "ready")) ∧
    parts.ast.kind ⟨11⟩ = .ok .ret ∧ parts.ast.name? ⟨11⟩ = .ok (some "done") := by
  have hspoken : (lower spoken).result.map (fun parts =>
      [⟨4⟩, ⟨7⟩, ⟨11⟩].map fun node => (parts.ast.kind node, parts.ast.name? node)) =
      .ok [(.ok .call, .ok (some "print")), (.ok .ifGoto, .ok (some "ready")), (.ok .ret, .ok (some "done"))] := by
    decide +kernel
  obtain ⟨parts, hparts, hnames⟩ := Outcome.map_eq_ok_iff.1 hspoken
  simp only [List.map_cons, List.map_nil, List.cons.injEq, Prod.mk.injEq] at hnames
  obtain ⟨hcall, hifGoto, hret, -⟩ := hnames
  exact ⟨parts, hparts, hcall, hifGoto, hret⟩

end Lowering

end FunctionTrees
