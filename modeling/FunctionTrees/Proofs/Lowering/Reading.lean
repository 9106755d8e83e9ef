import FunctionTrees.Proofs.Lowering.Notes
import FunctionTrees.Proofs.Lowering.Sources

/-!
# Reading instructions back from trees

* `Instruction.fallback?`, `Instruction.canonical` : the fallback operator that an opcode resolves to, and the
  instruction with the tag of that operator as its opcode;
* `Instruction.Alike`, `canonical_eq_iff` : instructions that differ at most in opcodes with the same fallback;
* `trees_canonical`, `notedTrees_canonical` : so much is lost in the trees;
* `readOperand`, `readExpr`, `readPlain`, `readStatement` : reading the statements of a block from the last to the first;
* `Means.read_notedTrees`, `readStatements_notedTrees` : reading the noted trees of a block gives its canonical
  instructions;
* `unfold_eq_iff_alike` : lowered functions with the same noted trees differ in no more than fallback opcodes.
-/

set_option autoImplicit false

namespace FunctionTrees

open Transfer Lowering

/-! ## Fallbacks -/

namespace Transfer

namespace Instruction

/-- The fallback operator that the opcode resolves to, if it resolves to one. -/
def fallback? (inst : Instruction) : Option Operator :=
  if inst.opcode ∈ controlOpcodes then none
  else
    (Arity.ofCount? inst.operands.length).bind fun arity =>
      if Operator.precise? inst.opcode arity = none then some (Operator.fallback arity) else none

/-- The instruction with the tag of the fallback operator as its opcode, if it resolves to one. -/
def canonical (inst : Instruction) : Instruction :=
  { inst with opcode := (inst.fallback?.map Operator.tag).getD inst.opcode }

/-- The instructions differ at most in their opcodes, and then both opcodes resolve to the same fallback operator. -/
structure Alike (inst other : Instruction) : Prop where
  opcode : inst.opcode = other.opcode ∨ ∃ op, inst.fallback? = some op ∧ other.fallback? = some op
  result : inst.result = other.result
  operands : inst.operands = other.operands
  targets : inst.targets = other.targets
  position : inst.position = other.position

theorem fallback?_eq_some_iff {inst : Instruction} {op : Operator} :
    inst.fallback? = some op ↔ inst.opcode ∉ controlOpcodes ∧ ∃ arity,
      Arity.ofCount? inst.operands.length = some arity ∧ Operator.precise? inst.opcode arity = none ∧
        Operator.fallback arity = op := by
  unfold fallback?
  split_ifs with hcontrol
  · simp [hcontrol]
  · simp [hcontrol, Option.bind_eq_some_iff]

namespace Alike

variable {inst middle other : Instruction}

theorem fallback?_eq (h : inst.Alike other) : inst.fallback? = other.fallback? := by
  rcases h.opcode with hsame | ⟨op, hinst, hother⟩
  · unfold Instruction.fallback?
    rw [hsame, h.operands]
  · rw [hinst, hother]

theorem symm (h : inst.Alike other) : other.Alike inst := by
  refine ⟨?_, h.result.symm, h.operands.symm, h.targets.symm, h.position.symm⟩
  rcases h.opcode with hsame | ⟨op, hinst, hother⟩
  · exact .inl hsame.symm
  · exact .inr ⟨op, hother, hinst⟩

theorem trans (h : inst.Alike middle) (h' : middle.Alike other) : inst.Alike other := by
  refine ⟨?_, h.result.trans h'.result, h.operands.trans h'.operands, h.targets.trans h'.targets,
    h.position.trans h'.position⟩
  rcases h.opcode with hsame | ⟨op, hinst, hmiddle⟩
  · rcases h'.opcode with hsame' | ⟨op, hmiddle, hother⟩
    · exact .inl (hsame.trans hsame')
    · exact .inr ⟨op, h.fallback?_eq.trans hmiddle, hother⟩
  · exact .inr ⟨op, hinst, h'.fallback?_eq ▸ hmiddle⟩

end Alike

theorem tag_fallback_not_mem (arity : Arity) : (Operator.fallback arity).tag ∉ controlOpcodes := by
  cases arity <;> decide

theorem precise?_fallback (arity other : Arity) : Operator.precise? (Operator.fallback arity).tag other = none := by
  cases arity <;> cases other <;> decide

/-- The tag of a fallback resolves to that fallback. -/
theorem fallback?_tag {inst : Instruction} {op : Operator} (h : inst.fallback? = some op) :
    fallback? { inst with opcode := op.tag } = some op := by
  obtain ⟨-, arity, harity, -, rfl⟩ := fallback?_eq_some_iff.1 h
  exact fallback?_eq_some_iff.2 ⟨tag_fallback_not_mem arity, arity, harity, precise?_fallback arity arity, rfl⟩

theorem canonical_of_some {inst : Instruction} {op : Operator} (h : inst.fallback? = some op) :
    inst.canonical = { inst with opcode := op.tag } := by
  rw [canonical, h]
  rfl

theorem canonical_of_none {inst : Instruction} (h : inst.fallback? = none) : inst.canonical = inst := by
  rw [canonical, h]
  rfl

theorem canonical_of_mem {inst : Instruction} (h : inst.opcode ∈ controlOpcodes) : inst.canonical = inst :=
  canonical_of_none (if_pos h)

/-- The canonical form changes the opcode only, and keeps the fallback. -/
theorem alike_canonical (inst : Instruction) : inst.Alike inst.canonical := by
  cases h : inst.fallback? with
  | none =>
    rw [canonical_of_none h]
    exact ⟨.inl rfl, rfl, rfl, rfl, rfl⟩
  | some op =>
    rw [canonical_of_some h]
    exact ⟨.inr ⟨op, h, fallback?_tag h⟩, rfl, rfl, rfl, rfl⟩

theorem canonical_eq_iff {inst other : Instruction} : inst.canonical = other.canonical ↔ inst.Alike other := by
  constructor
  · intro h
    have hinst := inst.alike_canonical
    rw [h] at hinst
    exact hinst.trans other.alike_canonical.symm
  · rintro ⟨hopcode, hresult, hoperands, htargets, hposition⟩
    have hrest (opcode : String) : { inst with opcode := opcode } = { other with opcode := opcode } := by
      rw [hresult, hoperands, htargets, hposition]
    rcases hopcode with hsame | ⟨op, hinst, hother⟩
    · have hequal : inst = other := (hrest inst.opcode).trans (congrArg (fun opcode => { other with opcode }) hsame)
      rw [hequal]
    · rw [canonical_of_some hinst, canonical_of_some hother]
      exact hrest op.tag

end Instruction

structure Block.Alike (block other : Block) : Prop where
  label : block.label = other.label
  instructions : List.Forall₂ Instruction.Alike block.instructions other.instructions

def exprKind : Arity → NodeKind
  | .unary => .unaryExpr
  | .binary => .binaryExpr

/-- An operation of as many operands as operators take stands under an operator. -/
theorem operationTree_of_some {operands : List Tree} {arity : Arity} (h : Arity.ofCount? operands.length = some arity)
    (mnemonic : String) :
    operationTree mnemonic operands = .node (exprKind arity) (.operator (operatorFor mnemonic arity) :: operands) := by
  match operands with
  | [] => cases h
  | [operand] =>
    cases h
    rfl
  | [lhs, rhs] =>
    cases h
    rfl
  | _ :: _ :: _ :: _ => cases h

/-- Any other operation keeps its mnemonic. -/
theorem operationTree_of_none {operands : List Tree} (h : Arity.ofCount? operands.length = none) (mnemonic : String) :
    operationTree mnemonic operands = .node .primitive (.string mnemonic :: operands) := by
  match operands with
  | [] => rfl
  | [operand] => cases h
  | [lhs, rhs] => cases h
  | _ :: _ :: _ :: _ => rfl

/-- The operator of an operation has the canonical opcode as its tag. -/
theorem tag_operatorFor {inst : Instruction} (h : inst.opcode ∉ controlOpcodes) {arity : Arity}
    (harity : Arity.ofCount? inst.operands.length = some arity) :
    (operatorFor inst.opcode arity).tag = inst.canonical.opcode := by
  unfold operatorFor
  cases hprecise : Operator.precise? inst.opcode arity with
  | none =>
    have hfallback := Instruction.fallback?_eq_some_iff.2 ⟨h, arity, harity, hprecise, rfl⟩
    rw [Instruction.canonical_of_some hfallback]
    rfl
  | some op =>
    have hnone : inst.fallback? = none := by
      simp [Instruction.fallback?, harity, hprecise]
    rw [Instruction.canonical_of_none hnone]
    exact (Operator.precise?_eq_some_iff.1 hprecise).1

theorem Instruction.trees_canonical (inst : Instruction) : inst.canonical.trees = inst.trees := by
  cases h : inst.fallback? with
  | none => rw [canonical_of_none h]
  | some op =>
    obtain ⟨hopcode, arity, harity, hprecise, rfl⟩ := fallback?_eq_some_iff.1 h
    have hcanonical : (Operator.fallback arity).tag ∉ controlOpcodes := tag_fallback_not_mem arity
    have hoperator : operatorFor (Operator.fallback arity).tag arity = operatorFor inst.opcode arity := by
      rw [operatorFor, operatorFor, precise?_fallback, hprecise]
    have hcount : Arity.ofCount? (inst.operands.map Operand.tree).length = some arity := by rwa [List.length_map]
    rw [canonical_of_some h, trees_of_not_mem hopcode, trees_of_not_mem hcanonical, operationTree_of_some hcount,
      operationTree_of_some hcount, hoperator]

theorem Instruction.notedTrees_canonical (inst : Instruction) : inst.canonical.notedTrees = inst.notedTrees := by
  rw [notedTrees, trees_canonical]
  rfl

end Transfer

/-! ## Reading statements -/

/-- A statement without its note, and the span that the note reports. -/
def Tree.unnoted : Tree → Tree × Option Span
  | .noted tree located => (tree, some (Span.ofLocated located))
  | tree => (tree, none)

namespace Lowering

def readOperand : Tree → Option Operand
  | .node .var [.literal (.str name)] => some (.var name)
  | .literal (.int value) => some (.int value)
  | .literal (.float bits) => some (.float bits)
  | .literal (.bool value) => some (.bool value)
  | .literal (.str text) => some (.str text)
  | .literal .null => some .null
  | _ => none

def readExpr : Tree → Option Instruction
  | .node .binaryExpr (.operator op :: operands) =>
    (operands.mapM readOperand).map fun operands => { opcode := op.tag, operands }
  | .node .unaryExpr (.operator op :: operands) =>
    (operands.mapM readOperand).map fun operands => { opcode := op.tag, operands }
  | .node .primitive (.literal (.str name) :: operands) =>
    (operands.mapM readOperand).map fun operands => { opcode := name, operands }
  | .node .call operands => (operands.mapM readOperand).map fun operands => { opcode := "call", operands }
  | _ => none

/-- The instruction of a statement that is the only one of its instruction. -/
def readPlain : Tree → Option Instruction
  | .node .assign [.node .var [.literal (.str name)], value] =>
    match readOperand value with
    | some operand => some { opcode := "assign", result := some name, operands := [operand] }
    | none => (readExpr value).map fun inst => { inst with result := some name }
  | .node .ret operands => (operands.mapM readOperand).map fun operands => { opcode := "return", operands }
  | .node .goto [.literal (.str target)] => some { opcode := "br", targets := [target] }
  | tree => readExpr tree

/-- The instructions from a statement on, those after it being known. A conditional jump belongs to the branch after
it. -/
def readStatement (statement : Tree) (later : List Instruction) : Option (List Instruction) :=
  match statement.unnoted, later with
  | (.node .ifGoto [condition, .literal (.str target)], position), branch :: later =>
    (readOperand condition).map fun condition =>
      { opcode := "cond_br", operands := [condition], targets := target :: branch.targets, position } :: later
  | (tree, position), later => (readPlain tree).map fun inst => { inst with position } :: later

def readStatements (statements : List Tree) : Option (List Instruction) := statements.foldrM readStatement []

/-! ## What is read -/

theorem readOperand_tree (operand : Operand) : readOperand operand.tree = some operand := by
  cases operand <;> rfl

theorem mapM_readOperand (operands : List Operand) : (operands.map Operand.tree).mapM readOperand = some operands := by
  induction operands with
  | nil => rfl
  | cons operand operands ih => simp [readOperand_tree, ih]

theorem readExpr_operationTree {inst : Instruction} (h : inst.opcode ∉ controlOpcodes) :
    readExpr (operationTree inst.opcode (inst.operands.map Operand.tree)) =
      some { opcode := inst.canonical.opcode, operands := inst.operands } := by
  cases harity : Arity.ofCount? inst.operands.length with
  | none =>
    have hnone : inst.fallback? = none := by
      simp [Instruction.fallback?, harity]
    rw [operationTree_of_none (by rwa [List.length_map]), Instruction.canonical_of_none hnone, Tree.string, readExpr,
      mapM_readOperand]
    rfl
  | some arity =>
    rw [operationTree_of_some (by rwa [List.length_map]), ← tag_operatorFor h harity]
    cases arity <;> rw [exprKind, readExpr, mapM_readOperand] <;> rfl

theorem unnoted_noteTree {position : Option Span} (hsound : ∀ span ∈ position, span.Sound) (kind : NodeKind)
    (trees : List Tree) : (noteTree position (.node kind trees)).unnoted = (.node kind trees, position) := by
  cases position with
  | none => rfl
  | some span =>
    obtain ⟨located, hlocated⟩ := Option.isSome_iff_exists.1 (span.sound_iff_located?.1 (hsound span rfl))
    rw [noteTree, Option.bind_some, hlocated, ← Span.ofLocated_of_located? hlocated]
    rfl

theorem readStatement_noteTree {position : Option Span} (hsound : ∀ span ∈ position, span.Sound) {kind : NodeKind}
    (hkind : kind ≠ .ifGoto) (trees : List Tree) (later : List Instruction) :
    readStatement (noteTree position (.node kind trees)) later =
      (readPlain (.node kind trees)).map fun inst => { inst with position } :: later := by
  unfold readStatement
  rw [unnoted_noteTree hsound]
  cases kind with
  | ifGoto => exact absurd rfl hkind
  | _ => rfl

theorem exists_node_of_readExpr {tree : Tree} {inst : Instruction} (h : readExpr tree = some inst) :
    ∃ kind trees, tree = .node kind trees ∧ kind ∈ [NodeKind.binaryExpr, .unaryExpr, .primitive, .call] := by
  unfold readExpr at h
  split at h
  · exact ⟨_, _, rfl, by simp⟩
  · exact ⟨_, _, rfl, by simp⟩
  · exact ⟨_, _, rfl, by simp⟩
  · exact ⟨_, _, rfl, by simp⟩
  · cases h

/-- The result of an expression is read as the one of its instruction. -/
theorem readStatement_deliverTree {position : Option Span} (hsound : ∀ span ∈ position, span.Sound) {tree : Tree}
    {inst : Instruction} (hread : readExpr tree = some inst) (hresult : inst.result = none) (result : Option String)
    (later : List Instruction) :
    readStatement (noteTree position (deliverTree result tree)) later =
      some ({ inst with result, position } :: later) := by
  obtain ⟨kind, trees, rfl, hkind⟩ := exists_node_of_readExpr hread
  -- what is read as an expression is read as nothing else
  have hother : kind ≠ .ifGoto ∧ readPlain (.node kind trees) = readExpr (.node kind trees) ∧
      readOperand (.node kind trees) = none := by
    simp only [List.mem_cons, List.not_mem_nil, or_false] at hkind
    rcases hkind with rfl | rfl | rfl | rfl <;> exact ⟨NodeKind.noConfusion, rfl, rfl⟩
  obtain ⟨hkind, hplain, hoperand⟩ := hother
  cases result with
  | none =>
    rw [deliverTree, readStatement_noteTree hsound hkind, hplain, hread, ← hresult]
    rfl
  | some name =>
    have hassign : readPlain (assignTree name (.node kind trees)) = some { inst with result := some name } := by
      rw [assignTree, Tree.named, Tree.string, readPlain, hoperand, hread]
      rfl
    rw [deliverTree, assignTree, readStatement_noteTree hsound NodeKind.noConfusion, ← assignTree, hassign]
    rfl

section Statements

variable {position : Option Span} (hsound : ∀ span ∈ position, span.Sound) (later : List Instruction)
include hsound

theorem readStatement_assign (name : String) (value : Operand) :
    readStatement (noteTree position (assignTree name value.tree)) later =
      some ({ opcode := "assign", result := some name, operands := [value], position } :: later) := by
  have hplain : readPlain (assignTree name value.tree) =
      some { opcode := "assign", result := some name, operands := [value] } := by
    rw [assignTree, Tree.named, Tree.string, readPlain, readOperand_tree]
  rw [assignTree, readStatement_noteTree hsound NodeKind.noConfusion, ← assignTree, hplain]
  rfl

theorem readStatement_ret (operands : List Operand) :
    readStatement (noteTree position (.node .ret (operands.map Operand.tree))) later =
      some ({ opcode := "return", operands, position } :: later) := by
  rw [readStatement_noteTree hsound NodeKind.noConfusion, readPlain, mapM_readOperand]
  rfl

theorem readStatement_goto (target : String) :
    readStatement (noteTree position (.named .goto target)) later =
      some ({ opcode := "br", targets := [target], position } :: later) := by
  rw [Tree.named, readStatement_noteTree hsound NodeKind.noConfusion]
  rfl

theorem readStatement_ifGoto (condition : Operand) (target : String) (branch : Instruction) :
    readStatement (noteTree position (.node .ifGoto [condition.tree, .string target])) (branch :: later) =
      some ({ opcode := "cond_br", operands := [condition], targets := target :: branch.targets, position } ::
        later) := by
  unfold readStatement
  rw [unnoted_noteTree hsound, Tree.string]
  simp only [readOperand_tree]
  rfl

end Statements

/-- Reading the statements of an instruction gives the instruction, but for a fallback opcode. -/
theorem Means.read_notedTrees {labels : List String} {inst : Instruction} {statements : List Statement}
    (h : Means labels inst statements) (hsound : ∀ span ∈ inst.position, span.Sound) (later : List Instruction) :
    inst.notedTrees.foldrM readStatement later = some (inst.canonical :: later) := by
  have hsingle (tree : Tree) (later : List Instruction) :
      [tree].foldrM readStatement later = readStatement tree later := by
    rw [List.foldrM_cons, List.foldrM_nil, pure_bind]
  have hcontrol : inst.opcode ∈ controlOpcodes → inst.canonical = inst := Instruction.canonical_of_mem
  have hoperation : inst.opcode ∉ controlOpcodes →
      readExpr (operationTree inst.opcode (inst.operands.map Operand.tree)) =
        some { opcode := inst.canonical.opcode, operands := inst.operands } := readExpr_operationTree
  rw [Instruction.notedTrees, ← h.map_tree]
  cases h with
  | assign name value position =>
    rw [hcontrol (by simp [controlOpcodes]), List.map_singleton, List.map_singleton, hsingle]
    exact readStatement_assign hsound later name value
  | ret value position =>
    rw [hcontrol (by simp [controlOpcodes]), List.map_singleton, List.map_singleton, hsingle]
    exact readStatement_ret hsound later value.toList
  | @br target position htarget =>
    rw [hcontrol (by simp [controlOpcodes]), List.map_singleton, List.map_singleton, hsingle]
    exact readStatement_goto hsound later target
  | @condBr condition target otherwise position htarget hotherwise =>
    -- the jump after the condition is read first, as a branch of its own
    rw [hcontrol (by simp [controlOpcodes]), List.map_cons, List.map_cons, List.foldrM_cons, List.map_singleton,
      List.map_singleton, hsingle, Statement.tree, Statement.tree, readStatement_goto hsound later otherwise]
    exact readStatement_ifGoto hsound later condition target _
  | call result target args position =>
    have hread : readExpr (Expr.call target args).tree = some { opcode := "call", operands := target :: args } := by
      rw [Expr.tree, readExpr, ← List.map_cons, mapM_readOperand]
      rfl
    rw [hcontrol (by simp [controlOpcodes]), List.map_singleton, List.map_singleton, hsingle, Statement.tree_deliver,
      readStatement_deliverTree hsound hread rfl]
  | operation result operands position hmnemonic =>
    rw [List.map_singleton, List.map_singleton, hsingle, Statement.tree_deliver, Expr.tree_ofOperation,
      readStatement_deliverTree hsound (hoperation hmnemonic) rfl]
    rfl

/-! ## Blocks -/

/-- The instructions are sound, in shape and in position, as those of a lowered function with these labels. -/
def Readable (labels : List String) (instructions : List Instruction) : Prop :=
  ∀ inst ∈ instructions, (∃ statements, Means labels inst statements) ∧ ∀ span ∈ inst.position, span.Sound

theorem readable_of_lower {function : Function} {parts : EntityParts} (h : (lower function).result = .ok parts)
    {block : Block} (hblock : block ∈ function.blocks) : Readable function.labels block.instructions := by
  intro inst hinst
  obtain ⟨-, -, -, hblocks⟩ := acceptable_iff.1 ((exists_lower_iff function).1 ⟨parts, h⟩)
  refine ⟨means_of_lower h hblock hinst, fun span hspan => ?_⟩
  exact (hblocks block hblock inst hinst).1 span (Option.mem_toList.2 hspan)

/-- Reading the statements of a block gives its instructions, but for fallback opcodes. -/
theorem readStatements_notedTrees {labels : List String} {instructions : List Instruction}
    (h : Readable labels instructions) :
    readStatements (instructions.flatMap Instruction.notedTrees) = some (instructions.map Instruction.canonical) := by
  unfold readStatements
  induction instructions with
  | nil => rfl
  | cons inst instructions ih =>
    obtain ⟨⟨⟨statements, hmeans⟩, hsound⟩, hrest⟩ := List.forall_mem_cons.1 h
    rw [List.flatMap_cons, List.foldrM_append, ih hrest, Option.bind_eq_bind, Option.bind_some,
      hmeans.read_notedTrees hsound, List.map_cons]

/-- Blocks with one noted tree are alike. -/
theorem notedTree_eq_iff {labels labels' : List String} {block other : Block}
    (h : Readable labels block.instructions) (h' : Readable labels' other.instructions) :
    block.notedTree = other.notedTree ↔ block.Alike other := by
  have halike : block.instructions.map Instruction.canonical = other.instructions.map Instruction.canonical ↔
      List.Forall₂ Instruction.Alike block.instructions other.instructions := by
    rw [← List.forall₂_eq_eq_eq, List.forall₂_map_left_iff, List.forall₂_map_right_iff]
    simp only [Instruction.canonical_eq_iff]
  constructor
  · intro hsame
    obtain ⟨hlabel, hstatements⟩ := List.cons.inj (Tree.node.inj hsame).2
    -- from the same statements, the same instructions are read
    refine ⟨?_, halike.1 (Option.some.inj ?_)⟩
    · simpa [Tree.named, Tree.string] using hlabel
    · rw [← readStatements_notedTrees h, hstatements, readStatements_notedTrees h']
  · rintro ⟨hlabel, hinstructions⟩
    have hcanonical (instructions : List Instruction) : instructions.flatMap Instruction.notedTrees =
        (instructions.map Instruction.canonical).flatMap Instruction.notedTrees := by
      rw [List.flatMap_map]
      exact List.flatMap_congr fun inst _ => (inst.notedTrees_canonical).symm
    rw [Block.notedTree, Block.notedTree, hlabel, hcanonical block.instructions, hcanonical other.instructions,
      halike.2 hinstructions]

/-! ## Functions -/

/-- Lowered functions unfold to the same trees with the same positions exactly if their blocks are alike. -/
theorem unfold_eq_iff_alike (function other : Function) (parts parts' : EntityParts)
    (h : (lower function).result = .ok parts) (h' : (lower other).result = .ok parts') :
    (∃ trees, parts.blocks.mapM (parts.ast.unfold parts.positions.get?) = .ok trees ∧
      parts'.blocks.mapM (parts'.ast.unfold parts'.positions.get?) = .ok trees) ↔
      List.Forall₂ Block.Alike function.blocks other.blocks := by
  have hblocks {block block' : Block} (hmem : (block, block') ∈ function.blocks.zip other.blocks) :
      block.notedTree = block'.notedTree ↔ block.Alike block' :=
    notedTree_eq_iff (readable_of_lower h (List.of_mem_zip hmem).1) (readable_of_lower h' (List.of_mem_zip hmem).2)
  have htrees : function.blocks.map Block.notedTree = other.blocks.map Block.notedTree ↔
      List.Forall₂ Block.Alike function.blocks other.blocks := by
    rw [← List.forall₂_eq_eq_eq, List.forall₂_map_left_iff, List.forall₂_map_right_iff, List.forall₂_iff_zip,
      List.forall₂_iff_zip]
    exact and_congr_right fun _ => ⟨fun hsame _ _ hmem => (hblocks hmem).1 (hsame hmem),
      fun halike _ _ hmem => (hblocks hmem).2 (halike hmem)⟩
  rw [← htrees, lower_unfold_noted h, lower_unfold_noted h']
  constructor
  · rintro ⟨trees, ⟨⟩, hsame⟩
    exact (Except.ok.inj hsame).symm
  · intro hsame
    exact ⟨_, rfl, congrArg Except.ok hsame.symm⟩

/-- A function with one operation, which has no operator if the mnemonic is of none. -/
def operating (mnemonic : String) : Function where
  name := "f"
  returnType := "Int"
  blocks := [
    ⟨"entry", [
      { opcode := mnemonic, result := some "m", operands := [.var "x", .int 0], position := some ⟨"f.swift", 1, 2, 1, 9⟩ },
      { opcode := "return", operands := [.var "m"] }]⟩]

theorem unfold_eq_iff_alike_operating : ∃ parts parts', (lower (operating "max")).result = .ok parts ∧
    (lower (operating "min")).result = .ok parts' ∧
    ∃ trees, parts.blocks.mapM (parts.ast.unfold parts.positions.get?) = .ok trees ∧
      parts'.blocks.mapM (parts'.ast.unfold parts'.positions.get?) = .ok trees := by
  refine ⟨_, _, rfl, rfl, (unfold_eq_iff_alike (operating "max") (operating "min") _ _ rfl rfl).2 ?_⟩
  have hmnemonic : Instruction.Alike (operating "max").blocks[0].instructions[0]
      (operating "min").blocks[0].instructions[0] :=
    ⟨.inr ⟨.anyBinary, by decide, by decide⟩, rfl, rfl, rfl, rfl⟩
  have hreturn : Instruction.Alike (operating "max").blocks[0].instructions[1]
      (operating "min").blocks[0].instructions[1] :=
    ⟨.inl rfl, rfl, rfl, rfl, rfl⟩
  exact .cons ⟨rfl, .cons hmnemonic (.cons hreturn .nil)⟩ .nil

end Lowering

end FunctionTrees
