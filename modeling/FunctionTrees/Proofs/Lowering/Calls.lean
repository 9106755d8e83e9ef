import FunctionTrees.Proofs.Ast.Calls
import FunctionTrees.Proofs.Lowering.Order
import FunctionTrees.Proofs.Lowering.Script
import FunctionTrees.Proofs.Lowering.Sources

/-!
# The calls of a lowered function

* `Ast.callsUnder`, `eq_of_increasing` : the calls under a node, in the order of their keys, which says it all;
* `Means.call_or_lacks`, `exists_call_of_stands` : a call instruction makes one call, and no other makes any;
* `sourced function parts` : the statements in source order, each with the instruction that it comes from;
* `map_call_callSites`, `forall₂_calls` : the calls that are listed are those of the statements, one statement after
  the other, and these are those of the call instructions;
* `callsIndexed_and_callsFollow` : the list of calls is that of all calls, and follows the call instructions.
-/

set_option autoImplicit false

namespace FunctionTrees

open Transfer

/-! ## Picking calls -/

/-- Lists in the order of their keys are the same if they have the same members. -/
theorem eq_of_increasing {nodes others : List Node} (h : nodes.Pairwise fun node next => node.index < next.index)
    (h' : others.Pairwise fun node next => node.index < next.index) (hmem : ∀ node, node ∈ nodes ↔ node ∈ others) :
    nodes = others := by
  have hne {node next : Node} (hlt : node.index < next.index) : node ≠ next := by
    rintro rfl
    exact Nat.lt_irrefl _ hlt
  have hperm := (List.perm_ext_iff_of_nodup (h.imp hne) (h'.imp hne)).2 hmem
  refine hperm.eq_of_pairwise (fun node next _ _ hlt hgt => ?_) h h'
  exact absurd hlt (Nat.lt_asymm hgt)

theorem increasing_keysBetween (low high : Nat) :
    (keysBetween low high).Pairwise fun node next => node.index < next.index :=
  List.pairwise_map.2 List.pairwise_lt_range'

/-- Where each item that passes has one pick that goes with it, and the others have none, the picks go with the items
that pass. -/
theorem forall₂_filter_flatMap {α β : Type} {p : α → Bool} {pick : α → List β} {R : α → β → Prop} {items : List α}
    (h : ∀ item ∈ items, p item = true ∧ (∃ value, pick item = [value] ∧ R item value) ∨
      p item = false ∧ pick item = []) :
    List.Forall₂ R (items.filter p) (items.flatMap pick) := by
  induction items with
  | nil => exact .nil
  | cons item items ih =>
    rw [List.forall_mem_cons] at h
    rw [List.filter_cons, List.flatMap_cons]
    rcases h.1 with ⟨hp, value, hpick, hvalue⟩ | ⟨hp, hpick⟩
    · rw [if_pos hp, hpick, List.singleton_append]
      exact .cons hvalue (ih h.2)
    · rw [hp, hpick, List.nil_append]
      exact ih h.2

namespace Ast

variable {ast : Ast}

open Classical in
/-- The calls that are `top` or under it, in the order of their keys. -/
noncomputable def callsUnder (ast : Ast) (top : Node) : List Node :=
  (keysBetween 0 ast.size).filter fun node => ast.kind node = .ok .call ∧ ast.Below top node

theorem mem_callsUnder {top node : Node} : node ∈ ast.callsUnder top ↔ ast.kind node = .ok .call ∧ ast.Below top node := by
  simp only [callsUnder, List.mem_filter, decide_eq_true_iff, mem_keysBetween, and_iff_right_iff_imp]
  rintro ⟨hkind, -⟩
  obtain ⟨data, hdata, -⟩ := kind_eq_ok_iff.1 hkind
  exact ⟨Nat.zero_le _, lt_size_of_data hdata⟩

theorem increasing_callsUnder (ast : Ast) (top : Node) :
    (ast.callsUnder top).Pairwise fun node next => node.index < next.index :=
  (increasing_keysBetween 0 ast.size).filter _

/-- The statements under the root of a block, which come after its label. -/
def statementsUnder (ast : Ast) (root : Node) : List Node := ((ast.children root).toOption.getD []).tail

theorem statementsUnder_eq {root label : Node} {statements : List Node}
    (h : ast.children root = .ok (label :: statements)) : ast.statementsUnder root = statements := by
  rw [statementsUnder, h]
  rfl

end Ast

/-! ## Calls in the source -/

namespace Transfer

def Operand.name? : Operand → Option String
  | .var name => some name
  | _ => none

def Instruction.calleeName? (inst : Instruction) : Option String := inst.operands.head?.bind Operand.name?

def Function.calls (function : Function) : List Instruction :=
  (function.blocks.flatMap Block.instructions).filter fun inst => inst.opcode = "call"

end Transfer

namespace Lowering

variable {function : Function} {parts : EntityParts}

/-! ## Calls of one instruction -/

theorem Expr.lacks_ofOperation (mnemonic : String) (operands : List Operand) :
    (Expr.ofOperation mnemonic operands).tree.Lacks .call := by
  rw [Expr.ofOperation_eq]
  split <;> simp [Expr.tree]

/-- A call instruction makes a call, and any other instruction none. -/
theorem Means.call_or_lacks {labels : List String} {inst : Instruction} {statements : List Statement}
    (h : Means labels inst statements) :
    (inst.opcode = "call" ∧ ∃ target args, inst.operands = target :: args ∧
      statements = [deliver inst.result (.call target args)]) ∨
      inst.opcode ≠ "call" ∧ ∀ statement ∈ statements, statement.tree.Lacks .call := by
  cases h with
  | assign => exact .inr (by simp [Statement.tree, assignTree])
  | ret value => exact .inr (by simp [Statement.tree])
  | br => exact .inr (by simp [Statement.tree])
  | condBr => exact .inr (by simp [Statement.tree])
  | call result target args => exact .inl ⟨rfl, target, args, rfl, rfl⟩
  | operation result operands position hmnemonic =>
    refine .inr ⟨(not_mem_controlOpcodes.1 hmnemonic).2.1, ?_⟩
    rw [List.forall_mem_singleton, Statement.tree_deliver]
    cases result <;> simp [deliverTree, assignTree, Expr.lacks_ofOperation]

/-- The statement of a call instruction has one call, which is itself or what is assigned. -/
theorem exists_call_of_stands (hclosed : parts.ast.Closed) {node : Node} {result : Option String} {target : Operand}
    {args : List Operand} (h : parts.ast.Stands node (deliver result (.call target args)).tree) :
    ∃ call, parts.ast.callsUnder node = [call] ∧ parts.ast.Stands call (Expr.call target args).tree := by
  have hoperands : ∀ tree ∈ target.tree :: args.map Operand.tree, tree.Lacks .call := by simp
  -- it is enough that all calls are under one node that is a call over operands
  suffices hcalls : ∃ call, parts.ast.Below node call ∧ parts.ast.Stands call (Expr.call target args).tree ∧
      ∀ other, parts.ast.kind other = .ok .call → parts.ast.Below node other → parts.ast.Below call other by
    obtain ⟨call, hbelow, hstands, honly⟩ := hcalls
    refine ⟨call, ?_, hstands⟩
    refine eq_of_increasing (parts.ast.increasing_callsUnder node) (List.pairwise_singleton _ _) fun other => ?_
    rw [Ast.mem_callsUnder, List.mem_singleton]
    constructor
    · rintro ⟨hkind, hother⟩
      exact hstands.eq_top hclosed rfl hoperands (honly other hkind hother) hkind
    · rintro rfl
      obtain ⟨children, hdata⟩ := hstands.exists_children
      exact ⟨Ast.kind_eq_ok_iff.2 ⟨_, hdata, rfl⟩, hbelow⟩
  cases result with
  | none => exact ⟨node, .self node, h, fun other _ hother => hother⟩
  | some name =>
    obtain ⟨var, call, hdata, hvar, hcall⟩ := h.exists_pair hclosed
    have hchildren : parts.ast.children node = .ok [var, call] := Ast.children_eq_ok_iff.2 ⟨_, hdata, rfl⟩
    refine ⟨call, .under hchildren (by simp) (.self call), hcall, fun other hkind hother => ?_⟩
    rcases hother.eq_or_under hdata with rfl | ⟨child, hmem, hother⟩
    · rw [Ast.kind, hdata] at hkind
      cases hkind
    · rcases List.mem_pair.1 hmem with rfl | rfl
      · have hlacks : (Tree.named .var name).Lacks .call := Tree.lacks_named_iff.2 NodeKind.noConfusion
        exact absurd hkind (hvar.kind_ne hclosed rfl hlacks hother)
      · exact hother

/-- The entry of a call has the text of its first operand, if that is a variable. -/
theorem callee_of_stands (hclosed : parts.ast.Closed) {site : CallSite} (hsite : parts.ast.SiteSound site)
    {target : Operand} {args : List Operand} (h : parts.ast.Stands site.call (Expr.call target args).tree) :
    Option.Rel (fun symbol name => parts.ast.string? symbol = some name) site.callee target.name? := by
  obtain ⟨nodes, hdata⟩ := hsite.target
  obtain ⟨trees, hsame, hstands⟩ := h.eq_node hclosed hdata
  cases hsame
  have htarget := (List.forall₂_cons.1 hstands).1
  by_cases hvar : ∃ name, target = .var name
  · obtain ⟨name, rfl⟩ := hvar
    obtain ⟨child, symbol, hnode, hchild, htext⟩ := htarget.exists_name hclosed
    rw [(hsite.callee symbol).2 ⟨child, hnode, hchild⟩]
    exact .some htext
  · have hkind : parts.ast.kind site.target ≠ .ok .var := by
      have hlacks : target.tree.Lacks .var := by
        cases target with
        | var name => exact absurd ⟨name, rfl⟩ hvar
        | _ => simp [Operand.tree]
      exact htarget.kind_ne hclosed rfl hlacks (.self _)
    rw [hsite.unnamed.2 hkind]
    cases target with
    | var name => exact absurd ⟨name, rfl⟩ hvar
    | _ => exact .none

/-! ## Statements in source order -/

/-- The statements of a lowered function in source order, each with the instruction that it comes from. -/
def sourced (function : Function) (parts : EntityParts) : List (Instruction × Node) :=
  (function.blocks.zip parts.blocks).flatMap fun (block, root) => block.origins.zip (parts.ast.statementsUnder root)

theorem comesFrom_of_mem_sourced (hbuilt : FunctionBuilt function parts) {inst : Instruction} {node : Node}
    (h : (inst, node) ∈ sourced function parts) : ComesFrom function parts node inst := by
  obtain ⟨⟨block, root⟩, hzip, hmem⟩ := List.mem_flatMap.1 h
  obtain ⟨label, segments, hroot⟩ := List.forall₂_zip hbuilt.blocks hzip
  have hstatements := Ast.statementsUnder_eq hroot.children
  exact ⟨block, root, label, _, hzip, hroot.children, hstatements ▸ hmem⟩

/-- Block by block is as good as all at once, since each block has as many statements as origins. -/
theorem flatMap_zip {α β γ δ : Type} {f : α → List γ} {g : β → List δ} {as : List α} {bs : List β}
    (h : List.Forall₂ (fun a b => (f a).length = (g b).length) as bs) :
    (as.zip bs).flatMap (fun p => (f p.1).zip (g p.2)) = (as.flatMap f).zip (bs.flatMap g) ∧
      (as.flatMap f).length = (bs.flatMap g).length := by
  induction h with
  | nil => exact ⟨rfl, rfl⟩
  | cons hhead _ ih =>
    simp only [List.zip_cons_cons, List.flatMap_cons, ih.1, List.zip_append hhead, List.length_append, hhead, ih.2,
      and_self]

theorem map_sourced (hbuilt : FunctionBuilt function parts) :
    (sourced function parts).map Prod.fst = function.blocks.flatMap Block.origins ∧
      (sourced function parts).map Prod.snd = parts.blocks.flatMap parts.ast.statementsUnder := by
  have hlengths : List.Forall₂ (fun block root => block.origins.length = (parts.ast.statementsUnder root).length)
      function.blocks parts.blocks := by
    apply hbuilt.blocks.imp
    rintro block root ⟨label, segments, hroot⟩
    rw [Ast.statementsUnder_eq hroot.children]
    exact hroot.origins.length_eq
  obtain ⟨hzip, hlength⟩ := flatMap_zip hlengths
  rw [sourced, hzip]
  exact ⟨List.map_fst_zip (Nat.le_of_eq hlength), List.map_snd_zip (Nat.le_of_eq hlength.symm)⟩

/-- A call instruction is the origin of one statement. -/
theorem calls_eq_filter_origins (function : Function) :
    (function.blocks.flatMap Block.origins).filter (fun inst => inst.opcode = "call") = function.calls := by
  have hinst (inst : Instruction) : (List.replicate inst.width inst).filter (fun inst => inst.opcode = "call") =
      [inst].filter fun inst => inst.opcode = "call" := by
    by_cases hcall : inst.opcode = "call"
    · have hwidth : inst.width = 1 := by
        rw [Instruction.width, hcall]
        rfl
      rw [hwidth]
      rfl
    · simp [hcall]
  simp only [Function.calls, Block.origins, List.filter_flatMap, hinst]
  simp only [← List.filter_flatMap, List.flatMap_singleton']

/-! ## The list of calls -/

/-- The calls under the statements come in the order of their keys, one statement after the other. -/
theorem increasing_calls (hbuilt : FunctionBuilt function parts) (hstacked : FunctionStacked parts) :
    (parts.blocks.flatMap fun root => (parts.ast.statementsUnder root).flatMap parts.ast.callsUnder).Pairwise
      fun node next => node.index < next.index := by
  refine hstacked.rows.pairwise_flatMap (fun root hroot => ?_) fun root hroot node hnode => ?_
  · obtain ⟨low, children, hchildren, hrows⟩ := hstacked.statements root hroot
    rw [Ast.statementsUnder, hchildren]
    cases hrows with
    | nil => exact .nil
    | cons _ hrest =>
      refine hrest.pairwise_flatMap (fun statement _ => parts.ast.increasing_callsUnder statement) ?_
      intro statement _ node hnode
      exact (Ast.mem_callsUnder.1 hnode).2
  · obtain ⟨block, -, label, segments, hblock⟩ := Outcome.exists_mem_zip_of_forall₂ hbuilt.blocks hroot
    rw [Ast.statementsUnder_eq hblock.children] at hnode
    obtain ⟨statement, hstatement, hnode⟩ := List.mem_flatMap.1 hnode
    exact .under hblock.children (List.mem_cons_of_mem _ hstatement) (Ast.mem_callsUnder.1 hnode).2

theorem map_call_callSites (h : (lower function).result = .ok parts) (hindexed : parts.ast.CallsIndexed) :
    parts.ast.callSites.map CallSite.call =
      (sourced function parts).flatMap fun origin => parts.ast.callsUnder origin.2 := by
  have hbuilt := functionBuilt_of_lower h
  have hsourced : (sourced function parts).flatMap (fun origin => parts.ast.callsUnder origin.2) =
      parts.blocks.flatMap fun root => (parts.ast.statementsUnder root).flatMap parts.ast.callsUnder := by
    rw [← List.flatMap_assoc, ← (map_sourced hbuilt).2, List.flatMap_map]
  rw [hsourced]
  -- both lists are in the order of their keys, so that only their members have to be compared
  refine eq_of_increasing (List.pairwise_map.2 hindexed.ordered)
    (increasing_calls hbuilt (functionStacked_of_lower h)) fun node => ?_
  have hlisted : node ∈ parts.ast.callSites.map CallSite.call ↔ parts.ast.kind node = .ok .call := by
    rw [List.mem_map, hindexed.complete]
  rw [hlisted]
  constructor
  · intro hkind
    obtain ⟨statement, inst, ⟨block, root, label, statements, hzip, hchildren, hmem⟩, hbelow⟩ :=
      exists_statement_of_kind h hkind rfl NodeKind.noConfusion NodeKind.noConfusion
    refine List.mem_flatMap.2 ⟨root, (List.of_mem_zip hzip).2, List.mem_flatMap.2 ⟨statement, ?_, ?_⟩⟩
    · rw [Ast.statementsUnder_eq hchildren]
      exact (List.of_mem_zip hmem).2
    · exact Ast.mem_callsUnder.2 ⟨hkind, hbelow⟩
  · intro hmem
    obtain ⟨root, -, hmem⟩ := List.mem_flatMap.1 hmem
    obtain ⟨statement, -, hmem⟩ := List.mem_flatMap.1 hmem
    exact (Ast.mem_callsUnder.1 hmem).1

/-- The call belongs to the statement of an instruction, and its entry says what that calls. -/
structure CallOf (parts : EntityParts) (origin : Instruction × Node) (site : CallSite) : Prop where
  below : parts.ast.Below origin.2 site.call
  callee : Option.Rel (fun symbol name => parts.ast.string? symbol = some name) site.callee origin.1.calleeName?

/-- The list of calls follows the call instructions. -/
structure CallsFollow (function : Function) (parts : EntityParts) : Prop where
  instructions : ((sourced function parts).filter fun origin => origin.1.opcode = "call").map Prod.fst = function.calls
  sites : List.Forall₂ (CallOf parts) ((sourced function parts).filter fun origin => origin.1.opcode = "call")
    parts.ast.callSites

/-- The calls under the statements are those of the call instructions, one each. -/
theorem forall₂_calls (h : (lower function).result = .ok parts) :
    List.Forall₂ (fun origin call => parts.ast.Below origin.2 call ∧ ∃ target args,
        origin.1.operands = target :: args ∧ parts.ast.Stands call (Expr.call target args).tree)
      ((sourced function parts).filter fun origin => origin.1.opcode = "call")
      ((sourced function parts).flatMap fun origin => parts.ast.callsUnder origin.2) := by
  have hbuilt := functionBuilt_of_lower h
  have hclosed := hbuilt.covers.sound.closed
  refine forall₂_filter_flatMap fun origin hmem => ?_
  obtain ⟨statements, hmeans, statement, hstatement, hstands⟩ :=
    exists_statement_of_comesFrom h (comesFrom_of_mem_sourced hbuilt hmem)
  rcases hmeans.call_or_lacks with ⟨hcall, target, args, hoperands, rfl⟩ | ⟨hother, hlacks⟩
  · rw [List.mem_singleton.1 hstatement] at hstands
    obtain ⟨call, hpick, hcallStands⟩ := exists_call_of_stands hclosed hstands
    have hbelow := (Ast.mem_callsUnder.1 (hpick ▸ List.mem_singleton_self call)).2
    exact .inl ⟨decide_eq_true hcall, call, hpick, hbelow, target, args, hoperands, hcallStands⟩
  · refine .inr ⟨decide_eq_false hother, List.eq_nil_iff_forall_not_mem.2 fun node hnode => ?_⟩
    obtain ⟨hkind, hbelow⟩ := Ast.mem_callsUnder.1 hnode
    exact hstands.kind_ne hclosed rfl (hlacks statement hstatement) hbelow hkind

theorem callsFollow_of_lower (h : (lower function).result = .ok parts) (hindexed : parts.ast.CallsIndexed) :
    CallsFollow function parts := by
  have hbuilt := functionBuilt_of_lower h
  refine ⟨?_, ?_⟩
  · rw [← calls_eq_filter_origins, ← (map_sourced hbuilt).1, List.filter_map]
    rfl
  · have hcalls := forall₂_calls h
    rw [← map_call_callSites h hindexed, List.forall₂_map_right_iff] at hcalls
    have hall := ((List.forall₂_and_left _ _).2 ⟨hindexed.sites, hcalls.flip⟩).flip
    refine hall.imp fun origin site hsite => ?_
    obtain ⟨hsound, hbelow, target, args, hoperands, hstands⟩ := hsite
    have hname : origin.1.calleeName? = target.name? := by
      rw [Instruction.calleeName?, hoperands]
      rfl
    refine ⟨hbelow, ?_⟩
    rw [hname]
    exact callee_of_stands hbuilt.covers.sound.closed hsound hstands

/-- Whatever a builder does, its list of calls is that of all calls. In a lowered function, it follows the call
instructions. -/
theorem callsIndexed_and_callsFollow :
    (∀ steps, Builder.Admits {} steps → (Builder.after {} steps).ast.CallsIndexed) ∧
    ∀ function parts, (lower function).result = .ok parts → parts.ast.CallsIndexed ∧ CallsFollow function parts := by
  have hindexed : ∀ steps, Builder.Admits {} steps → (Builder.after {} steps).ast.CallsIndexed := by
    intro steps hadmits
    exact Builder.callsIndexed_of_moves (Builder.moves_after hadmits) Builder.regular_empty Ast.callsIndexed_empty
  refine ⟨hindexed, fun function parts h => ?_⟩
  obtain ⟨steps, hadmits, hbuilder⟩ := exists_steps_of_lower h
  have hparts : parts.ast.CallsIndexed := by
    have hafter := hindexed steps hadmits
    rwa [← hbuilder] at hafter
  exact ⟨hparts, callsFollow_of_lower h hparts⟩

/-- A call of a variable with a literal argument, and one of a call. -/
def nestedCalls : List BuildStep := [.var "f", .constant (.int 0), .call ⟨1⟩ [⟨2⟩], .call ⟨3⟩ []]

theorem callsIndexed_and_callsFollow_sample :
    (Builder.Admits {} nestedCalls ∧ (Builder.after {} nestedCalls).ast.CallsIndexed) ∧
    ∃ parts, (lower sample).result = .ok parts ∧ parts.ast.CallsIndexed ∧ CallsFollow sample parts :=
  ⟨⟨by decide, callsIndexed_and_callsFollow.1 nestedCalls (by decide)⟩, _, rfl,
    callsIndexed_and_callsFollow.2 sample _ rfl⟩

end Lowering

end FunctionTrees
