import FunctionTrees.Proofs.Ast.Moves

/-!
# A builder only appends, and records by build time

* `Builder.Edit b b'` : one of the ways in which a builder changes between two turns: it takes in a string, makes a node
  or lists a call, whatever it was given; `edits_run` : every action other than a turn is a row of these;
* `Builder.Appends b b'` : from `b` to `b'` nothing was lost or changed, and the new inner nodes, no others, have the
  position that was current; `Appends.trans`, `Edit.appends`, `Edits.appends`;
* `BuildStep.turn?`, `lastTurn` : the position that a list of actions turned to last; `current_after`;
* `Builder.Builds earlier step node` : the node is made by that action; `exists_builds`, `get?_after_of_builds`;
* `run_expr?_eq_none_iff` : an expression is refused by a wrong number of operands, and leaves no trace;
* `appends_by_build_time` : what holds of every list of actions.
-/

set_option autoImplicit false

namespace FunctionTrees

namespace Builder

variable {b b' b'' : Builder}

/-! ## Edits -/

inductive Edit : Builder → Builder → Prop
  | intern (b : Builder) (text : String) : Edit b ((Build.intern text).run b).2
  | store (b : Builder) (data : NodeData) : Edit b (b.store data)
  | enlist (b : Builder) (site : CallSite) : Edit b (b.enlist site)

abbrev Edits : Builder → Builder → Prop := Relation.ReflTransGen Edit

def Fresh (b : Builder) : Prop := ∀ node, b.ast.size ≤ node.index → b.positions.get? node = none

/-- From `b` to `b'` nothing was lost or changed, and the new inner nodes have the position that was current. -/
structure Appends (b b' : Builder) : Prop extends Keeps b b' where
  current : b'.current = b.current
  stamped : ∀ node position, b.ast.size ≤ node.index →
    (b'.positions.get? node = some position ↔ b'.ast.Inner node ∧ b.current = some position)

theorem Keeps.refl (b : Builder) : b.Keeps b := ⟨.refl b.ast, fun _ _ => rfl⟩

theorem Keeps.trans (h : b.Keeps b') (h' : b'.Keeps b'') : b.Keeps b'' := by
  refine ⟨h.grown.trans h'.grown, fun node hlt => ?_⟩
  rw [h'.kept node (Nat.lt_of_lt_of_le hlt h.grown.size_le), h.kept node hlt]

namespace Appends

/-- Nothing is recorded where no node is made. -/
theorem of_nodes (hfresh : b.Fresh) (hnodes : b'.ast.nodes = b.ast.nodes)
    (hstrings : b.ast.strings.strings <+: b'.ast.strings.strings) (hcalls : b.ast.callSites <+: b'.ast.callSites)
    (hpositions : b'.positions = b.positions) (hcurrent : b'.current = b.current) : b.Appends b' := by
  refine ⟨⟨⟨hnodes ▸ List.prefix_rfl, hstrings, hcalls⟩, fun node _ => by rw [hpositions]⟩, hcurrent,
    fun node position hle => ?_⟩
  have hsize : b'.ast.size = b.ast.size := congrArg Arena.size hnodes
  rw [hpositions, hfresh node hle]
  refine iff_of_false nofun fun ⟨hinner, _⟩ => ?_
  have hlt := hinner.lt_size
  omega

theorem refl (hfresh : b.Fresh) : b.Appends b := of_nodes hfresh rfl List.prefix_rfl List.prefix_rfl rfl rfl

theorem trans (h : b.Appends b') (h' : b'.Appends b'') : b.Appends b'' := by
  refine ⟨h.toKeeps.trans h'.toKeeps, h'.current.trans h.current, fun node position hle => ?_⟩
  by_cases hlt : node.index < b'.ast.size
  · rw [h'.kept node hlt, h.stamped node position hle, h'.grown.inner_iff hlt]
  · rw [h'.stamped node position (Nat.le_of_not_lt hlt), h.current]

theorem fresh (h : b.Appends b') : b'.Fresh := by
  intro node hle
  rw [Option.eq_none_iff_forall_ne_some]
  intro position hposition
  have hinner := (h.stamped node position (Nat.le_trans h.grown.size_le hle)).1 hposition
  exact absurd hinner.1.lt_size (Nat.not_lt_of_le hle)

theorem store (hfresh : b.Fresh) (data : NodeData) : b.Appends (b.store data) := by
  refine ⟨b.keeps_store data, rfl, fun node position hle => ?_⟩
  have hnone := hfresh node hle
  by_cases hnode : node = ⟨b.ast.size⟩
  · subst hnode
    rw [get?_store, hnone, Ast.inner_iff (b.data_store data)]
    cases data.kind.isLeaf <;> cases b.current <;> simp
  · rw [get?_store, if_neg fun h => hnode h.1, hnone]
    refine iff_of_false nofun fun ⟨hinner, _⟩ => hnode (Node.ext_index ?_)
    have hlt := hinner.lt_size
    rw [b.size_store] at hlt
    exact Nat.le_antisymm (Nat.le_of_lt_succ hlt) hle

end Appends

theorem Edit.appends (h : Edit b b') (hfresh : b.Fresh) : b.Appends b' := by
  cases h with
  | intern text =>
    exact .of_nodes hfresh rfl (b.ast.strings.strings_prefix_insert text) List.prefix_rfl rfl rfl
  | store data => exact .store hfresh data
  | enlist site => exact .of_nodes hfresh rfl List.prefix_rfl (List.prefix_append _ _) rfl rfl

theorem Edits.appends (h : Edits b b') (hfresh : b.Fresh) : b.Appends b' := by
  induction h with
  | refl => exact .refl hfresh
  | tail _ hedit ih => exact ih.trans (hedit.appends ih.fresh)

end Builder

/-! ## Actions as edits -/

namespace Build

open Builder

variable {b b' : Builder}

theorem edits_interior (h : Edits b b') {kind : NodeKind} (hleaf : kind.isLeaf = false) (children : List Node) :
    Edits b ((interior kind children).run b').2 := by
  rw [run_interior hleaf]
  exact h.tail (.store b' _)

theorem edits_string (text : String) (b : Builder) : Edits b ((string text).run b).2 :=
  .tail (.single (.intern b text)) (.store _ _)

theorem edits_operator (op : Operator) (b : Builder) : Edits b ((operator op).run b).2 := .single (.store b _)

theorem edits_call (target : Node) (args : List Node) (b : Builder) : Edits b ((call target args).run b).2 := by
  rw [run_call]
  exact .tail (.single (.store b _)) (.enlist _ _)

theorem edits_expr? (op : Operator) (operands : List Node) (b : Builder) : Edits b ((expr? op operands).run b).2 := by
  unfold expr?
  split
  next => exact edits_interior (edits_operator op b) rfl _
  next => exact edits_interior (edits_operator op b) rfl _
  next => exact .refl

/-- An operator that stands over another number of operands than it takes builds nothing, and only that is refused. -/
theorem run_expr?_eq_none_iff (op : Operator) (operands : List Node) (b : Builder) :
    (expr? op operands).run b = (none, b) ↔ operands.length ≠ op.arity.count := by
  unfold expr?
  split
  next harity =>
    exact iff_of_false (fun h => Option.some_ne_none _ (congrArg Prod.fst h)) (by simp [harity, Arity.count])
  next harity =>
    exact iff_of_false (fun h => Option.some_ne_none _ (congrArg Prod.fst h)) (by simp [harity, Arity.count])
  next hbinary hunary =>
    refine iff_of_true rfl fun hlength => ?_
    cases harity : op.arity with
    | unary =>
      rw [harity] at hlength
      obtain ⟨operand, rfl⟩ := List.length_eq_one_iff.1 hlength
      exact hunary operand harity rfl
    | binary =>
      rw [harity] at hlength
      obtain ⟨lhs, rhs, rfl⟩ := List.length_eq_two.1 hlength
      exact hbinary lhs rhs harity rfl

end Build

namespace BuildStep

open Builder

def turn? : BuildStep → Option (Option Position)
  | at? current => some current
  | _ => none

theorem turn?_eq_some_iff {step : BuildStep} {current : Option Position} :
    step.turn? = some current ↔ step = at? current := by
  cases step <;> simp [turn?]

theorem edits_run {step : BuildStep} (h : step.turn? = none) (b : Builder) : Edits b (step.run b).2 := by
  have hnamed (kind : NodeKind) (text : String) (hleaf : kind.isLeaf = false) (children : Node → List Node) :
      Edits b ((Build.string text >>= fun node => Build.interior kind (children node)).run b).2 :=
    Build.edits_interior (Build.edits_string text b) hleaf _
  have hover {kind : NodeKind} (op : Operator) (hleaf : kind.isLeaf = false) (operands : List Node) :
      Edits b ((Build.operator op >>= fun node => Build.interior kind (node :: operands)).run b).2 :=
    Build.edits_interior (Build.edits_operator op b) hleaf _
  cases step with
  | at? current => cases h
  | intern text => exact .single (.intern b text)
  | position file firstLine firstCol lastLine lastCol => exact .single (.intern b file)
  | operator op => exact Build.edits_operator op b
  | constant value => exact .single (.store b _)
  | string text => exact Build.edits_string text b
  | empty => exact .single (.store b _)
  | var name => exact hnamed .var name rfl fun node => [node]
  | binary op lhs rhs => exact hover op rfl _
  | unary op operand => exact hover op rfl _
  | expr op operands => exact Build.edits_expr? op operands b
  | primitive name operands => exact hnamed .primitive name rfl fun node => node :: operands
  | call target args => exact Build.edits_call target args b
  | assign lhs rhs => exact Build.edits_interior .refl rfl _
  | ret value => exact Build.edits_interior .refl rfl _
  | goto target => exact hnamed .goto target rfl fun node => [node]
  | ifGoto condition target => exact hnamed .ifGoto target rfl fun node => [condition, node]
  | label name => exact hnamed .label name rfl fun node => [node]
  | block statements => exact Build.edits_interior .refl rfl _

/-- What one action keeps: a turn changes nothing but the current position, any other action appends. -/
theorem keeps_run {b : Builder} (hfresh : b.Fresh) (step : BuildStep) :
    b.Keeps (step.run b).2 ∧ (step.run b).2.Fresh ∧ (step.run b).2.current = step.turn?.getD b.current := by
  cases hturn : step.turn? with
  | none =>
    have happends := (edits_run hturn b).appends hfresh
    exact ⟨happends.toKeeps, happends.fresh, happends.current⟩
  | some current =>
    obtain rfl := turn?_eq_some_iff.1 hturn
    exact ⟨⟨.refl b.ast, fun _ _ => rfl⟩, hfresh, rfl⟩

end BuildStep

/-! ## Lists of actions -/

namespace Builder

variable {b : Builder}

def lastTurn (steps : List BuildStep) : Option Position := (steps.filterMap BuildStep.turn?).getLast?.join

/-- What a whole list of actions keeps. -/
theorem keeps_after (hfresh : b.Fresh) (steps : List BuildStep) :
    b.Keeps (b.after steps) ∧ (b.after steps).Fresh := by
  induction steps generalizing b with
  | nil => exact ⟨.refl b, hfresh⟩
  | cons step steps ih =>
    obtain ⟨hkeeps, hfresh', -⟩ := BuildStep.keeps_run hfresh step
    obtain ⟨hrest, hlast⟩ := ih hfresh'
    exact ⟨hkeeps.trans hrest, hlast⟩

theorem fresh_empty : Fresh {} := fun _ _ => rfl

theorem after_concat (b : Builder) (steps : List BuildStep) (step : BuildStep) :
    b.after (steps ++ [step]) = (step.run (b.after steps)).2 :=
  b.after_append steps [step]

theorem current_after (steps : List BuildStep) : (after {} steps).current = lastTurn steps := by
  induction steps using List.reverseRecOn with
  | nil => rfl
  | append_singleton steps step ih =>
    obtain ⟨-, -, hcurrent⟩ := BuildStep.keeps_run (keeps_after fresh_empty steps).2 step
    rw [after_concat, hcurrent, ih, lastTurn, lastTurn, List.filterMap_append]
    cases hturn : step.turn? with
    | none => simp [hturn]
    | some current => simp [hturn]

/-- The node is made by `step` after the actions of `earlier`. -/
def Builds (earlier : List BuildStep) (step : BuildStep) (node : Node) : Prop :=
  (after {} earlier).ast.contains node = false ∧ (after {} (earlier ++ [step])).ast.contains node = true

theorem builds_iff {earlier : List BuildStep} {step : BuildStep} {node : Node} : Builds earlier step node ↔
    (after {} earlier).ast.size ≤ node.index ∧ node.index < (after {} (earlier ++ [step])).ast.size := by
  rw [Builds, ← Bool.not_eq_true, Ast.contains_iff, Ast.contains_iff, Nat.not_lt]

/-- Every node is made by one of the actions. -/
theorem exists_builds {steps : List BuildStep} {node : Node} (h : node.index < (after {} steps).ast.size) :
    ∃ earlier step later, steps = earlier ++ step :: later ∧ Builds earlier step node := by
  induction steps using List.reverseRecOn with
  | nil => exact absurd h (Nat.not_lt_zero _)
  | append_singleton steps step ih =>
    by_cases hlt : node.index < (after {} steps).ast.size
    · obtain ⟨earlier, builder, later, rfl, hbuilds⟩ := ih hlt
      exact ⟨earlier, builder, later ++ [step], by simp, hbuilds⟩
    · exact ⟨steps, step, [], rfl, builds_iff.2 ⟨Nat.le_of_not_lt hlt, h⟩⟩

/-- A turn makes no node, so the position that is current while a node is made is that of the last turn before. -/
theorem appends_of_builds {earlier : List BuildStep} {step : BuildStep} {node : Node} (h : Builds earlier step node) :
    (after {} earlier).Appends (after {} (earlier ++ [step])) := by
  rw [builds_iff, after_concat] at h
  rw [after_concat]
  cases hturn : step.turn? with
  | none => exact (BuildStep.edits_run hturn _).appends (keeps_after fresh_empty earlier).2
  | some current =>
    obtain rfl := BuildStep.turn?_eq_some_iff.1 hturn
    exact absurd h.2 (Nat.not_lt_of_le h.1)

/-- The position of a node is settled when it is made. -/
theorem get?_after_of_builds {earlier later : List BuildStep} {step : BuildStep} {node : Node} {position : Position}
    (h : Builds earlier step node) :
    (after {} (earlier ++ step :: later)).positions.get? node = some position ↔
      (after {} (earlier ++ step :: later)).ast.Inner node ∧ lastTurn earlier = some position := by
  obtain ⟨hle, hlt⟩ := builds_iff.1 h
  have happends := appends_of_builds h
  have hlater := (keeps_after happends.fresh later).1
  rw [← after_append, List.append_assoc, List.singleton_append] at hlater
  rw [hlater.kept node hlt, hlater.grown.inner_iff hlt, happends.stamped node position hle, current_after]

/-- Whatever a list of actions does, it leaves in place all that there was before each of them; a node has the position
that the last turn before its making set, if it is no leaf and there was such a position; and an expression with a
number of operands that its operator does not take leaves the builder as it was. -/
theorem appends_by_build_time :
    (∀ earlier more, (after {} earlier).Keeps (after {} (earlier ++ more)) ∧
      ∀ node position, (after {} earlier).positions.get? node = some position →
        (after {} (earlier ++ more)).positions.get? node = some position) ∧
    (∀ steps node position, (after {} steps).positions.get? node = some position ↔
      (after {} steps).ast.Inner node ∧ ∃ earlier step later,
        steps = earlier ++ step :: later ∧ Builds earlier step node ∧ lastTurn earlier = some position) ∧
    ∀ op operands b, (Build.expr? op operands).run b = (none, b) ↔ operands.length ≠ op.arity.count := by
  have hrecorded {steps : List BuildStep} {node : Node} {position : Position}
      (hposition : (after {} steps).positions.get? node = some position) : node.index < (after {} steps).ast.size := by
    by_contra hlt
    rw [(keeps_after fresh_empty steps).2 node (Nat.le_of_not_lt hlt)] at hposition
    cases hposition
  refine ⟨fun earlier more => ?_, fun steps node position => ⟨fun hposition => ?_, ?_⟩, Build.run_expr?_eq_none_iff⟩
  · rw [after_append]
    have hkeeps := (keeps_after (keeps_after fresh_empty earlier).2 more).1
    exact ⟨hkeeps, fun node position hposition => hkeeps.kept node (hrecorded hposition) ▸ hposition⟩
  · obtain ⟨earlier, step, later, rfl, hbuilds⟩ := exists_builds (hrecorded hposition)
    obtain ⟨hinner, hturn⟩ := (get?_after_of_builds hbuilds).1 hposition
    exact ⟨hinner, earlier, step, later, rfl, hbuilds, hturn⟩
  · rintro ⟨hinner, earlier, step, later, rfl, hbuilds, hturn⟩
    exact (get?_after_of_builds hbuilds).2 ⟨hinner, hturn⟩

end Builder

end FunctionTrees
