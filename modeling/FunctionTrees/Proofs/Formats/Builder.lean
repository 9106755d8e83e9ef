import FunctionTrees.Proofs.Ast.Moves
import FunctionTrees.Proofs.Ast.References
import FunctionTrees.Proofs.Formats.Ast

/-!
# What a builder makes fits

* `Builder.Fits`, `Builder.Small` : all that a builder holds is numbered with 32 bits, and can be;
* `Build.Fitting given act made` : an action that is given such numbers keeps to them; `Fitting.bind`;
* `fitting_push`, `fitting_intern`, `fitting_stamp`, `fitting_interior`, `fitting_call` : the actions of a builder do;
* `fitting_run`, `fits_after` : and so does every list of them.
-/

set_option autoImplicit false

namespace FunctionTrees

structure Builder.Fits (b : Builder) : Prop where
  ast : b.ast.Fits
  positions : b.positions.Fits
  current : ∀ position ∈ b.current, position.file.Fits

def Builder.Small (b : Builder) : Prop := b.ast.size ≤ UInt32.size ∧ b.ast.strings.size ≤ UInt32.size

instance (b : Builder) : Decidable b.Small := inferInstanceAs (Decidable (_ ∧ _))

theorem Builder.fits_empty : Builder.Fits {} :=
  ⟨⟨(fun _ hmem => nomatch hmem), (fun _ hmem => nomatch hmem)⟩, (fun _ hmem => nomatch hmem),
    (fun _ hmem => nomatch hmem)⟩

/-- What came before is no larger. -/
theorem Builder.Small.before {b b' : Builder} (h : b'.Small) (hgrown : b.ast.Extends b'.ast) : b.Small :=
  ⟨Nat.le_trans hgrown.size_le h.1, Nat.le_trans hgrown.strings.length_le h.2⟩

namespace Build

open Builder

variable {α β : Type} {given given' : Prop} {made : α → Prop} {made' : β → Prop} {act : Build α}

/-! ## Actions that keep to 32 bits -/

/-- Given what `given` says, the action keeps to numbers of 32 bits as long as there are enough of them, and `made`
holds of its result. -/
structure Fitting (given : Prop) (act : Build α) (made : α → Prop) : Prop where
  grown : ∀ b : Builder, b.ast.Extends (act.run b).2.ast
  fits : given → ∀ b : Builder, b.Fits → (act.run b).2.Small → (act.run b).2.Fits ∧ made (act.run b).1

theorem Fitting.pure {value : α} (h : given → made value) : Fitting given (Pure.pure value) made :=
  ⟨fun b => .refl b.ast, fun hgiven _ hb _ => ⟨hb, h hgiven⟩⟩

theorem Fitting.bind {next : α → Build β} (h : Fitting given act made)
    (hnext : ∀ value, Fitting (given ∧ made value) (next value) made') : Fitting given (act >>= next) made' := by
  refine ⟨fun b => (h.grown b).trans ((hnext _).grown _), fun hgiven b hb hsmall => ?_⟩
  rw [run_bind] at hsmall ⊢
  obtain ⟨hfits, hmade⟩ := h.fits hgiven b hb (hsmall.before ((hnext _).grown _))
  exact (hnext _).fits ⟨hgiven, hmade⟩ _ hfits hsmall

theorem Fitting.imp (h : Fitting given act made) (hgiven : given' → given) : Fitting given' act made :=
  ⟨h.grown, fun hgiven' => h.fits (hgiven hgiven')⟩

/-- What is made of the result does not matter. -/
theorem Fitting.discard (h : Fitting given act made) (f : α → β) :
    Fitting given (act >>= fun value => Pure.pure (f value)) fun _ => True :=
  h.bind fun _ => .pure fun _ => trivial

/-! ## Nodes and strings -/

theorem fitting_push (data : NodeData) : Fitting data.Fits (push data) Node.Fits := by
  have hlist (b : Builder) : ((push data).run b).2.ast.nodes.toList = b.ast.nodes.toList ++ [data] :=
    Arena.toList_push _ _
  refine ⟨fun b => ⟨?_, List.prefix_rfl, List.prefix_rfl⟩, fun hdata b hb hsmall => ?_⟩
  · rw [hlist]
    exact List.prefix_append _ _
  · refine ⟨⟨⟨fun stored hmem => ?_, hb.ast.sites⟩, hb.positions, hb.current⟩, ?_⟩
    · rw [hlist, List.mem_append, List.mem_singleton] at hmem
      rcases hmem with hmem | rfl
      · exact hb.ast.nodes stored hmem
      · exact hdata
    · have hsize : ((push data).run b).2.ast.size = b.ast.size + 1 := Arena.size_push _ _
      exact Nat.lt_of_lt_of_le (Nat.lt_succ_self _) (Nat.le_trans (Nat.le_of_eq hsize.symm) hsmall.1)

theorem fitting_intern (text : String) : Fitting True (intern text) Symbol.Fits := by
  refine ⟨fun b => ⟨List.prefix_rfl, b.ast.strings.strings_prefix_insert text, List.prefix_rfl⟩,
    fun _ b hb hsmall => ?_⟩
  refine ⟨⟨⟨hb.ast.nodes, hb.ast.sites⟩, hb.positions, hb.current⟩, ?_⟩
  have hlt := (List.getElem?_eq_some_iff.1 (b.ast.strings.get?_insert_self text)).1
  exact Nat.lt_of_lt_of_le hlt hsmall.2

theorem fitting_stamp (node : Node) : Fitting node.Fits (stamp node) fun _ => True := by
  have hrun (b : Builder) : ((stamp node).run b).2.ast = b.ast ∧ ((stamp node).run b).2.current = b.current ∧
      (node.Fits → b.Fits → ((stamp node).run b).2.positions.Fits) := by
    obtain ⟨ast, positions, current⟩ := b
    cases current with
    | none => exact ⟨rfl, rfl, fun _ hb => hb.positions⟩
    | some position =>
      refine ⟨rfl, rfl, fun hnode hb entry hmem => ?_⟩
      rcases mem_putFalling hmem with rfl | hmem
      · exact ⟨hnode, hb.current position rfl⟩
      · exact hb.positions entry hmem
  refine ⟨fun b => (hrun b).1 ▸ .refl b.ast, fun hnode b hb _ => ?_⟩
  obtain ⟨hast, hcurrent, hpositions⟩ := hrun b
  exact ⟨⟨hast ▸ hb.ast, hpositions hnode hb, hcurrent ▸ hb.current⟩, trivial⟩

theorem fitting_interior (kind : NodeKind) (children : List Node) :
    Fitting (∀ child ∈ children, child.Fits) (interior kind children) Node.Fits := by
  have hdata (h : ∀ child ∈ children, child.Fits) : (NodeData.interior kind children).Fits :=
    ⟨h, fun _ hvalue => nomatch hvalue⟩
  exact ((fitting_push _).imp hdata).bind fun node =>
    ((fitting_stamp node).imp And.right).bind fun _ => .pure fun h => h.1.2

theorem fitting_leaf {data : NodeData} (hchildren : data.children = [])
    (hconstant : given → ∀ value ∈ data.constant?, value.Fits) : Fitting given (push data) Node.Fits :=
  (fitting_push data).imp fun h => ⟨fun _ hmem => by simp [hchildren] at hmem, hconstant h⟩

theorem fitting_string (text : String) : Fitting given (string text) Node.Fits := by
  refine ((fitting_intern text).imp fun _ => trivial).bind fun symbol => fitting_leaf rfl ?_
  rintro ⟨-, hsymbol⟩ value ⟨⟩ found ⟨⟩
  exact hsymbol

/-- A node over children that were given and one that is made first. -/
theorem fitting_over {kind : NodeKind} {first : Build Node} {children : Node → List Node} {operands : List Node}
    (hfirst : Fitting (∀ node ∈ operands, node.Fits) first Node.Fits)
    (hchildren : ∀ node, children node ⊆ node :: operands) :
    Fitting (∀ node ∈ operands, node.Fits) (first >>= fun node => interior kind (children node)) Node.Fits := by
  refine hfirst.bind fun node => (fitting_interior kind _).imp fun h child hmem => ?_
  exact List.forall_mem_cons.2 ⟨h.2, h.1⟩ child (hchildren node hmem)

theorem fitting_operator (op : Operator) : Fitting given (operator op) Node.Fits :=
  fitting_leaf rfl fun _ _ hvalue => nomatch hvalue

theorem fitting_expr? (op : Operator) (operands : List Node) :
    Fitting (∀ node ∈ operands, node.Fits) (expr? op operands) fun _ => True := by
  unfold expr?
  split
  · exact (fitting_over (fitting_operator op) fun _ => List.Subset.refl _).discard some
  · exact (fitting_over (fitting_operator op) fun _ => List.Subset.refl _).discard some
  · exact .pure fun _ => trivial

/-! ## Calls -/

/-- The name of a callee is that of a string constant. -/
theorem exists_data_of_callee? {ast : Ast} {target : Node} {symbol : Symbol} (h : callee? ast target = some symbol) :
    ∃ node, ast.data node = .ok (.constant (.str symbol)) := by
  unfold callee? at h
  split at h
  · have hname : ast.nameSymbol? target = .ok (some symbol) := by
      cases hresult : ast.nameSymbol? target with
      | error misuse => rw [hresult] at h; cases h
      | ok name => rw [hresult] at h; exact congrArg Except.ok h
    obtain ⟨child, -, hchild⟩ := Outcome.bind_eq_ok_iff.1 hname
    cases child with
    | none => cases hchild
    | some first =>
      obtain ⟨constant, hconstant, hstr⟩ := Outcome.bind_eq_ok_iff.1 hchild
      obtain ⟨value, rfl, hvalue⟩ := Option.bind_eq_some_iff.1 (Except.ok.inj hstr)
      cases value <;> cases hvalue
      exact ⟨first, Ast.constant?_eq_some_iff.1 hconstant⟩
  · cases h

theorem fitting_call (target : Node) (args : List Node) :
    Fitting (∀ node ∈ target :: args, node.Fits) (call target args) Node.Fits := by
  have hleaf : NodeKind.call.isLeaf = false := rfl
  have hinterior := fitting_interior .call (target :: args)
  refine ⟨fun b => ?_, fun hgiven b hb hsmall => ?_⟩
  · rw [run_call]
    exact (b.extends_store _).trans (extends_enlist _ _)
  · rw [run_call] at hsmall ⊢
    have hbuilt := hinterior.fits hgiven b hb
    rw [run_interior hleaf] at hbuilt
    obtain ⟨hfits, hnode⟩ := hbuilt (hsmall.before (extends_enlist _ _))
    refine ⟨⟨⟨hfits.ast.nodes, fun site hmem => ?_⟩, hfits.positions, hfits.current⟩, hnode⟩
    rcases List.mem_append.1 hmem with hmem | hmem
    · exact hb.ast.sites site hmem
    · -- the name of the callee was in the tree before
      obtain rfl := List.mem_singleton.1 hmem
      refine ⟨hnode, hgiven target List.mem_cons_self, fun symbol hsymbol => ?_⟩
      obtain ⟨named, hdata⟩ := exists_data_of_callee? hsymbol
      have hmem := List.mem_of_getElem? (Ast.data_eq_ok_iff.1 hdata)
      exact (hb.ast.nodes _ hmem).constant _ rfl symbol rfl

end Build

/-! ## Lists of actions -/

def BuildStep.symbols : BuildStep → List Symbol
  | .at? (some current) => [current.file]
  | .constant (.str symbol) => [symbol]
  | _ => []

structure BuildStep.Fits (step : BuildStep) : Prop where
  given : ∀ node ∈ step.given, node.Fits
  symbols : ∀ symbol ∈ step.symbols, symbol.Fits

instance (step : BuildStep) : Decidable step.Fits :=
  decidable_of_iff (_ ∧ _) ⟨fun h => ⟨h.1, h.2⟩, fun h => ⟨h.given, h.symbols⟩⟩

open Build in
theorem BuildStep.fitting_run (step : BuildStep) : Fitting step.Fits step.run fun _ => True := by
  have hover {kind : NodeKind} {children : List Node} (h : children = step.given) :
      Fitting step.Fits (Build.interior kind children) Node.Fits :=
    (fitting_interior kind children).imp fun hstep => h ▸ hstep.given
  have hname {kind : NodeKind} {children : Node → List Node} (text : String)
      (h : ∀ name, children name ⊆ name :: step.given) :
      Fitting step.Fits (Build.string text >>= fun name => Build.interior kind (children name)) Node.Fits :=
    (fitting_over (fitting_string text) h).imp BuildStep.Fits.given
  have hop {kind : NodeKind} {operands : List Node} (op : Operator) (h : operands = step.given) :
      Fitting step.Fits (Build.operator op >>= fun node => Build.interior kind (node :: operands)) Node.Fits :=
    (fitting_over (fitting_operator op) fun _ => List.Subset.refl _).imp fun hstep => h ▸ hstep.given
  cases step with
  | intern text => exact ((fitting_intern text).imp fun _ => trivial).discard _
  | position file firstLine firstCol lastLine lastCol =>
    exact (((fitting_intern file).imp fun _ => trivial).discard _).discard _
  | at? current =>
    refine ⟨fun b => .refl b.ast, fun hstep b hb _ => ⟨⟨hb.ast, hb.positions, fun position hposition => ?_⟩, trivial⟩⟩
    obtain rfl := Option.mem_def.1 hposition
    exact hstep.symbols _ List.mem_cons_self
  | operator op => exact (fitting_operator op).discard some
  | constant value =>
    refine (fitting_leaf rfl fun hstep stored hstored symbol hsymbol => ?_).discard some
    cases hstored
    cases value <;> cases hsymbol
    exact hstep.symbols _ List.mem_cons_self
  | string text => exact (fitting_string text).discard some
  | empty =>
    refine (fitting_leaf rfl ?_).discard some
    exact fun _ _ hvalue => nomatch hvalue
  | var name => exact (hname name fun _ => List.Subset.refl _).discard some
  | binary op lhs rhs => exact (hop op rfl).discard some
  | unary op operand => exact (hop op rfl).discard some
  | expr op operands => exact (fitting_expr? op operands).imp BuildStep.Fits.given
  | primitive name operands => exact (hname name fun _ => List.Subset.refl _).discard some
  | call target args => exact ((fitting_call target args).imp BuildStep.Fits.given).discard some
  | assign lhs rhs => exact (hover rfl).discard some
  | ret value => exact (hover rfl).discard some
  | goto target => exact (hname target fun _ => List.Subset.refl _).discard some
  | ifGoto condition target => exact (hname target fun _ => (List.Perm.swap _ _ []).subset).discard some
  | label name => exact (hname name fun _ => List.Subset.refl _).discard some
  | block statements => exact (hover rfl).discard some

namespace Builder

theorem extends_after (b : Builder) (steps : List BuildStep) : b.ast.Extends (b.after steps).ast := by
  induction steps generalizing b with
  | nil => exact .refl b.ast
  | cons step steps ih => exact (step.fitting_run.grown b).trans (ih _)

/-- Whatever is built from numbers of 32 bits consists of such numbers, as long as there are enough of them. -/
theorem fits_after {b : Builder} {steps : List BuildStep} (h : b.Fits) (hsteps : ∀ step ∈ steps, step.Fits)
    (hsmall : (b.after steps).Small) : (b.after steps).Fits := by
  induction steps generalizing b with
  | nil => exact h
  | cons step steps ih =>
    rw [List.forall_mem_cons] at hsteps
    have hnext : (step.run b).2.Small := hsmall.before (extends_after _ steps)
    exact ih (step.fitting_run.fits hsteps.1 b h hnext).1 hsteps.2 hsmall

end Builder

end FunctionTrees
