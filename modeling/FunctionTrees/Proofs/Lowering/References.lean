import FunctionTrees.Proofs.Entity
import FunctionTrees.Proofs.Lowering.Calls

/-!
# The references of lowered functions resolve

* `Signed function parts` : the parts have the signature of the function, its spans as positions of their tree;
  `signed_of_lower` : the parts of a lowered function have its signature;
* `knows_of_constant`, `knows_of_recorded`, `knows_of_position` : the strings that a lowered function refers to;
* `resolved_ast_of_lower` : its tree is resolved, and so are all its parts, `partsResolved_of_lower`;
* `resolved_of_lower` : the parts lack no more than a name or an argument, and all nodes of the entity are readable.
-/

set_option autoImplicit false

namespace FunctionTrees.Lowering

open Outcome

variable {function : Transfer.Function} {parts : EntityParts}

/-! ## The signature -/

/-- The parts have the signature of the function, its spans as positions of their tree. -/
structure Signed (function : Transfer.Function) (parts : EntityParts) : Prop where
  name : parts.name = function.name
  returnType : parts.returnType = function.returnType
  argumentNames : parts.argumentNames = function.argumentNames
  argumentTypes : parts.argumentTypes = function.argumentTypes
  position : Option.Rel parts.ast.Shows function.position parts.position
  argumentPositions : List.Forall₂ parts.ast.Shows function.argumentPositions parts.argumentPositions

/-- The spans are taken in before there is any node, and what they refer to stays what it is. -/
theorem signed_of_lower (h : (lower function).result = .ok parts) : Signed function parts := by
  rw [result_lower] at h
  obtain ⟨plan, hplan, ⟨⟩⟩ := bind_eq_ok_iff.1 h
  have hplanned := functionPlanned_of_planOf hplan
  obtain ⟨-, -, hlaid⟩ := lays_plan plan {} Builder.sound_empty rfl
  refine ⟨rfl, rfl, rfl, rfl, shows?_of_sited hplanned.position hlaid.position, ?_⟩
  exact forall₂_trans hplanned.argumentPositions hlaid.argumentPositions fun _ _ _ => shows_of_sited

/-! ## Strings -/

/-- All nodes of a lowered function are under its roots, which unfold. -/
theorem knows_of_constant (h : (lower function).result = .ok parts) {node : Node} {symbol : Symbol}
    (hdata : parts.ast.data node = .ok (.constant (.str symbol))) : parts.ast.Knows symbol := by
  have hbuilt := functionBuilt_of_lower h
  obtain ⟨root, hroot, hbelow⟩ := hbuilt.covers.below_iff.2 ⟨Nat.zero_le _, Ast.lt_size_of_data hdata⟩
  obtain ⟨block, -, label, segments, hblock⟩ := exists_mem_zip_of_forall₂ hbuilt.blocks hroot
  exact Ast.knows_of_unfoldTo (hblock.unfold hbuilt.covers.sound.closed) hbelow hdata

theorem callsIndexed_of_lower (h : (lower function).result = .ok parts) : parts.ast.CallsIndexed := by
  obtain ⟨steps, hadmits, hbuilder⟩ := exists_steps_of_lower h
  have hafter := Builder.callsIndexed_of_moves (Builder.moves_after hadmits) Builder.regular_empty Ast.callsIndexed_empty
  rwa [← hbuilder] at hafter

theorem resolved_ast_of_lower (h : (lower function).result = .ok parts) : parts.ast.Resolved := by
  have hclosed := (functionBuilt_of_lower h).covers.sound.closed
  have hfalling : ∀ node children, parts.ast.children node = .ok children → ∀ child ∈ children,
      child.index < node.index ∧ node.index < parts.ast.size := by
    intro node children hchildren child hmem
    obtain ⟨data, hdata, rfl⟩ := Ast.children_eq_ok_iff.1 hchildren
    exact ⟨hclosed node data hdata child hmem, Ast.lt_size_of_data hdata⟩
  refine ⟨?_, ?_, ?_, ?_⟩
  · intro node children hchildren child hmem
    obtain ⟨hchild, hnode⟩ := hfalling node children hchildren child hmem
    exact Ast.contains_iff.2 (Nat.lt_trans hchild hnode)
  · exact fun node children hchildren child hmem => (hfalling node children hchildren child hmem).1
  · exact fun node symbol hconstant => knows_of_constant h (Ast.constant?_eq_some_iff.1 hconstant)
  · intro site hsite
    have hsound := (callsIndexed_of_lower h).sites site hsite
    obtain ⟨args, hcall⟩ := hsound.target
    have htarget := hclosed _ _ hcall _ List.mem_cons_self
    refine ⟨Ast.contains_iff.2 hsound.call_lt, Ast.contains_iff.2 (Nat.lt_trans htarget hsound.call_lt), ?_⟩
    intro symbol hsymbol
    obtain ⟨name, -, hname⟩ := (hsound.callee symbol).1 hsymbol
    exact knows_of_constant h hname

theorem knows_of_shows {span : Transfer.Span} {position : Position} {ast : Ast} (h : ast.Shows span position) :
    ast.Knows position.file :=
  ⟨_, StringPool.fetch_eq_ok_iff.2 h.file⟩

theorem knows_of_recorded (h : (lower function).result = .ok parts) {node : Node} {position : Position}
    (hposition : parts.positions.get? node = some position) :
    parts.ast.contains node = true ∧ parts.ast.Knows position.file := by
  have hbuilt := functionBuilt_of_lower h
  obtain ⟨hinner, statement, inst, hfrom, -, hbelow⟩ :=
    (hbuilt.isSome_iff node).1 (Option.isSome_iff_exists.2 ⟨position, hposition⟩)
  have hshows := (hbuilt.shows hfrom hbelow).1 hinner
  rw [hposition] at hshows
  refine ⟨Ast.contains_iff.2 hinner.lt_size, ?_⟩
  generalize inst.position = span at hshows
  cases hshows with
  | some hshows => exact knows_of_shows hshows

/-- The positions of a function and of its arguments show its spans. -/
theorem knows_of_position (h : (lower function).result = .ok parts) :
    (∀ position, parts.position = some position → parts.ast.Knows position.file) ∧
      ∀ position ∈ parts.argumentPositions, parts.ast.Knows position.file := by
  have hsigned := signed_of_lower h
  refine ⟨fun position hposition => ?_, fun position hmem => ?_⟩
  · have hshows := hsigned.position
    rw [hposition] at hshows
    generalize function.position = span at hshows
    cases hshows with
    | some hshows => exact knows_of_shows hshows
  · obtain ⟨span, -, hshows⟩ := exists_mem_of_forall₂ hsigned.argumentPositions.flip hmem
    exact knows_of_shows hshows

theorem partsResolved_of_lower (h : (lower function).result = .ok parts) : parts.Resolved := by
  refine ⟨resolved_ast_of_lower h, fun root hroot => ?_, fun node position => knows_of_recorded h,
    (knows_of_position h).1, (knows_of_position h).2⟩
  obtain ⟨block, -, label, segments, hblock⟩ := exists_mem_zip_of_forall₂ (functionBuilt_of_lower h).blocks hroot
  exact Ast.contains_iff.2 (Ast.lt_size_of_data hblock.data)

/-! ## All references -/

/-- What the parts of a lowered function refer to is in its tree. They make an entity unless they lack a name or the
arguments do not line up, and all nodes of that entity are readable. -/
theorem resolved_of_lower (function : Transfer.Function) (parts : EntityParts)
    (h : (lower function).result = .ok parts) :
    parts.Resolved ∧
      (∀ error, Entity.ofParts parts = .error error → error = .emptyName ∨
        ∃ names types positions, error = .arityMismatch parts.name names types positions) ∧
      ∀ entity, Entity.ofParts parts = .ok entity →
        ∀ node, entity.ast.contains node = true → entity.ast.Readable entity.positions node := by
  have hresolved := partsResolved_of_lower h
  refine ⟨hresolved, fun error herror => ?_, fun entity hentity node hnode => ?_⟩
  · have hdefect := Entity.ofParts_eq_error_iff.1 herror
    rw [hresolved.defect?_eq] at hdefect
    split_ifs at hdefect <;> cases hdefect
    · exact .inl rfl
    · exact .inr ⟨_, _, _, rfl⟩
  · obtain rfl := Entity.ofParts_eq_ok_iff.1 hentity
    exact hresolved.ast.readable (fun node position hposition => (hresolved.recorded node position hposition).2) hnode

theorem resolved_sample : ∃ parts, (lower sample).result = .ok parts ∧ parts.Resolved ∧
    ∃ entity, Entity.ofParts parts = .ok entity ∧
      ∀ node, entity.ast.contains node = true → entity.ast.Readable entity.positions node := by
  have hsample : (lower sample).result.map EntityParts.defect? = .ok none := by decide +kernel
  obtain ⟨parts, hparts, hdefect⟩ := map_eq_ok_iff.1 hsample
  have hentity : Entity.ofParts parts = .ok (.assemble parts hdefect) := Entity.ofParts_eq_ok_iff.2 rfl
  obtain ⟨hresolved, -, hreadable⟩ := resolved_of_lower sample parts hparts
  exact ⟨parts, hparts, hresolved, _, hentity, hreadable _ hentity⟩

end FunctionTrees.Lowering
