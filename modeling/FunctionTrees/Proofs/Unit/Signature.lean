import FunctionTrees.Proofs.Lowering.Notes
import FunctionTrees.Proofs.Lowering.References
import FunctionTrees.Proofs.Unit

/-!
# What an entity says of its function

* `Entity.lengths`, `Entity.getElem?_arguments` : the arguments of an entity line up, and each has its name, its type and
  its position from the same place;
* `Entity.Describes entity function` : signature, arguments and blocks of the entity are those of the function;
* `defect?_of_lower` : only its signature keeps a function that is lowered from being an entity;
* `describes_of_entityOf` : the entity of a function describes it, and why a function has none.
-/

set_option autoImplicit false

namespace FunctionTrees

open Outcome Transfer

/-! ## Arguments -/

namespace Entity

/-- The arguments of an entity line up. -/
theorem lengths (entity : Entity) : entity.argumentNames.length = entity.argumentTypes.length ∧
    entity.argumentNames.length = entity.argumentPositions.length := by
  by_contra hdefect
  rw [not_and_or] at hdefect
  have hsound := entity.sound
  unfold EntityParts.defect? at hsound
  dsimp only at hsound
  rw [if_pos hdefect] at hsound
  split at hsound <;> cases hsound

theorem length_arguments (entity : Entity) : entity.arguments.length = entity.argumentNames.length := by
  obtain ⟨htypes, hpositions⟩ := entity.lengths
  simp only [arguments, List.length_map, List.length_zip]
  omega

theorem getElem?_arguments {entity : Entity} {index : Nat} {argument : Argument}
    (h : entity.arguments[index]? = some argument) :
    entity.argumentNames[index]? = some argument.name ∧ entity.argumentTypes[index]? = some argument.type ∧
      entity.argumentPositions[index]? = some argument.position := by
  rw [arguments, List.getElem?_map, Option.map_eq_some_iff] at h
  obtain ⟨⟨name, type, position⟩, hzip, rfl⟩ := h
  obtain ⟨hname, hrest⟩ := List.getElem?_zip_eq_some.1 hzip
  obtain ⟨htype, hposition⟩ := List.getElem?_zip_eq_some.1 hrest
  exact ⟨hname, htype, hposition⟩

/-- The entity has the signature, the arguments and the blocks of the function. -/
structure Describes (entity : Entity) (function : Function) : Prop where
  name : entity.name = function.name
  returnType : entity.returnType = function.returnType
  /-- There is one argument for each parameter. -/
  lengths : function.argumentNames.length = entity.arguments.length ∧
    function.argumentTypes.length = entity.arguments.length ∧
    function.argumentPositions.length = entity.arguments.length
  arguments : ∀ (index : Nat) (argument : Argument), entity.arguments[index]? = some argument →
    function.argumentNames[index]? = some argument.name ∧ function.argumentTypes[index]? = some argument.type ∧
      ∃ span, function.argumentPositions[index]? = some span ∧ entity.ast.Shows span argument.position
  position : Option.Rel entity.ast.Shows function.position entity.position
  /-- There is one root for each block, and it was built from that block. -/
  blocks : List.Forall₂ (fun block root => entity.ast.unfold entity.positions.get? root = .ok (Block.notedTree block))
    function.blocks entity.blocks
  entry : Option.Rel (fun block root => entity.ast.unfold entity.positions.get? root = .ok (Block.notedTree block))
    function.blocks.head? entity.entry?
  isDeclaration_iff : entity.isDeclaration = true ↔ function.blocks = []

end Entity

/-! ## Functions that are lowered -/

variable {function : Function} {parts : EntityParts}

/-- Nothing but its signature keeps a function that is lowered from being an entity. -/
theorem defect?_of_lower (h : (Lowering.lower function).result = .ok parts) : parts.defect? =
    if function.name = "" then some .emptyName
    else if function.argumentNames.length ≠ function.argumentTypes.length ∨
        function.argumentNames.length ≠ function.argumentPositions.length then
      some (.arityMismatch function.name function.argumentNames.length function.argumentTypes.length
        function.argumentPositions.length)
    else none := by
  have hsigned := Lowering.signed_of_lower h
  rw [(Lowering.partsResolved_of_lower h).defect?_eq, hsigned.name, hsigned.argumentNames, hsigned.argumentTypes,
    ← hsigned.argumentPositions.length_eq]

theorem result_entityOf_of_lower (h : (Lowering.lower function).result = .ok parts) :
    (entityOf function).result = (Entity.ofParts parts).mapError .entity := by
  rw [result_entityOf, h]
  rfl

theorem exists_entityOf_iff (h : (Lowering.lower function).result = .ok parts) :
    (∃ entity, (entityOf function).result = .ok entity) ↔ parts.defect? = none := by
  simp only [result_entityOf_of_lower h, mapError_eq_ok_iff, Entity.ofParts_eq_ok_iff]
  constructor
  · rintro ⟨entity, rfl⟩
    exact entity.parts_sound
  · exact fun hsound => ⟨.assemble parts hsound, rfl⟩

theorem entityOf_eq_error {error : EntityError} (h : (Lowering.lower function).result = .ok parts)
    (hdefect : parts.defect? = some error) : (entityOf function).result = .error (.entity error) := by
  rw [result_entityOf_of_lower h, Entity.ofParts_eq_error_iff.2 hdefect]
  rfl

theorem describes_of_lower {entity : Entity} (h : (Lowering.lower function).result = .ok entity.parts) :
    entity.Describes function := by
  have hsigned := Lowering.signed_of_lower h
  have hblocks := List.forall₂_map_left_iff.1 (mapM_eq_ok_iff.1 (Lowering.lower_unfold_noted h)).flip
  obtain ⟨htypes, hpositions⟩ := entity.lengths
  refine ⟨hsigned.name, hsigned.returnType, ?_, fun index argument hargument => ?_, hsigned.position, hblocks, ?_, ?_⟩
  · rw [entity.length_arguments, hsigned.argumentPositions.length_eq, ← hsigned.argumentNames, ← hsigned.argumentTypes]
    exact ⟨rfl, htypes.symm, hpositions.symm⟩
  · obtain ⟨hname, htype, hposition⟩ := entity.getElem?_arguments hargument
    obtain ⟨span, hspan, hshows⟩ := exists_of_forall₂ hsigned.argumentPositions.flip hposition
    exact ⟨hsigned.argumentNames ▸ hname, hsigned.argumentTypes ▸ htype, span, hspan, hshows⟩
  · exact rel_head?_of_forall₂ hblocks
  · rw [Entity.isDeclaration, List.isEmpty_iff, ← List.length_eq_zero_iff, ← List.length_eq_zero_iff, hblocks.length_eq]
    rfl

/-- The entity of a function describes it. A function that is not lowered has no entity for just that reason, and one that
is lowered has none if it lacks a name or else if its arguments do not line up. -/
theorem describes_of_entityOf (function : Function) :
    (∀ entity, (entityOf function).result = .ok entity → entity.Describes function) ∧
      ((∃ entity, (entityOf function).result = .ok entity) ↔
        (∃ parts, (Lowering.lower function).result = .ok parts) ∧ function.name ≠ "" ∧
          function.argumentNames.length = function.argumentTypes.length ∧
          function.argumentNames.length = function.argumentPositions.length) ∧
      (∀ error, (Lowering.lower function).result = .error error →
        (entityOf function).result = .error (.lowering error)) ∧
      ∀ parts, (Lowering.lower function).result = .ok parts →
        (function.name = "" → (entityOf function).result = .error (.entity .emptyName)) ∧
          (function.name ≠ "" → (function.argumentNames.length ≠ function.argumentTypes.length ∨
              function.argumentNames.length ≠ function.argumentPositions.length) →
            (entityOf function).result = .error (.entity (.arityMismatch function.name function.argumentNames.length
              function.argumentTypes.length function.argumentPositions.length))) := by
  refine ⟨fun entity h => describes_of_lower (entityOf_eq_ok_iff.1 h), ⟨?_, ?_⟩, fun error h => ?_,
    fun parts h => ⟨fun hname => ?_, fun hname harity => ?_⟩⟩
  · rintro ⟨entity, hentity⟩
    have hlower := entityOf_eq_ok_iff.1 hentity
    have hsound := (defect?_of_lower hlower).symm.trans entity.parts_sound
    split_ifs at hsound with hname harity
    rw [not_or, not_not, not_not] at harity
    exact ⟨⟨_, hlower⟩, hname, harity⟩
  · rintro ⟨⟨parts, hlower⟩, hname, htypes, hpositions⟩
    rw [exists_entityOf_iff hlower, defect?_of_lower hlower, if_neg hname, if_neg]
    exact not_or.2 ⟨not_not.2 htypes, not_not.2 hpositions⟩
  · rw [result_entityOf, h]
    rfl
  · exact entityOf_eq_error h ((defect?_of_lower h).trans (if_pos hname))
  · exact entityOf_eq_error h ((defect?_of_lower h).trans ((if_neg hname).trans (if_pos harity)))

/-- A function of one argument, of which the body is in another file. -/
def negation : Function where
  name := "negated"
  returnType := "Int"
  argumentNames := ["x"]
  argumentTypes := ["Int"]
  argumentPositions := [⟨"f.swift", 1, 14, 1, 20⟩]
  position := some ⟨"f.swift", 1, 1, 3, 2⟩
  blocks := [⟨"entry", [{ opcode := "return", operands := [.var "x"], position := some ⟨"g.swift", 2, 3, 2, 12⟩ }]⟩]

/-- Without its argument list and its name, it fails for the name. -/
theorem describes_of_entityOf_negation :
    (∃ entity, (entityOf negation).result = .ok entity ∧ entity.Describes negation) ∧
      (entityOf { negation with name := "", argumentNames := [] }).result = .error (.entity .emptyName) := by
  constructor
  · obtain ⟨hdescribes, hentity, -, -⟩ := describes_of_entityOf negation
    obtain ⟨entity, hok⟩ := hentity.2 ⟨⟨_, rfl⟩, by decide, rfl, rfl⟩
    exact ⟨entity, hok, hdescribes entity hok⟩
  · obtain ⟨-, -, -, hrefused⟩ := describes_of_entityOf { negation with name := "", argumentNames := [] }
    exact (hrefused _ rfl).1 rfl

end FunctionTrees
