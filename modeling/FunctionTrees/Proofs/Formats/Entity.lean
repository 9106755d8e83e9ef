import FunctionTrees.Formats.Entity
import FunctionTrees.Proofs.Entity
import FunctionTrees.Proofs.Formats.Builder

/-!
# Entities are read back from JSON

* `EntityParts.Fits` : all keys and symbols are numbers of 32 bits; `yields_entityParts` : so they are in all that is
  read;
* `reads_entityParts` : parts are read back, in whatever order their positions are written;
* `decode_entity` : and they are read as the entity that they make, or refused for what keeps them from making one;
* `entity_of_text` : so it is, and every entity is read back.
-/

set_option autoImplicit false

namespace FunctionTrees

open Json

structure EntityParts.Fits (parts : EntityParts) : Prop where
  ast : parts.ast.Fits
  blocks : ∀ root ∈ parts.blocks, root.Fits
  positions : parts.positions.Fits
  position : ∀ position ∈ parts.position, position.file.Fits
  argumentPositions : ∀ position ∈ parts.argumentPositions, position.file.Fits

variable {order : List (Nat × Position) → List (Nat × Position)} {parts : EntityParts}

/-- Whatever parts are read fit. -/
theorem yields_entityParts : EntityParts.format.Yields EntityParts.Fits := by
  have htext : Format.text.Yields fun _ => True := Reader.yields_any _
  refine Format.yields_record (Layout.yields_required htext (Layout.yields_required yields_ast
    (Layout.yields_required (yields_node.listAs _) (Layout.yields_required htext
    (Layout.yields_required (htext.listAs _) (Layout.yields_required (htext.listAs _)
    (Layout.yields_required yields_positionTable (Layout.yields_orNone yields_position
    (Layout.yields_required (yields_position.listAs _) .done))))))))) ?_ _
  rintro ⟨name, ast, blocks, returnType, argumentTypes, argumentNames, positions, position, argumentPositions, _⟩
    ⟨-, hast, hblocks, -, -, -, hpositions, hposition, hargumentPositions, -⟩
  exact ⟨hast, hblocks, hpositions, hposition, hargumentPositions⟩

/-! ## Reading back -/

/-- An entity is written as its parts are, and read as they are if they make one. -/
theorem Entity.formatIn_eq (order : List (Nat × Position) → List (Nat × Position)) : Entity.formatIn order =
    (EntityParts.formatIn order).checked Entity.parts fun parts =>
      (Entity.ofParts parts).mapError EntityError.message := by
  have hread : (Entity.formatIn order).reader = ((EntityParts.formatIn order).checked Entity.parts fun parts =>
      (Entity.ofParts parts).mapError EntityError.message).reader := by
    unfold Entity.formatIn Format.checked
    dsimp only
    congr 1
    funext parts
    cases Entity.ofParts parts <;> rfl
  have hwrite : Entity.writeIn order = fun entity => (EntityParts.formatIn order).write entity.parts := rfl
  exact congrArg₂ Format.mk hread hwrite

/-- Parts are read back, in whatever order their positions are written. -/
theorem reads_entityParts (h : parts.Fits) (horder : ∀ entries, (order entries).Perm entries) :
    EntityParts.format.reader.Reads ((EntityParts.formatIn order).write parts) parts := by
  have hblocks : Node.format.list.Reads parts.blocks :=
    Format.reads_listAs _ fun root hmem => reads_node (h.blocks root hmem)
  have hposition : Position.format.optional.Reads parts.position := by
    cases hposition : parts.position with
    | none => exact Format.reads_none _
    | some position => exact (reads_position (h.position position hposition)).optional nofun
  have hargumentPositions : Position.format.list.Reads parts.argumentPositions :=
    Format.reads_listAs _ fun position hmem => reads_position (h.argumentPositions position hmem)
  rw [EntityParts.formatIn, Format.write_record]
  refine Format.reads_object (by decide) (.field (Format.reads_text parts.name) (.field (reads_ast h.ast)
    (.field hblocks (.field (Format.reads_text parts.returnType) (.field (Format.reads_texts parts.argumentTypes)
    (.field (Format.reads_texts parts.argumentNames) (.field (reads_positionTable h.positions horder) (.field hposition
    (.field hargumentPositions .done))))))))) rfl

/-- Parts are read as the entity that they make, or refused for what keeps them from making one. -/
theorem decode_entity (h : parts.Fits) (horder : ∀ entries, (order entries).Perm entries) :
    Entity.format.decode ((EntityParts.formatIn order).encode parts) =
      (Entity.ofParts parts).mapError fun error => ⟨.unfit (.refused error.message), none⟩ := by
  have hreads := reads_entityParts h horder
  rw [Entity.format, Entity.formatIn_eq]
  cases hentity : Entity.ofParts parts with
  | error error =>
    have hcheck : (Entity.ofParts parts).mapError EntityError.message = .error error.message := by rw [hentity]; rfl
    exact Format.decode_refused hreads hcheck
  | ok entity =>
    have hcheck : (Entity.ofParts parts).mapError EntityError.message = .ok entity := by rw [hentity]; rfl
    exact Format.decode_of_reads (Format.reads_checked hreads hcheck)

theorem yields_entity : Entity.format.Yields fun entity => entity.parts.Fits := by
  rw [Entity.format, Entity.formatIn_eq]
  refine yields_entityParts.checked fun parts entity hfits hentity => ?_
  rw [Outcome.mapError_eq_ok_iff, Entity.ofParts_eq_ok_iff] at hentity
  exact hentity ▸ hfits

/-- In whatever order their positions are written, parts are read back from their text, and read as the entity that they
make, or refused for what keeps them from making one. So every entity is read back, be it one that was read. All keys
and symbols of what is read or built are numbers of 32 bits. -/
theorem entity_of_text (order : List (Nat × Position) → List (Nat × Position))
    (horder : ∀ entries, (order entries).Perm entries) :
    (∀ parts : EntityParts, parts.Fits →
      let text := (EntityParts.formatIn order).encode parts
      EntityParts.format.decode text = .ok parts ∧
        Entity.format.decode text =
          (Entity.ofParts parts).mapError fun error => ⟨.unfit (.refused error.message), none⟩) ∧
      (∀ entity : Entity, entity.parts.Fits →
        Entity.format.decode ((Entity.formatIn order).encode entity) = .ok entity) ∧
      (∀ source entity, Entity.format.decode source = .ok entity →
        Entity.format.decode ((Entity.formatIn order).encode entity) = .ok entity) ∧
      (∀ source parts, EntityParts.format.decode source = .ok parts → parts.Fits) ∧
      ∀ steps : List BuildStep, (∀ step ∈ steps, step.Fits) → (Builder.after {} steps).Small →
        (Builder.after {} steps).ast.Fits ∧ (Builder.after {} steps).positions.Fits := by
  have hback : ∀ entity : Entity, entity.parts.Fits →
      Entity.format.decode ((Entity.formatIn order).encode entity) = .ok entity := by
    intro entity hfits
    have hwrite : (Entity.formatIn order).encode entity = (EntityParts.formatIn order).encode entity.parts := by
      rw [Entity.formatIn_eq]
      rfl
    rw [hwrite, decode_entity hfits horder]
    rw [Entity.ofParts_eq_ok_iff.2 rfl]
    rfl
  refine ⟨fun parts hfits => ⟨?_, decode_entity hfits horder⟩, hback, fun source entity hread => ?_,
    fun source parts hread => ?_, fun steps hsteps hsmall => ?_⟩
  · exact Format.decode_of_reads (reads_entityParts hfits horder)
  · exact hback entity (yields_entity.decode hread)
  · exact yields_entityParts.decode hread
  · have hbuilt := Builder.fits_after Builder.fits_empty hsteps hsmall
    exact ⟨hbuilt.ast, hbuilt.positions⟩

/-- A call and its callee, both with a position. -/
def recordedCall : List BuildStep :=
  [.position "f.c" 1 1 2 9, .at? (some ⟨⟨0⟩, ⟨1, 1, 2, 9, by decide, by decide⟩⟩), .var "f", .call ⟨1⟩ []]

/-- A function of one block that `recordedCall` builds, whatever is said to be the root of the block. -/
def EntityParts.ofRecordedCall (root : Node) : EntityParts where
  name := "f"
  ast := (Builder.after {} recordedCall).ast
  blocks := [root]
  positions := (Builder.after {} recordedCall).positions

theorem entity_of_text_reversed :
    let write := (EntityParts.formatIn List.reverse).encode
    let parts := EntityParts.ofRecordedCall ⟨2⟩
    let dangling := EntityParts.ofRecordedCall ⟨3⟩
    parts.Fits ∧ dangling.Fits ∧ EntityParts.format.decode (write parts) = .ok parts ∧
      EntityParts.format.decode (write dangling) = .ok dangling ∧
      Entity.format.decode (write dangling) =
        .error ⟨.unfit (.refused "block 0 of `f` is not a node of its AST"), none⟩ ∧
      ∃ entity, entity.parts = parts ∧ Entity.format.decode (write parts) = .ok entity ∧
        Entity.format.decode ((Entity.formatIn List.reverse).encode entity) = .ok entity := by
  obtain ⟨hparts, -, hreread, hread, hbuilt⟩ := entity_of_text List.reverse List.reverse_perm
  have hfits (root : Node) (hroot : root.Fits) : (EntityParts.ofRecordedCall root).Fits := by
    obtain ⟨hast, hpositions⟩ := hbuilt recordedCall (by decide) (by decide)
    refine ⟨hast, List.forall_mem_singleton.2 hroot, hpositions, ?_, ?_⟩
    · exact fun _ hmem => nomatch hmem
    · exact fun _ hmem => nomatch hmem
  have hsound : (EntityParts.ofRecordedCall ⟨2⟩).defect? = none := by decide
  have hdangling : (EntityParts.ofRecordedCall ⟨3⟩).defect? = some (.danglingBlock "f" 0) := by decide
  have hentity : Entity.ofParts (EntityParts.ofRecordedCall ⟨2⟩) = .ok (.assemble _ hsound) := Entity.ofParts_eq_ok_iff.2 rfl
  obtain ⟨hback, hmade⟩ := hparts _ (hfits ⟨2⟩ (by decide))
  obtain ⟨hback', hmade'⟩ := hparts _ (hfits ⟨3⟩ (by decide))
  rw [hentity] at hmade
  rw [Entity.ofParts_eq_error_iff.2 hdangling] at hmade'
  exact ⟨hread _ _ hback, hread _ _ hback', hback, hback', hmade', .assemble _ hsound, rfl, hmade, hreread _ _ hmade⟩

end FunctionTrees
