import FunctionTrees.Proofs.Formats.Entity
import FunctionTrees.Proofs.Unit

/-!
# The first defect of some parts

* `EntityParts.LinedUp`, `EntityParts.Whole` : the arguments line up; nothing keeps the parts from being an entity;
* `EntityParts.FirstDefect parts error` : the error is for the first thing that does;
* `defect?_eq_none_iff`, `defect?_eq_some_iff` : the check finds nothing in whole parts, and otherwise the first defect;
* `decode_entity_eq_ok_iff` : an entity is read exactly where its parts are;
* `whole_or_refused` : what becomes of parts, and that each entity can be taken apart and built again.
-/

set_option autoImplicit false

namespace FunctionTrees

open Outcome

namespace EntityParts

variable {parts : EntityParts} {error : EntityError}

/-! ## Whole parts -/

def LinedUp (parts : EntityParts) : Prop :=
  parts.argumentNames.length = parts.argumentTypes.length ∧
    parts.argumentNames.length = parts.argumentPositions.length

/-- Nothing keeps the parts from being an entity. -/
structure Whole (parts : EntityParts) : Prop where
  named : parts.name ≠ ""
  linedUp : parts.LinedUp
  blocks : ∀ root ∈ parts.blocks, parts.ast.Holds root
  placed : parts.Placed

/-- The error is for the first thing that keeps the parts from being an entity. -/
inductive FirstDefect (parts : EntityParts) : EntityError → Prop
  | emptyName (hname : parts.name = "") : FirstDefect parts .emptyName
  | arityMismatch (hname : parts.name ≠ "") (harity : ¬ parts.LinedUp) :
    FirstDefect parts (.arityMismatch parts.name parts.argumentNames.length parts.argumentTypes.length
      parts.argumentPositions.length)
  /-- No earlier block has a root that is missing. -/
  | danglingBlock {before after : List Node} {root : Node} (hname : parts.name ≠ "") (harity : parts.LinedUp)
    (hblocks : parts.blocks = before ++ root :: after) (hbefore : ∀ earlier ∈ before, parts.ast.Holds earlier)
    (hmissing : ¬ parts.ast.Holds root) : FirstDefect parts (.danglingBlock parts.name before.length)
  | danglingPosition (hname : parts.name ≠ "") (harity : parts.LinedUp)
    (hblocks : ∀ root ∈ parts.blocks, parts.ast.Holds root) (hplaced : ¬ parts.Placed) :
    FirstDefect parts (.danglingPosition parts.name)

/-! ## The check -/

theorem not_linedUp_iff : ¬ parts.LinedUp ↔ parts.argumentNames.length ≠ parts.argumentTypes.length ∨
    parts.argumentNames.length ≠ parts.argumentPositions.length := by
  rw [LinedUp, not_and_or]

/-- No root is missing if none is found. -/
theorem findIdx?_missing_eq_none_iff {ast : Ast} {blocks : List Node} :
    (blocks.findIdx? fun block => !ast.contains block) = none ↔ ∀ root ∈ blocks, ast.Holds root := by
  simp only [List.findIdx?_eq_none_iff, Bool.not_eq_false', Ast.holds_iff]

/-- The root that is found is missing, and none before it is. -/
theorem findIdx?_missing_eq_some_iff {ast : Ast} {blocks : List Node} {index : Nat} :
    (blocks.findIdx? fun block => !ast.contains block) = some index ↔
      ∃ before root after, blocks = before ++ root :: after ∧ (∀ earlier ∈ before, ast.Holds earlier) ∧
        ¬ ast.Holds root ∧ before.length = index := by
  constructor
  · intro h
    obtain ⟨hlt, hroot, hbefore⟩ := List.findIdx?_eq_some_iff_getElem.1 h
    refine ⟨blocks.take index, blocks[index], blocks.drop (index + 1), ?_, fun earlier hmem => ?_, ?_,
      List.length_take_of_le (Nat.le_of_lt hlt)⟩
    · rw [List.getElem_cons_drop, List.take_append_drop]
    · obtain ⟨place, hplace, rfl⟩ := List.mem_take_iff_getElem.1 hmem
      have hheld := hbefore place (by omega)
      rwa [Bool.not_eq_true, Bool.not_eq_false', ← Ast.holds_iff] at hheld
    · rw [Ast.holds_iff]
      simpa using hroot
  · rintro ⟨before, root, after, rfl, hbefore, hmissing, rfl⟩
    have hroot : (!ast.contains root) = true := by
      rw [Ast.holds_iff] at hmissing
      simpa using hmissing
    rw [List.findIdx?_append, findIdx?_missing_eq_none_iff.2 hbefore, List.findIdx?_cons, if_pos hroot]
    simp

/-- Behind a name and arguments that line up, the roots decide. -/
theorem defect?_of_linedUp (hname : parts.name ≠ "") (harity : parts.LinedUp) : parts.defect? =
    match parts.blocks.findIdx? fun block => !parts.ast.contains block with
    | some index => some (.danglingBlock parts.name index)
    | none => if parts.positionsResolve then none else some (.danglingPosition parts.name) :=
  (if_neg hname).trans (if_neg (mt not_linedUp_iff.2 (not_not.2 harity)))

theorem Whole.defect?_eq (h : parts.Whole) : parts.defect? = none := by
  rw [defect?_of_linedUp h.named h.linedUp, findIdx?_missing_eq_none_iff.2 h.blocks]
  exact if_pos (positionsResolve_iff.2 h.placed)

theorem FirstDefect.defect?_eq (h : parts.FirstDefect error) : parts.defect? = some error := by
  cases h with
  | emptyName hname => exact if_pos hname
  | arityMismatch hname harity => exact (if_neg hname).trans (if_pos (not_linedUp_iff.1 harity))
  | danglingBlock hname harity hblocks hbefore hmissing =>
    have hfind := findIdx?_missing_eq_some_iff.2 ⟨_, _, _, hblocks, hbefore, hmissing, rfl⟩
    rw [defect?_of_linedUp hname harity, hfind]
  | danglingPosition hname harity hblocks hplaced =>
    rw [defect?_of_linedUp hname harity, findIdx?_missing_eq_none_iff.2 hblocks]
    exact if_neg (mt positionsResolve_iff.1 hplaced)

theorem whole_or_firstDefect (parts : EntityParts) : parts.Whole ∨ ∃ error, parts.FirstDefect error := by
  by_cases hname : parts.name = ""
  · exact .inr ⟨_, .emptyName hname⟩
  by_cases harity : parts.LinedUp
  · cases hfind : parts.blocks.findIdx? fun block => !parts.ast.contains block with
    | some index =>
      obtain ⟨before, root, after, hblocks, hbefore, hmissing, -⟩ := findIdx?_missing_eq_some_iff.1 hfind
      exact .inr ⟨_, .danglingBlock hname harity hblocks hbefore hmissing⟩
    | none =>
      have hblocks := findIdx?_missing_eq_none_iff.1 hfind
      by_cases hplaced : parts.Placed
      · exact .inl ⟨hname, harity, hblocks, hplaced⟩
      · exact .inr ⟨_, .danglingPosition hname harity hblocks hplaced⟩
  · exact .inr ⟨_, .arityMismatch hname harity⟩

theorem defect?_eq_none_iff : parts.defect? = none ↔ parts.Whole := by
  refine ⟨fun hnone => ?_, Whole.defect?_eq⟩
  rcases parts.whole_or_firstDefect with hwhole | ⟨error, hfirst⟩
  · exact hwhole
  · rw [hfirst.defect?_eq] at hnone
    cases hnone

theorem defect?_eq_some_iff : parts.defect? = some error ↔ parts.FirstDefect error := by
  refine ⟨fun hsome => ?_, FirstDefect.defect?_eq⟩
  rcases parts.whole_or_firstDefect with hwhole | ⟨other, hfirst⟩
  · rw [hwhole.defect?_eq] at hsome
    cases hsome
  · rw [hfirst.defect?_eq] at hsome
    exact Option.some.inj hsome ▸ hfirst

end EntityParts

/-! ## Entities -/

/-- Parts are built as the entity of which they are the parts. -/
theorem build_eq_ok_iff {parts : EntityParts} {entity : Entity} :
    (Entity.build parts).result = .ok entity ↔ entity.parts = parts := by
  rw [result_build, Entity.ofParts_eq_ok_iff]

/-- An entity is read exactly where its parts are. -/
theorem decode_entity_eq_ok_iff {source : String} {entity : Entity} :
    Entity.format.decode source = .ok entity ↔ EntityParts.format.decode source = .ok entity.parts := by
  rw [Entity.format, Entity.formatIn_eq, Json.Format.decode_checked_eq_ok_iff]
  simp only [mapError_eq_ok_iff, Entity.ofParts_eq_ok_iff, exists_eq_right', EntityParts.format]

/-- Whole parts are built as an entity, and others are refused for their first defect. An entity has the parts of which it
was built, or that were made of a function, or read from a text, and can be built of them again. -/
theorem whole_or_refused :
    (∀ parts : EntityParts, (∃ entity, (Entity.build parts).result = .ok entity) ↔ parts.Whole) ∧
      (∀ parts error, (Entity.build parts).result = .error error ↔ parts.FirstDefect error) ∧
      (∀ parts entity, (Entity.build parts).result = .ok entity → entity.parts = parts) ∧
      (∀ function entity, (entityOf function).result = .ok entity →
        (Lowering.lower function).result = .ok entity.parts) ∧
      (∀ source entity, Entity.format.decode source = .ok entity →
        EntityParts.format.decode source = .ok entity.parts) ∧
      ∀ entity : Entity, (Entity.build entity.parts).result = .ok entity := by
  refine ⟨fun parts => ?_, fun parts error => ?_, fun parts entity => build_eq_ok_iff.1,
    fun function entity => entityOf_eq_ok_iff.1, fun source entity => decode_entity_eq_ok_iff.1,
    fun entity => build_eq_ok_iff.2 rfl⟩
  · rw [← EntityParts.defect?_eq_none_iff]
    constructor
    · rintro ⟨entity, hentity⟩
      exact build_eq_ok_iff.1 hentity ▸ entity.parts_sound
    · exact fun hsound => ⟨.assemble parts hsound, build_eq_ok_iff.2 rfl⟩
  · rw [result_build, Entity.ofParts_eq_error_iff, EntityParts.defect?_eq_some_iff]

/-- With a second and a third block whose roots are missing, and a file that is not known, the second block counts. -/
theorem whole_or_refused_recordedCall :
    let parts := EntityParts.ofRecordedCall ⟨2⟩
    let strayed := { parts with
      blocks := [⟨2⟩, ⟨7⟩, ⟨5⟩], position := some ⟨⟨9⟩, ⟨1, 1, 2, 9, by decide, by decide⟩⟩ }
    (∃ entity, (Entity.build parts).result = .ok entity ∧ entity.parts = parts ∧
      (Entity.build entity.parts).result = .ok entity) ∧
      (Entity.build strayed).result = .error (.danglingBlock "f" 1) := by
  intro parts strayed
  obtain ⟨haccepts, hrefuses, hparts, -, -, hagain⟩ := whole_or_refused
  obtain ⟨entity, hentity⟩ := (haccepts parts).2 (EntityParts.defect?_eq_none_iff.1 (by decide))
  refine ⟨⟨entity, hentity, hparts parts entity hentity, hagain entity⟩, (hrefuses strayed _).2 ?_⟩
  have hheld : parts.ast.Holds ⟨2⟩ := Ast.holds_iff.2 (by decide)
  have hmissing : ¬ parts.ast.Holds ⟨7⟩ := mt Ast.holds_iff.1 (by decide)
  have hfirst : strayed.blocks = [⟨2⟩] ++ ⟨7⟩ :: [⟨5⟩] := rfl
  exact .danglingBlock (by decide) ⟨rfl, rfl⟩ hfirst (List.forall_mem_singleton.2 hheld) hmissing

end FunctionTrees
