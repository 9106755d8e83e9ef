import FunctionTrees.Proofs.CommandLine.Schedules
import FunctionTrees.Proofs.Unit

/-!
# What an input gives

* `Intake.ofUnit functions` : what a table makes of a unit; `intakeOf_eq_ofUnit` : the tool, which takes results in, makes
  the same of it;
* `length_ofUnit`, `entityOf_of_mem_ofUnit` : each function is kept or fails, and what is kept is the entity of one;
* `InputResult.ofUnit unit` : what becomes of an input that has a unit, or of one that has none;
  `ofContent_eq_ofUnit` : the tool makes that of it.
-/

set_option autoImplicit false

namespace FunctionTrees.CommandLine

open Outcome

variable {functions : List Transfer.Function} {function : Transfer.Function} {entity : Entity}

/-! ## Units -/

/-- What a table that is empty at first makes of a unit. -/
def Intake.ofUnit (functions : List Transfer.Function) : Intake :=
  let delivery := Delivery.ofFunctions functions ({} : EntityTable)
  ⟨delivery.consumer, delivery.failures⟩

theorem resultOf_eq (function : Transfer.Function) :
    resultOf function = (entityOf function).result.mapError fun error => ⟨function.name, error⟩ :=
  result_reportFailure function (entityOf function)

/-- Taking the result of a function in and handing its entity over come to the same. -/
theorem Intake.add_resultOf (delivery : Delivery EntityTable) (function : Transfer.Function) :
    Intake.add ⟨delivery.consumer, delivery.failures⟩ (resultOf function) =
      ⟨(delivery.add function).consumer, (delivery.add function).failures⟩ := by
  rw [resultOf_eq]
  cases hresult : (entityOf function).result with
  | error error =>
    obtain ⟨hconsumer, hfailures⟩ := delivery.add_of_error hresult
    rw [hconsumer, hfailures]
    rfl
  | ok entity =>
    show Intake.add _ (.ok entity) = _
    unfold Intake.add
    dsimp only
    cases hoffer : (EntityTable.offer entity).run delivery.consumer with
    | mk answer table =>
      cases answer with
      | ok taken =>
        obtain ⟨hconsumer, hfailures⟩ := delivery.add_of_accept hresult hoffer
        rw [hconsumer, hfailures]
      | error error =>
        obtain ⟨hconsumer, hfailures⟩ := delivery.add_of_refuse hresult hoffer
        rw [hconsumer, hfailures, name_of_entityOf hresult]

theorem intakeOf_eq_ofUnit (workers : Nat) (schedule : Crew.Schedule) (functions : List Transfer.Function) :
    intakeOf workers schedule functions = Intake.ofUnit functions := by
  rw [intakeOf_eq]
  induction functions using List.reverseRecOn with
  | nil => rfl
  | append_singleton functions function ih =>
    rw [List.map_append, List.foldl_append, ih, Intake.ofUnit, Intake.ofUnit, Delivery.ofFunctions_concat]
    exact Intake.add_resultOf _ function

/-- Each function is kept or fails. -/
theorem length_ofUnit (functions : List Transfer.Function) :
    (Intake.ofUnit functions).table.entities.length + (Intake.ofUnit functions).failures.length = functions.length := by
  have hsettled := settled_ofFunctions {} functions
  have hsplit := length_values_add_length_errors (fates {} functions)
  have hfates : (fates {} functions).length = functions.length := by simp [fates]
  unfold Intake.ofUnit
  dsimp only
  rw [hsettled.entities, hsettled.failures, List.nil_append]
  omega

/-- An entity that is kept is the one of a function. -/
theorem entityOf_of_mem_ofUnit (h : entity ∈ (Intake.ofUnit functions).table.entities) :
    ∃ function ∈ functions, (entityOf function).result = .ok entity := by
  have hmem : entity ∈ (fates {} functions).filterMap Except.toOption := by
    have hsettled := settled_ofFunctions {} functions
    rwa [Intake.ofUnit, hsettled.entities, List.nil_append] at h
  obtain ⟨outcome, hfate, hok⟩ := List.mem_filterMap.1 hmem
  obtain ⟨⟨function, index⟩, hfunction, rfl⟩ := List.mem_map.1 hfate
  refine ⟨function, (List.mem_zipIdx' hfunction).2 ▸ List.getElem_mem _, ?_⟩
  change (fate {} (functions.take index) function).toOption = some entity at hok
  cases hresult : (entityOf function).result with
  | error error =>
    rw [fate_of_error {} hresult] at hok
    cases hok
  | ok found =>
    rw [fate_of_ok {} hresult] at hok
    split_ifs at hok
    · cases hok
    · cases hok
      rfl

/-! ## Inputs -/

theorem unitOf_toUTF8 (text : String) :
    unitOf (.ok text.toUTF8) = (Transfer.unitFormat.decode text).mapError (.notUnit text) := by
  have htext : String.fromUTF8? text.toUTF8 = some text := by
    simp only [String.fromUTF8?, String.toUTF8_eq_toByteArray, dif_pos text.isValidUTF8]
    rfl
  unfold unitOf
  simp only [Except.mapError, ok_bind, htext]

theorem unitOf_congr {content content' : Except FileError ByteArray}
    (h : ∀ found, content = .ok found ↔ content' = .ok found) (functions : List Transfer.Function) :
    unitOf content = .ok functions ↔ unitOf content' = .ok functions := by
  unfold unitOf
  simp only [bind_eq_ok_iff, mapError_eq_ok_iff, h]

namespace InputResult

/-- What becomes of an input if its unit, where it has one, is handed over to a table. -/
def ofUnit : Except InputError (List Transfer.Function) → InputResult
  | .ok functions => .read (Intake.ofUnit functions)
  | .error error => .unread error

theorem ofContent_eq_ofUnit (workers : Nat) (schedule : Crew.Schedule) (content : Except FileError ByteArray) :
    ofContent workers schedule content = ofUnit (unitOf content) := by
  unfold ofContent
  cases unitOf content with
  | ok functions => exact congrArg read (intakeOf_eq_ofUnit workers schedule functions)
  | error error => rfl

variable (unit : Except InputError (List Transfer.Function))

/-- Each function of an input that is read is kept or fails. -/
theorem length_entities_add_length_failures :
    (ofUnit unit).entities.length + (ofUnit unit).failures.length = (unit.toOption.getD []).length := by
  cases unit with
  | ok functions => exact length_ofUnit functions
  | error error => rfl

theorem isRead_iff : (ofUnit unit).isRead = true ↔ ∃ functions, unit = .ok functions := by
  cases unit with
  | ok functions => exact ⟨fun _ => ⟨functions, rfl⟩, fun _ => rfl⟩
  | error error =>
    constructor
    · rintro ⟨⟩
    · rintro ⟨functions, ⟨⟩⟩

end InputResult

end FunctionTrees.CommandLine
