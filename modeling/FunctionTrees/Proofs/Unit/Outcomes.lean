import FunctionTrees.Proofs.Unit

/-!
# Units, function by function

* `Entity.event`, `FunctionFailure.event` : what is logged once a function has an entity, or has failed;
* `Lowering.logs_lower`, `log_entityOrFailure` : each function logs some details, and then the one or the other;
* `UnitResult.ofOutcomes` : what the outcomes of functions come to when they are put together in order;
* `ofFunctions_eq`, `Delivery.ofFunctions_list` : a unit and a list that entities are handed to come to that;
* `unit_of_outcomes` : all drivers agree, function by function, in what they yield and in what they log.
-/

set_option autoImplicit false

namespace FunctionTrees

open Outcome Logged

/-! ## Details -/

namespace Lowering

theorem level_of_mem_eventsOf {function : String} {inst : Transfer.Instruction} {event : Event}
    (h : event ∈ eventsOf function inst) : event.level = .debug := by
  obtain ⟨gap, rfl⟩ := exists_of_mem_eventsOf h
  cases gap <;> rfl

theorem logs_planInstruction (function : String) (labels : List String) (block : String) (inst : Transfer.Instruction)
    (index : Nat) : (planInstruction function labels block inst index).Logs (·.level = .debug) := by
  unfold planInstruction
  refine (Logs.mapM? (logs_soundSpan _) _).bind fun position => ?_
  split
  · exact logs_fail _
  · exact (logs_tellAll fun _ => level_of_mem_eventsOf).bind fun _ => logs_pure _

theorem logs_planBlock (function : String) (labels : List String) (block : Transfer.Block) :
    (planBlock function labels block).Logs (·.level = .debug) :=
  (Logs.mapM (fun _ => logs_planInstruction function labels block.label _ _) _).bind fun _ => logs_pure _

theorem logs_planOf (function : Transfer.Function) : (planOf function).Logs (·.level = .debug) := by
  have hspans : ∀ labels, Logs (·.level = .debug) (do
      let position ← function.position.mapM soundSpan
      let argumentPositions ← function.argumentPositions.mapM soundSpan
      let blocks ← function.blocks.mapM (planBlock function.name labels)
      return (⟨position, argumentPositions, blocks⟩ : Plan)) := by
    intro labels
    refine (Logs.mapM? (logs_soundSpan _) _).bind fun position => ?_
    refine (Logs.mapM (logs_soundSpan _) _).bind fun argumentPositions => ?_
    exact (Logs.mapM (logs_planBlock _ _) _).bind fun blocks => logs_pure _
  unfold planOf
  split
  · exact logs_fail_bind _ _
  · dsimp only
    split
    · exact logs_fail_bind _ _
    · exact hspans _

/-- Lowering a function logs no more than details. -/
theorem logs_lower (function : Transfer.Function) : (lower function).Logs (·.level = .debug) :=
  (logs_planOf function).bind fun _ => logs_pure _

end Lowering

/-! ## One function -/

def Entity.event (entity : Entity) : Event :=
  .built entity.name entity.blocks.length entity.argumentNames.length

def FunctionFailure.event (failure : FunctionFailure) : Event := .failed failure.function failure.message

def closingEvent : Except FunctionFailure Entity → Event
  | .ok entity => entity.event
  | .error failure => failure.event

theorem log_build (parts : EntityParts) :
    (Entity.build parts).log = (Entity.ofParts parts).toOption.toList.map Entity.event := by
  unfold Entity.build Logged.ofExcept
  cases hentity : Entity.ofParts parts with
  | error error => rfl
  | ok entity =>
    obtain rfl := Entity.ofParts_eq_ok_iff.1 hentity
    rfl

/-- Behind the details, an entity is logged if there is one. -/
theorem log_entityOf (function : Transfer.Function) : (entityOf function).log =
    (Lowering.lower function).log ++ (entityOf function).result.toOption.toList.map Entity.event := by
  unfold entityOf
  obtain ⟨log, result⟩ := Lowering.lower function
  cases result with
  | error error => exact (List.append_nil log).symm
  | ok parts =>
    show log ++ (Entity.build parts).log =
      log ++ ((Entity.build parts).mapError FunctionError.entity).result.toOption.toList.map _
    rw [log_build, Logged.mapError, result_build]
    cases Entity.ofParts parts <;> rfl

/-- A function logs some details, and last what becomes of it. -/
theorem log_entityOrFailure (function : Transfer.Function) : (entityOrFailure function).log =
    (Lowering.lower function).log ++ [closingEvent (entityOrFailure function).result] := by
  have hlog := log_entityOf function
  unfold entityOrFailure reportFailure
  split
  next entity hresult =>
    rw [hresult] at hlog
    exact hlog
  next error hresult =>
    rw [hresult] at hlog
    dsimp only
    rw [hlog]
    exact congrArg (· ++ _) (List.append_nil _)

/-- Of what a function logs above the details there is but one event. -/
theorem filter_log_entityOrFailure (function : Transfer.Function) {level : Level} (hlevel : level ≠ .debug) :
    ((entityOrFailure function).log.filter fun event => event.level = level) =
      [closingEvent (entityOrFailure function).result].filter fun event => event.level = level := by
  have hdetails : ((Lowering.lower function).log.filter fun event => event.level = level) = [] := by
    refine List.filter_eq_nil_iff.2 fun event hmem heq => ?_
    exact hlevel ((of_decide_eq_true heq).symm.trans (Lowering.logs_lower function event hmem))
  rw [log_entityOrFailure, List.filter_append, hdetails, List.nil_append]

/-! ## Units -/

namespace UnitResult

/-- What the outcomes of functions come to when they are put together in order. -/
def ofOutcomes (outcomes : List (Logged FunctionFailure Entity)) : UnitResult where
  entities := outcomes.filterMap fun outcome => outcome.result.toOption
  failures := outcomes.filterMap fun outcome => errorOf? outcome.result
  log := outcomes.flatMap Logged.log

protected def append (first second : UnitResult) : UnitResult :=
  ⟨first.entities ++ second.entities, first.failures ++ second.failures, first.log ++ second.log⟩

instance : Append UnitResult := ⟨UnitResult.append⟩

theorem ofOutcomes_append (first second : List (Logged FunctionFailure Entity)) :
    ofOutcomes (first ++ second) = ofOutcomes first ++ ofOutcomes second := by
  show ofOutcomes _ = UnitResult.append _ _
  simp only [ofOutcomes, UnitResult.append, List.filterMap_append, List.flatMap_append]

theorem add_ofOutcomes (outcomes : List (Logged FunctionFailure Entity)) (outcome : Logged FunctionFailure Entity) :
    (ofOutcomes outcomes).add outcome = ofOutcomes (outcomes ++ [outcome]) := by
  rw [ofOutcomes_append]
  show _ = UnitResult.append _ _
  obtain ⟨log, result⟩ := outcome
  cases result <;> simp [add, ofOutcomes, UnitResult.append, Except.toOption, errorOf?]

theorem ofFunctions_concat (functions : List Transfer.Function) (function : Transfer.Function) :
    ofFunctions (functions ++ [function]) = (ofFunctions functions).add (entityOrFailure function) :=
  List.foldl_append

theorem ofFunctions_eq (functions : List Transfer.Function) :
    ofFunctions functions = ofOutcomes (functions.map entityOrFailure) := by
  induction functions using List.reverseRecOn with
  | nil => rfl
  | append_singleton functions function ih =>
    rw [ofFunctions_concat, ih, add_ofOutcomes, List.map_append, List.map_singleton]

/-- The events of a unit are those of its functions. -/
theorem filter_log {α : Type} {level : Level} (hlevel : level ≠ .debug) (pick : Except FunctionFailure Entity → Option α)
    (event : α → Event)
    (hpick : ∀ result, [closingEvent result].filter (fun event => event.level = level) = (pick result).toList.map event)
    (functions : List Transfer.Function) :
    ((ofFunctions functions).log.filter fun event => event.level = level) =
      (functions.filterMap fun function => pick (entityOrFailure function).result).map event := by
  rw [ofFunctions_eq]
  show (((functions.map entityOrFailure).flatMap Logged.log).filter fun event => event.level = level) = _
  rw [List.filter_flatMap, List.flatMap_map, List.map_filterMap, List.filterMap_eq_flatMap_toList]
  refine List.flatMap_congr fun function _ => ?_
  rw [filter_log_entityOrFailure function hlevel, hpick]
  cases pick (entityOrFailure function).result <;> rfl

end UnitResult

/-! ## Lists that entities are handed to -/

namespace Delivery

/-- A list takes every entity, so that nothing but the outcome of the function decides. -/
theorem add_list (entities : List Entity) (unit : UnitResult) (function : Transfer.Function) :
    add ⟨entities ++ unit.entities, unit.failures, unit.log⟩ function =
      let next := unit.add (entityOrFailure function)
      ⟨entities ++ next.entities, next.failures, next.log⟩ := by
  unfold add UnitResult.add entityOrFailure
  obtain ⟨log, result⟩ := entityOf function
  cases result with
  | error error => rfl
  | ok entity =>
    show Delivery.mk (entities ++ unit.entities ++ [entity]) unit.failures (unit.log ++ log) =
      ⟨entities ++ (unit.entities ++ [entity]), unit.failures, unit.log ++ log⟩
    rw [List.append_assoc]

theorem ofFunctions_list (functions : List Transfer.Function) (entities : List Entity) :
    ofFunctions functions entities =
      let unit := UnitResult.ofFunctions functions
      ⟨entities ++ unit.entities, unit.failures, unit.log⟩ := by
  induction functions using List.reverseRecOn with
  | nil => exact congrArg (Delivery.mk · [] []) (List.append_nil entities).symm
  | append_singleton functions function ih =>
    rw [ofFunctions_concat, ih, UnitResult.ofFunctions_concat]
    exact add_list entities _ function

end Delivery

/-! ## All drivers -/

/-- A unit gives what its functions give, each by itself and in order; a list that their entities are handed to takes the
same entities, with the same failures and events, and of each function's events there is one above the details. -/
theorem unit_of_outcomes (functions : List Transfer.Function) :
    let outcomes := functions.map entityOrFailure
    let unit := UnitResult.ofFunctions functions
    outcomes.map Logged.result =
        functions.map (fun function => (entityOf function).result.mapError fun error => ⟨function.name, error⟩) ∧
      unit.entities = outcomes.filterMap (fun outcome => outcome.result.toOption) ∧
      unit.failures = outcomes.filterMap (fun outcome => errorOf? outcome.result) ∧
      unit.entities.length + unit.failures.length = functions.length ∧
      (∀ entities : List Entity,
        Delivery.ofFunctions functions entities = ⟨entities ++ unit.entities, unit.failures, unit.log⟩) ∧
      (∀ more, UnitResult.ofFunctions (functions ++ more) = unit ++ UnitResult.ofFunctions more) ∧
      (unit.isComplete = true ↔ ∀ function ∈ functions, ∃ entity, (entityOf function).result = .ok entity) ∧
      unit.log = outcomes.flatMap Logged.log ∧
      (unit.log.filter fun event => event.level = .trace) = unit.entities.map Entity.event ∧
      (unit.log.filter fun event => event.level = .warn) = unit.failures.map FunctionFailure.event := by
  intro outcomes unit
  have hunit : unit = .ofOutcomes outcomes := UnitResult.ofFunctions_eq functions
  have hentities : unit.entities = functions.filterMap fun function => (entityOrFailure function).result.toOption := by
    rw [hunit]
    exact List.filterMap_map
  have hfailures : unit.failures = functions.filterMap fun function => errorOf? (entityOrFailure function).result := by
    rw [hunit]
    exact List.filterMap_map
  refine ⟨?_, congrArg UnitResult.entities hunit, congrArg UnitResult.failures hunit, ?_,
    Delivery.ofFunctions_list functions, fun more => ?_, ?_, congrArg UnitResult.log hunit, ?_, ?_⟩
  · rw [List.map_map]
    exact List.map_congr_left fun function _ => result_reportFailure function (entityOf function)
  · have hsplit := length_values_add_length_errors (functions.map fun function => (entityOrFailure function).result)
    rw [List.filterMap_map, List.filterMap_map, List.length_map] at hsplit
    rw [hentities, hfailures]
    exact hsplit
  · rw [UnitResult.ofFunctions_eq, List.map_append, UnitResult.ofOutcomes_append, ← UnitResult.ofFunctions_eq more, hunit]
  · rw [UnitResult.isComplete, List.isEmpty_iff, hfailures, List.filterMap_eq_nil_iff]
    refine forall₂_congr fun function _ => ?_
    have hresult := result_reportFailure function (entityOf function)
    rw [entityOrFailure, hresult]
    cases (entityOf function).result <;> simp [Except.mapError, errorOf?]
  · rw [hentities]
    refine UnitResult.filter_log Level.noConfusion Except.toOption Entity.event (fun result => ?_) functions
    cases result <;> rfl
  · rw [hfailures]
    refine UnitResult.filter_log Level.noConfusion errorOf? FunctionFailure.event (fun result => ?_) functions
    cases result <;> rfl

end FunctionTrees
