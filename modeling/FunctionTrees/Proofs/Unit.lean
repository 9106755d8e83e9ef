import FunctionTrees.Proofs.Entity
import FunctionTrees.Proofs.Entity.Table
import FunctionTrees.Proofs.Event
import FunctionTrees.Proofs.Lowering.Refinement
import FunctionTrees.Unit
import Mathlib.Data.List.Induction

/-!
# Handing the entities of a unit over

* `name_of_entityOf` : the entity of a function has its name;
* `Delivery.add_of_error`, `add_of_accept`, `add_of_refuse` : what becomes of one more function;
* `claimed table functions` : the names that are taken after some functions;
* `fates table functions` : what a table makes of each function: the first with an entity of a name that is not taken is
  kept, all others fail; `settled_ofFunctions` : what a unit does to a table;
* `kept_and_failed` : the table and the failures after a unit are those of the fates, and a function without an entity
  changes nothing but that it is among the failures.
-/

set_option autoImplicit false

namespace FunctionTrees

open Outcome

/-! ## One function -/

def hasEntity (function : Transfer.Function) : Bool := (entityOf function).result.isOk

theorem result_build (parts : EntityParts) : (Entity.build parts).result = Entity.ofParts parts := by
  unfold Entity.build Logged.ofExcept
  rw [Logged.result_bind]
  cases Entity.ofParts parts <;> rfl

theorem result_entityOf (function : Transfer.Function) : (entityOf function).result =
    (Lowering.lower function).result.mapError .lowering >>= fun parts => (Entity.ofParts parts).mapError .entity := by
  unfold entityOf
  rw [Logged.result_bind]
  simp only [Logged.mapError, result_build]

theorem entityOf_eq_ok_iff {function : Transfer.Function} {entity : Entity} :
    (entityOf function).result = .ok entity ↔ (Lowering.lower function).result = .ok entity.parts := by
  simp only [result_entityOf, bind_eq_ok_iff, mapError_eq_ok_iff, Entity.ofParts_eq_ok_iff,
    exists_eq_right']

theorem name_of_lower {function : Transfer.Function} {parts : EntityParts}
    (h : (Lowering.lower function).result = .ok parts) : parts.name = function.name := by
  rw [Lowering.result_lower] at h
  obtain ⟨plan, -, ⟨⟩⟩ := bind_eq_ok_iff.1 h
  rfl

/-- The entity of a function has its name. -/
theorem name_of_entityOf {function : Transfer.Function} {entity : Entity}
    (h : (entityOf function).result = .ok entity) : entity.name = function.name :=
  name_of_lower (entityOf_eq_ok_iff.1 h)

theorem result_reportFailure {α : Type} (function : Transfer.Function) (computation : Logged FunctionError α) :
    (reportFailure function computation).result =
      computation.result.mapError fun error => ⟨function.name, error⟩ := by
  unfold reportFailure
  split
  next hvalue => rw [hvalue]; rfl
  next herror => rw [herror]; rfl

/-! ## One more function -/

namespace Delivery

section Consumers

variable {κ : Type} [Consumer κ] {function : Transfer.Function} (delivery : Delivery κ)

/-- What becomes of one more function, the log apart. -/
theorem add_eq (function : Transfer.Function) :
    let (handed, consumer) := handOver (entityOf function) delivery.consumer
    (delivery.add function).consumer = consumer ∧ (delivery.add function).failures =
      match handed.result with
      | .ok () => delivery.failures
      | .error error => delivery.failures ++ [⟨function.name, error⟩] := by
  unfold add
  dsimp only
  rw [result_reportFailure]
  cases (handOver (entityOf function) delivery.consumer).1.result <;> exact ⟨rfl, rfl⟩

theorem add_of_error {error : FunctionError} (h : (entityOf function).result = .error error) :
    (delivery.add function).consumer = delivery.consumer ∧
      (delivery.add function).failures = delivery.failures ++ [⟨function.name, error⟩] := by
  have hadd := delivery.add_eq function
  unfold handOver at hadd
  rwa [h] at hadd

theorem add_of_accept {entity : Entity} {consumer : κ} (h : (entityOf function).result = .ok entity)
    (haccept : (Consumer.accept entity).run delivery.consumer = (.ok (), consumer)) :
    (delivery.add function).consumer = consumer ∧ (delivery.add function).failures = delivery.failures := by
  have hadd := delivery.add_eq function
  unfold handOver at hadd
  rw [h] at hadd
  dsimp only at hadd
  rwa [haccept] at hadd

/-- A consumer that refuses an entity may change even so. -/
theorem add_of_refuse {entity : Entity} {error : EntityError} {consumer : κ} (h : (entityOf function).result = .ok entity)
    (hrefuse : (Consumer.accept entity).run delivery.consumer = (.error error, consumer)) :
    (delivery.add function).consumer = consumer ∧
      (delivery.add function).failures = delivery.failures ++ [⟨function.name, .entity error⟩] := by
  have hadd := delivery.add_eq function
  unfold handOver at hadd
  rw [h] at hadd
  dsimp only at hadd
  rwa [hrefuse] at hadd

theorem ofFunctions_concat (functions : List Transfer.Function) (function : Transfer.Function) (consumer : κ) :
    ofFunctions (functions ++ [function]) consumer = (ofFunctions functions consumer).add function := by
  rw [ofFunctions, List.foldl_append]
  rfl

/-- What becomes of further functions depends on the consumer only; what has failed before stays. -/
theorem foldl_add (functions : List Transfer.Function) (delivery : Delivery κ) :
    (functions.foldl add delivery).consumer = (ofFunctions functions delivery.consumer).consumer ∧
      (functions.foldl add delivery).failures =
        delivery.failures ++ (ofFunctions functions delivery.consumer).failures := by
  induction functions using List.reverseRecOn with
  | nil => exact ⟨rfl, (List.append_nil _).symm⟩
  | append_singleton functions function ih =>
    obtain ⟨hconsumer, hfailures⟩ := ih
    have hadd := (functions.foldl add delivery).add_eq function
    have hadd' := (ofFunctions functions delivery.consumer).add_eq function
    rw [List.foldl_append, List.foldl_cons, List.foldl_nil, ofFunctions_concat]
    -- with the same consumer, both deliveries come to the same outcome for the function
    rw [hconsumer, hfailures] at hadd
    generalize handOver (entityOf function) (ofFunctions functions delivery.consumer).consumer = outcome at hadd hadd'
    obtain ⟨⟨log, result⟩, consumer⟩ := outcome
    refine ⟨hadd.1.trans hadd'.1.symm, ?_⟩
    rw [hadd.2, hadd'.2]
    cases result with
    | ok value => rfl
    | error error => exact List.append_assoc _ _ _

/-- The functions of two units in a row are handed over one unit after the other. -/
theorem ofFunctions_append (first second : List Transfer.Function) (consumer : κ) :
    let delivery := ofFunctions first consumer
    (ofFunctions (first ++ second) consumer).consumer = (ofFunctions second delivery.consumer).consumer ∧
      (ofFunctions (first ++ second) consumer).failures =
        delivery.failures ++ (ofFunctions second delivery.consumer).failures := by
  intro delivery
  have hfold := foldl_add second delivery
  have hall : (ofFunctions (first ++ second) consumer) = second.foldl add delivery := List.foldl_append
  rw [hall]
  exact hfold

/-- A function without an entity changes nothing but that it is among the failures. -/
theorem ofFunctions_skip {before after : List Transfer.Function} {function : Transfer.Function} {error : FunctionError}
    (h : (entityOf function).result = .error error) (consumer : κ) :
    let first := ofFunctions before consumer
    let second := ofFunctions after first.consumer
    (ofFunctions (before ++ function :: after) consumer).consumer = (ofFunctions (before ++ after) consumer).consumer ∧
      (ofFunctions (before ++ after) consumer).failures = first.failures ++ second.failures ∧
      (ofFunctions (before ++ function :: after) consumer).failures =
        first.failures ++ ⟨function.name, error⟩ :: second.failures := by
  intro first second
  obtain ⟨hconsumer, hfailures⟩ := ofFunctions_append before after consumer
  obtain ⟨hconsumer', hfailures'⟩ := ofFunctions_append before (function :: after) consumer
  obtain ⟨hadd, hadd'⟩ := add_of_error { consumer := first.consumer } h
  obtain ⟨hrest, hrest'⟩ := foldl_add after (add { consumer := first.consumer } function)
  rw [hadd] at hrest hrest'
  rw [hadd'] at hrest'
  refine ⟨?_, hfailures, ?_⟩
  · exact hconsumer'.trans (hrest.trans hconsumer.symm)
  · exact hfailures'.trans (congrArg (first.failures ++ ·) hrest')

end Consumers

end Delivery

/-! ## Tables -/

/-- The names that are taken once functions have been handed over: those of the table and those of the functions with an
entity. -/
def claimed (table : EntityTable) (functions : List Transfer.Function) : List String :=
  table.entities.map Entity.name ++ (functions.filter hasEntity).map Transfer.Function.name

/-- What a table makes of a function, after some earlier ones. -/
def fate (table : EntityTable) (earlier : List Transfer.Function) (function : Transfer.Function) :
    Except FunctionFailure Entity :=
  match (entityOf function).result with
  | .error error => .error ⟨function.name, error⟩
  | .ok entity =>
    if function.name ∈ claimed table earlier then .error ⟨function.name, .entity (.duplicateName function.name)⟩
    else .ok entity

def fates (table : EntityTable) (functions : List Transfer.Function) : List (Except FunctionFailure Entity) :=
  functions.zipIdx.map fun (function, index) => fate table (functions.take index) function

variable {table : EntityTable} {functions : List Transfer.Function} {function : Transfer.Function}

theorem fates_concat (table : EntityTable) (functions : List Transfer.Function) (function : Transfer.Function) :
    fates table (functions ++ [function]) = fates table functions ++ [fate table functions function] :=
  Outcome.map_zipIdx_concat (fate table) functions function

theorem fate_of_error (table : EntityTable) {error : FunctionError} (h : (entityOf function).result = .error error)
    (earlier : List Transfer.Function) : fate table earlier function = .error ⟨function.name, error⟩ := by
  rw [fate, h]

theorem fate_of_ok (table : EntityTable) {entity : Entity} (h : (entityOf function).result = .ok entity)
    (earlier : List Transfer.Function) :
    fate table earlier function =
      if function.name ∈ claimed table earlier then .error ⟨function.name, .entity (.duplicateName function.name)⟩
      else .ok entity := by
  rw [fate, h]

/-- What has become of the functions of a unit is their fates, and the names in the table are those taken. -/
structure Settled (table : EntityTable) (functions : List Transfer.Function) (delivery : Delivery EntityTable) : Prop where
  entities : delivery.consumer.entities = table.entities ++ (fates table functions).filterMap Except.toOption
  failures : delivery.failures = (fates table functions).filterMap errorOf?
  names : ∀ name, name ∈ delivery.consumer.entities.map Entity.name ↔ name ∈ claimed table functions

theorem mem_claimed_concat {name : String} :
    name ∈ claimed table (functions ++ [function]) ↔
      name ∈ claimed table functions ∨ hasEntity function = true ∧ name = function.name := by
  unfold claimed
  rw [List.filter_append, List.map_append, ← List.append_assoc, List.mem_append, List.filter_singleton]
  apply or_congr_right
  cases hasEntity function <;> simp

theorem filterMap_fates_concat {α : Type} (f : Except FunctionFailure Entity → Option α) :
    (fates table (functions ++ [function])).filterMap f =
      (fates table functions).filterMap f ++ (f (fate table functions function)).toList := by
  rw [fates_concat, List.filterMap_append]
  cases h : f (fate table functions function) <;> simp [h]

theorem Settled.fail {delivery next : Delivery EntityTable} {error : FunctionError} (h : Settled table functions delivery)
    (hconsumer : next.consumer = delivery.consumer)
    (hfailures : next.failures = delivery.failures ++ [⟨function.name, error⟩])
    (hfate : fate table functions function = .error ⟨function.name, error⟩)
    (hclaimed : hasEntity function = true → function.name ∈ claimed table functions) :
    Settled table (functions ++ [function]) next := by
  refine ⟨?_, ?_, fun name => ?_⟩
  · rw [hconsumer, h.entities, filterMap_fates_concat, hfate]
    exact congrArg (_ ++ ·) (List.append_nil _).symm
  · rw [hfailures, h.failures, filterMap_fates_concat, hfate]
    rfl
  · rw [hconsumer, h.names, mem_claimed_concat]
    constructor
    · exact .inl
    · rintro (hname | ⟨hhas, rfl⟩)
      · exact hname
      · exact hclaimed hhas

theorem Settled.keep {delivery next : Delivery EntityTable} {entity : Entity} (h : Settled table functions delivery)
    (hentities : next.consumer.entities = delivery.consumer.entities ++ [entity])
    (hfailures : next.failures = delivery.failures) (hfate : fate table functions function = .ok entity)
    (hhas : hasEntity function = true) (hname : entity.name = function.name) :
    Settled table (functions ++ [function]) next := by
  refine ⟨?_, ?_, fun name => ?_⟩
  · rw [hentities, h.entities, filterMap_fates_concat, hfate]
    exact List.append_assoc _ _ _
  · rw [hfailures, h.failures, filterMap_fates_concat, hfate]
    exact (List.append_nil _).symm
  · rw [hentities, List.map_append, List.mem_append, h.names, mem_claimed_concat, List.map_singleton,
      List.mem_singleton, hname, hhas]
    simp

theorem settled_ofFunctions (table : EntityTable) (functions : List Transfer.Function) :
    Settled table functions (Delivery.ofFunctions functions table) := by
  induction functions using List.reverseRecOn with
  | nil => exact ⟨(List.append_nil _).symm, rfl, fun name => by simp [claimed, Delivery.ofFunctions]⟩
  | append_singleton functions function ih =>
    rw [Delivery.ofFunctions_concat]
    generalize Delivery.ofFunctions functions table = delivery at ih
    cases hresult : (entityOf function).result with
    | error error =>
      obtain ⟨hconsumer, hfailures⟩ := Delivery.add_of_error delivery hresult
      exact ih.fail hconsumer hfailures (fate_of_error table hresult functions) fun hhas => by
        rw [hasEntity, hresult] at hhas
        cases hhas
    | ok entity =>
      have hname : entity.name = function.name := name_of_entityOf hresult
      have hfate := fate_of_ok table hresult functions
      -- the table refuses a name that it holds, the fate one that is taken
      have hnames := ih.names entity.name
      rw [hname] at hnames
      by_cases hmem : function.name ∈ claimed table functions
      · have hrefuse := EntityTable.offer_of_mem (hname ▸ hnames.2 hmem)
        rw [hname] at hrefuse
        obtain ⟨hconsumer, hfailures⟩ := Delivery.add_of_refuse delivery hresult hrefuse
        rw [if_pos hmem] at hfate
        exact ih.fail hconsumer hfailures hfate fun _ => hmem
      · obtain ⟨consumer, haccept, hentities⟩ := EntityTable.exists_offer (hname ▸ mt hnames.1 hmem)
        obtain ⟨hconsumer, hfailures⟩ := Delivery.add_of_accept delivery hresult haccept
        rw [if_neg hmem] at hfate
        refine ih.keep ?_ hfailures hfate (by rw [hasEntity, hresult]; rfl) hname
        rw [hconsumer, hentities]

/-- The entities of a table after a unit are the old ones and then the first of each name that is not taken; every other
function is among the failures, and one without an entity changes nothing for the others. -/
theorem kept_and_failed (table : EntityTable) (functions : List Transfer.Function) :
    let delivery := Delivery.ofFunctions functions table
    delivery.consumer.entities = table.entities ++ (fates table functions).filterMap Except.toOption ∧
      delivery.failures = (fates table functions).filterMap errorOf? ∧
      delivery.consumer.size + delivery.failures.length = table.size + functions.length ∧
      ∀ (before after : List Transfer.Function) (function : Transfer.Function) (error : FunctionError),
        functions = before ++ function :: after → (entityOf function).result = .error error →
        let first := Delivery.ofFunctions before table
        let second := Delivery.ofFunctions after first.consumer
        delivery.consumer = (Delivery.ofFunctions (before ++ after) table).consumer ∧
          (Delivery.ofFunctions (before ++ after) table).failures = first.failures ++ second.failures ∧
          delivery.failures = first.failures ++ ⟨function.name, error⟩ :: second.failures := by
  intro delivery
  have hsettled : Settled table functions delivery := settled_ofFunctions table functions
  refine ⟨hsettled.entities, hsettled.failures, ?_, ?_⟩
  · have hfates : (fates table functions).length = functions.length := by simp [fates]
    have hsplit := length_values_add_length_errors (fates table functions)
    rw [EntityTable.size, EntityTable.size, hsettled.entities, hsettled.failures, List.length_append]
    omega
  · rintro before after function error rfl herror
    exact Delivery.ofFunctions_skip herror table

/-- A function twice, and before it one of its name without an entity. -/
theorem kept_and_failed_repeated :
    let function := Lowering.sample
    let broken := { function with version := 7 }
    let table : EntityTable := {}
    let delivery := Delivery.ofFunctions [broken, function, function] table
    ∃ error, (entityOf broken).result = .error error ∧
      delivery.consumer = (Delivery.ofFunctions [function, function] table).consumer ∧
      delivery.failures = ⟨broken.name, error⟩ :: (Delivery.ofFunctions [function, function] table).failures := by
  intro function broken table delivery
  have hbroken : (entityOf broken).result = .error (.lowering (.unsupportedVersion 7)) := rfl
  obtain ⟨-, -, -, hskip⟩ := kept_and_failed table [broken, function, function]
  obtain ⟨hconsumer, hrest, hall⟩ := hskip [] [function, function] broken _ (List.nil_append _).symm hbroken
  rw [List.nil_append] at hconsumer hrest
  refine ⟨_, hbroken, hconsumer, ?_⟩
  have hnone : (Delivery.ofFunctions [] table).failures = [] := rfl
  rw [hall, hrest, hnone, List.nil_append, List.nil_append]

end FunctionTrees
