import FunctionTrees.Entity.Table
import FunctionTrees.Lowering

/-!
# Units of functions

A unit is a list of functions. `entityOf` makes an entity of one; `UnitResult.ofFunctions` and `Delivery.ofFunctions` go
through a unit, and a function that fails is put among the failures without holding up the others.
-/

set_option autoImplicit false

namespace FunctionTrees

open Lowering (LowerError lower)

/-! ## One function -/

/-- Why a function has no entity. -/
inductive FunctionError where
  | lowering (error : LowerError)
  | entity (error : EntityError)
deriving DecidableEq

def FunctionError.message : FunctionError → String
  | lowering error => error.message
  | entity error => error.message

/-- A function that failed, and why. -/
structure FunctionFailure where
  function : String
  error : FunctionError
deriving DecidableEq

def FunctionFailure.message (failure : FunctionFailure) : String :=
  "translation failed for function " ++ failure.function ++ ": " ++ failure.error.message

/-- The entity of some parts, which is logged. -/
def Entity.build (parts : EntityParts) : Logged EntityError Entity := do
  let entity ← Logged.ofExcept (Entity.ofParts parts)
  Logged.tell (.built parts.name parts.blocks.length parts.argumentNames.length)
  return entity

/-- The entity of a function. -/
def entityOf (function : Transfer.Function) : Logged FunctionError Entity := do
  let parts ← (lower function).mapError .lowering
  (Entity.build parts).mapError .entity

/-- The failure of a function, which is logged. -/
def reportFailure {α : Type} (function : Transfer.Function) (computation : Logged FunctionError α) :
    Logged FunctionFailure α :=
  match computation.result with
  | .ok value => ⟨computation.log, .ok value⟩
  | .error error =>
    let failure : FunctionFailure := ⟨function.name, error⟩
    ⟨computation.log ++ [.failed failure.function failure.message], .error failure⟩

/-- The entity of a function, or its failure. -/
def entityOrFailure (function : Transfer.Function) : Logged FunctionFailure Entity :=
  reportFailure function (entityOf function)

/-! ## Units -/

/-- What became of the functions of a unit, in the order of the unit. -/
structure UnitResult where
  entities : List Entity := []
  failures : List FunctionFailure := []
  log : List Event := []

/-- Whether every function has an entity. -/
def UnitResult.isComplete (unit : UnitResult) : Bool := unit.failures.isEmpty

/-- Adds what became of one more function. -/
def UnitResult.add (unit : UnitResult) (outcome : Logged FunctionFailure Entity) : UnitResult :=
  let log := unit.log ++ outcome.log
  match outcome.result with
  | .ok entity => { unit with entities := unit.entities ++ [entity], log }
  | .error failure => { unit with failures := unit.failures ++ [failure], log }

/-- What becomes of the functions of a unit. -/
def UnitResult.ofFunctions (functions : List Transfer.Function) : UnitResult :=
  functions.foldl (fun unit function => unit.add (entityOrFailure function)) {}

/-- What a consumer has become, and what failed on the way. -/
structure Delivery (κ : Type) where
  consumer : κ
  failures : List FunctionFailure := []
  log : List Event := []

/-- Hands an entity over if there is one: what has come of it, and the consumer afterwards. -/
def handOver {κ : Type} [Consumer κ] (built : Logged FunctionError Entity) (consumer : κ) : Logged FunctionError Unit × κ :=
  match built.result with
  | .ok entity =>
    let (answer, next) := (Consumer.accept entity).run consumer
    (⟨built.log, answer.mapError .entity⟩, next)
  | .error error => (⟨built.log, .error error⟩, consumer)

/-- Hands the entity of one more function over; one that is refused is a failure like any other. -/
def Delivery.add {κ : Type} [Consumer κ] (delivery : Delivery κ) (function : Transfer.Function) : Delivery κ :=
  let (handed, consumer) := handOver (entityOf function) delivery.consumer
  let outcome := reportFailure function handed
  let log := delivery.log ++ outcome.log
  match outcome.result with
  | .ok () => { delivery with consumer, log }
  | .error failure => { consumer, failures := delivery.failures ++ [failure], log }

/-- Hands the entities of all functions of a unit over, one after the other. -/
def Delivery.ofFunctions {κ : Type} [Consumer κ] (functions : List Transfer.Function) (consumer : κ) : Delivery κ :=
  functions.foldl Delivery.add { consumer }

end FunctionTrees
