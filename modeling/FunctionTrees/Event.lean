import FunctionTrees.Operator

/-!
# What is logged

An `Event` is one message of the log that is kept while entities are made of functions. `Logged` computations end in a
value or an error and keep what was logged up to there.
-/

set_option autoImplicit false

namespace FunctionTrees

/-! ## Events -/

/-- One message of a log. -/
inductive Event where
  /-- An operation of one or two operands has no operator of its own. -/
  | fallback (function opcode : String) (op : Operator)
  /-- No operator takes as many operands as an operation has. -/
  | primitive (function opcode : String) (operands : Nat)
  | built (function : String) (blocks arguments : Nat)
  | failed (function : String) (message : String)
deriving DecidableEq

/-- How much a message matters. -/
inductive Level where
  | trace
  | debug
  | warn
deriving DecidableEq

def Level.name : Level → String
  | trace => "trace"
  | debug => "debug"
  | warn => "warn"

namespace Event

def level : Event → Level
  | fallback .. => .debug
  | primitive .. => .debug
  | built .. => .trace
  | failed .. => .warn

def message : Event → String
  | fallback .. => "no precise operator for opcode, using fallback"
  | primitive .. => "no operator takes this many operands, lowering as primitive"
  | built .. => "built entity"
  | failed _ message => message

end Event

/-! ## Computations with a log -/

/-- The end of a computation, and what it logged. -/
structure Logged (ε α : Type) where
  log : List Event
  result : Except ε α

namespace Logged

variable {ε α β : Type}

protected def pure (value : α) : Logged ε α := ⟨[], .ok value⟩

protected def bind (first : Logged ε α) (next : α → Logged ε β) : Logged ε β :=
  match first.result with
  | .ok value => ⟨first.log ++ (next value).log, (next value).result⟩
  | .error error => ⟨first.log, .error error⟩

instance : Monad (Logged ε) where
  pure := Logged.pure
  bind := Logged.bind

/-- Ends in an error. -/
def fail (error : ε) : Logged ε α := ⟨[], .error error⟩

/-- Logs one message. -/
def tell (event : Event) : Logged ε Unit := ⟨[event], .ok ()⟩

/-- Logs messages in order. -/
def tellAll (events : List Event) : Logged ε Unit := ⟨events, .ok ()⟩

/-- Ends as `result` does. -/
def ofExcept (result : Except ε α) : Logged ε α := ⟨[], result⟩

/-- Turns the error into another one. -/
def mapError {ε' : Type} (f : ε → ε') (computation : Logged ε α) : Logged ε' α :=
  ⟨computation.log, computation.result.mapError f⟩

end Logged

end FunctionTrees
