import FunctionTrees.Json.Fault

/-!
# Readers

A `Reader` takes a value off the front of a text, or stops at the first fault; either way it leaves what it has not read,
which is never more than it was given. Readers form a monad. A fault that says the text is of another shape gets its place
from `placed`, which stands around each reader of a whole value: where reading has stopped by then.
-/

set_option autoImplicit false

namespace FunctionTrees.Json

/-- What a reader comes to, with what it leaves. -/
inductive Outcome (α : Type) where
  | done (value : α) (rest : List Char)
  | stop (fault : Fault) (rest : List Char)

namespace Outcome

variable {α : Type}

def rest : Outcome α → List Char
  | done _ rest => rest
  | stop _ rest => rest

@[simp] theorem rest_done (value : α) (rest : List Char) : (done value rest).rest = rest := rfl

@[simp] theorem rest_stop (fault : Fault) (rest : List Char) : (stop fault rest : Outcome α).rest = rest := rfl

end Outcome

/-- Takes a value off the front of a text. -/
structure Reader (α : Type) where
  run : List Char → Outcome α
  shrinks : ∀ chars, (run chars).rest.length ≤ chars.length

namespace Reader

variable {α β : Type}

theorem done_le (reader : Reader α) {chars rest : List Char} {value : α} (h : reader.run chars = .done value rest) :
    rest.length ≤ chars.length := by
  simpa [h, Outcome.rest] using reader.shrinks chars

theorem stop_le (reader : Reader α) {chars rest : List Char} {fault : Fault} (h : reader.run chars = .stop fault rest) :
    rest.length ≤ chars.length := by
  simpa [h, Outcome.rest] using reader.shrinks chars

/-- Reads nothing. -/
protected def pure (value : α) : Reader α := ⟨fun chars => .done value chars, fun _ => Nat.le_refl _⟩

/-- Reads on with what the first value asks for. -/
protected def bind (reader : Reader α) (next : α → Reader β) : Reader β where
  run chars :=
    match reader.run chars with
    | .done value rest => (next value).run rest
    | .stop fault rest => .stop fault rest
  shrinks chars := by
    have h := reader.shrinks chars
    split <;> simp_all only [Outcome.rest]
    exact Nat.le_trans ((next _).shrinks _) h

instance : Monad Reader where
  pure := Reader.pure
  bind := Reader.bind

/-! ## Stopping -/

/-- Stops over `cause`, `ahead` bytes on. -/
def fail (cause : Cause) (ahead : Nat) : Reader α :=
  ⟨fun chars => .stop ⟨cause, some ⟨chars, ahead⟩⟩ chars, fun _ => Nat.le_refl _⟩

/-- Stops over a text that ends before the next character. -/
def ended (part : Part) : Reader α := fail (.ended part) 0

/-- Stops over what comes next. -/
def malformed (slip : Slip) : Reader α := fail (.malformed slip) 1

/-- Stops over what was read last. -/
def malformedBefore (slip : Slip) : Reader α := fail (.malformed slip) 0

/-- Stops over a value of another shape, its place to be told later. -/
def unfit (misfit : Misfit) : Reader α :=
  ⟨fun chars => .stop ⟨.unfit misfit, none⟩ chars, fun _ => Nat.le_refl _⟩

/-- Places a fault that has no place yet where reading has stopped. -/
def placed (reader : Reader α) : Reader α where
  run chars :=
    match reader.run chars with
    | .stop ⟨cause, none⟩ rest => .stop ⟨cause, some ⟨rest, 0⟩⟩ rest
    | outcome => outcome
  shrinks chars := by
    have h := reader.shrinks chars
    split <;> simp_all [Outcome.rest]

/-- Reads on through `close` even if `body` stops; what `body` stopped over is then what counts. -/
def enclosed (body : Reader α) (close : Reader Unit) : Reader α where
  run chars :=
    match body.run chars with
    | .done value rest =>
      match close.run rest with
      | .done _ rest' => .done value rest'
      | .stop fault rest' => .stop fault rest'
    | .stop fault rest => .stop fault (close.run rest).rest
  shrinks chars := by
    have h := body.shrinks chars
    split
    next value rest h1 =>
      have h2 := close.shrinks rest
      split <;> simp_all only [Outcome.rest] <;> omega
    next fault rest h1 =>
      have h2 := close.shrinks rest
      simp_all only [Outcome.rest]
      omega

/-! ## Characters -/

/-- The next character, which is left unread. -/
def peek : Reader (Option Char) := ⟨fun chars => .done chars.head? chars, fun _ => Nat.le_refl _⟩

/-- Passes over one character. -/
def pass : Reader Unit :=
  ⟨fun chars => .done () chars.tail, fun chars => by simp [Outcome.rest]⟩

def isBlank (c : Char) : Bool := c = ' ' ∨ c = '\t' ∨ c = '\n' ∨ c = '\r'

/-- The next character that is not a blank, which is left unread; the blanks before it are passed over. -/
def next : Reader (Option Char) where
  run chars :=
    let rest := chars.dropWhile isBlank
    .done rest.head? rest
  shrinks _ := List.Sublist.length_le (List.dropWhile_sublist _)

/-- Passes over the given letters. -/
def word : List Char → Reader Unit
  | [] => pure ()
  | letter :: letters => do
    match ← peek with
    | none => ended .value
    | some c => if c = letter then do pass; word letters else malformed .noWord

/-- Passes over blanks up to the end of the text. -/
def finish : Reader Unit := do
  match ← next with
  | none => return ()
  | some _ => malformed .trailingText

/-- The value that a whole text stands for. -/
def ofText (reader : Reader α) (text : String) : Except Fault α :=
  match (do let value ← reader; finish; return value : Reader α).run text.toList with
  | .done value _ => .ok value
  | .stop fault _ => .error fault

end Reader

end FunctionTrees.Json
