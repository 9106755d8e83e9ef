import FunctionTrees.CommandLine.Suggestion
import FunctionTrees.Text.Lines

/-!
# Options

`Command.ofWords` reads a command line. Each setting in turn uses up the tokens that belong to it, wherever they stand, and
the words that remain are the inputs. A `UsageError` is the first setting that cannot be read, or else the first token
that nothing has used.
-/

set_option autoImplicit false

namespace FunctionTrees.CommandLine

/-! ## Using tokens up -/

/-- An argument of an option. -/
structure Argument where
  /-- What is written before it. -/
  lead : String
  text : String
deriving DecidableEq

/-- How an argument is shown: an empty one together with its option. -/
def Argument.shown (argument : Argument) : String :=
  if argument.text = "" then argument.lead ++ "\"\"" else argument.text

/-- What is left of a command line: its tokens, with a gap for each that has been used. -/
abbrev Rest := List (Option Token)

namespace Rest

/-- Where a setting is first named. -/
def find? (rest : Rest) (setting : Setting) : Option Nat :=
  rest.findIdx? fun
    | some (.option name _) => setting.isNamed name
    | _ => false

/-- Whether a setting is named, and what is left without that. -/
def takeFlag (rest : Rest) (setting : Setting) : Bool × Rest :=
  match rest.find? setting with
  | some index => (true, rest.set index none)
  | none => (false, rest)

/-- The argument of a setting, if it is named, and what is left without both; an error is the place of the name when no
argument follows it. -/
def takeArgument (rest : Rest) (setting : Setting) : Except Nat (Option Argument) × Rest :=
  match rest.find? setting with
  | none => (.ok none, rest)
  | some index =>
    let name := ((rest[index]?.join).map Token.text).getD ""
    let taken := (rest.set index none).set (index + 1) none
    match rest[index + 1]? with
    | some (some (.word text)) => (.ok (some ⟨name ++ " ", text⟩), taken)
    | some (some (.attached text)) => (.ok (some ⟨name ++ "=", text⟩), taken)
    | _ => (.error index, rest)

/-- The words that are left, and what is left without them. -/
def takeWords (rest : Rest) : List String × Rest :=
  let word? : Option Token → Option String
    | some (.word text) | some (.operand text) => some text
    | _ => none
  (rest.filterMap word?, rest.map fun token => if (word? token).isSome then none else token)

end Rest

/-! ## Errors -/

/-- Why a text is no number of jobs. -/
inductive CountSlip where
  | empty
  | noDigit
  | tooLarge
deriving DecidableEq

def CountSlip.message : CountSlip → String
  | empty => "cannot parse integer from empty string"
  | noDigit => "invalid digit found in string"
  | tooLarge => "number too large to fit in target type"

/-- Why a command line cannot be read. -/
inductive UsageError where
  | badCount (argument : Argument) (slip : CountSlip)
  /-- No argument follows an option; `next` is the word after it if that starts with another option. -/
  | noArgument (option argument : String) (next : Option String)
  | repeated (option : String)
  | unknown (text : String) (suggestion : Suggestion)
  | unexpected (text : String)
deriving DecidableEq

namespace UsageError

/-- The message as phrases. -/
def phrases : UsageError → List Text.Phrase
  | badCount argument slip => [.plain "couldn't parse ", .ticked argument.shown, .plain (": " ++ slip.message)]
  | noArgument option argument none => [.ticked option, .plain " requires an argument ", .ticked argument]
  | noArgument option argument (some next) =>
    [.ticked option, .plain " requires an argument ", .ticked argument, .plain ", got a flag ", .ticked next,
      .plain ", try ", .ticked (option ++ "=" ++ next), .plain " to use it as an argument"]
  | repeated option => [.plain "argument ", .ticked option, .plain " cannot be used multiple times in this context"]
  | unknown text suggestion =>
    let kind := if text.startsWith "-" then "flag" else "argument value"
    [.plain ("no such " ++ kind ++ ": "), .ticked text, .plain (suggestion.remark ++ ", did you mean "),
      .ticked suggestion.meant.text, .plain "?"]
  | unexpected text => [.ticked text, .plain " is not expected in this context"]

/-- How wide the lines of a message are. -/
def lineWidth : Nat := 100

def message (error : UsageError) : String := Text.inLines lineWidth error.phrases

end UsageError

/-! ## Reading -/

/-- One more digit of a number below `2 ^ 64`. -/
def addDigit (count : Nat) (c : Char) : Except CountSlip Nat :=
  if !c.isDigit then .error .noDigit
  else
    let count := 10 * count + (c.toNat - '0'.toNat)
    if count < UInt64.size then .ok count else .error .tooLarge

/-- A number below `2 ^ 64` in decimal digits, which one plus sign can precede. -/
def countOf (text : String) : Except CountSlip Nat :=
  match text.toList with
  | [] => .error .empty
  | ['+'] => .error .noDigit
  | '+' :: digits => digits.foldlM addDigit 0
  | digits => digits.foldlM addDigit 0

/-- What the tool is asked to do with which inputs. -/
structure Options where
  /-- How many functions are worked on at a time; by default that is left to the tool. -/
  jobs : Option Nat := none
  /-- Whether the listings of all entities are written. -/
  dump : Bool := false
  /-- Whether every entity is reported. -/
  verbose : Bool := false
  /-- The file that listings are written to. -/
  output : Option String := none
  inputs : List String := []
deriving DecidableEq

/-- What a command line asks for. -/
inductive Command where
  | version
  | translate (options : Options)
deriving DecidableEq

namespace Rest

/-- The argument that `taken` holds, or the error for its lack once all settings have been taken. -/
def argumentOf (rest : Rest) (tokens : List Token) (setting : Setting) (taken : Except Nat (Option Argument)) :
    Except UsageError (Option Argument) :=
  match taken with
  | .ok argument => .ok argument
  | .error index =>
    let next := match rest[index + 1]? with
      | some (some (.option _ word)) => some word
      | _ => none
    .error (.noArgument ((tokens[index]?.map Token.text).getD "") (setting.argument.getD "") next)

/-- The error for the first token that nothing has used, if there is one: an option that stands there again, or a text that
may be meant for another. -/
def firstUnused? (rest : Rest) (tokens : List Token) : Option UsageError := do
  let index ← rest.findIdx? Option.isSome
  let token ← rest[index]?.join
  let isRepeated := match token with
    | .option name _ => (tokens.take index).any fun
      | .option earlier _ => earlier = name
      | _ => false
    | _ => false
  if isRepeated then return .repeated token.text
  return ((Suggestion.ofText? token.text).map (.unknown token.text)).getD (.unexpected token.text)

end Rest

/-- What a command line asks for. A line that names the version asks for that alone, even if it has errors. -/
def Command.ofWords (words : List String) : Except UsageError Command := do
  let tokens := tokensOf words
  let rest : Rest := tokens.map some
  let (jobs, rest) := rest.takeArgument .jobs
  let (dump, rest) := rest.takeFlag .dump
  let (output, rest) := rest.takeArgument .output
  let (verbose, rest) := rest.takeFlag .verbose
  let (inputs, rest) := rest.takeWords
  if (rest.find? .version).isSome then return .version
  let jobs ← match ← rest.argumentOf tokens .jobs jobs with
    | none => pure none
    | some argument =>
      match countOf argument.text with
      | .ok count => pure (some count)
      | .error slip => throw (.badCount argument slip)
  let output ← rest.argumentOf tokens .output output
  match rest.firstUnused? tokens with
  | some error => throw error
  | none => return .translate { jobs, dump, verbose, output := output.map Argument.text, inputs }

end FunctionTrees.CommandLine
