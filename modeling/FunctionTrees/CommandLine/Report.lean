import FunctionTrees.Crew
import FunctionTrees.CommandLine.Directory
import FunctionTrees.CommandLine.Options
import FunctionTrees.Formats.Transfer
import FunctionTrees.Tree.Printer
import FunctionTrees.Unit

/-!
# What became of the inputs

An `InputResult` tells what became of one input: why it could not be read, or the entities that it gave and the functions
that failed. The lines that report it, the listings of its entities and the summary of all inputs are read off the
results. The listing of an entity is a line with its signature and a tree for each of its blocks, and it ends in an empty
line.
-/

set_option autoImplicit false

namespace FunctionTrees

/-! ## Listings -/

def Argument.text (argument : Argument) : String := argument.name ++ ": " ++ argument.type

/-- Where a span starts. -/
def FileSpan.startText (span : FileSpan) : String :=
  span.file ++ s!":{span.extent.firstLine}:{span.extent.firstCol}"

namespace Entity

/-- The signature, with the place where the function starts if that is known. -/
def headline (entity : Entity) : Except Misuse String := do
  let arguments := ", ".intercalate (entity.arguments.map Argument.text)
  let signature := "; " ++ entity.name ++ "(" ++ arguments ++ ") -> " ++ entity.returnType
  match entity.position with
  | some position => return signature ++ " @ " ++ (← position.resolve entity.ast.strings).startText
  | none => return signature

/-- The signature and the blocks of an entity. -/
def listing (entity : Entity) : Except Misuse String := do
  let headline ← entity.headline
  let note := if entity.isDeclaration then ["; declaration"] else []
  let blocks ← entity.blocks.mapM (entity.ast.textOf entity.positions)
  return String.join (([headline] ++ note ++ blocks ++ [""]).map (· ++ "\n"))

end Entity

namespace CommandLine

/-! ## Inputs -/

/-- Why an input gives no unit. -/
inductive InputError where
  | unreadable (error : FileError)
  | notUnit (source : String) (fault : Json.Fault)
deriving DecidableEq

def InputError.message : InputError → String
  | unreadable error => "unable to read file: " ++ error.message
  | notUnit source fault => "not a valid unit: " ++ fault.messageIn source

/-- The unit in the content of a file. -/
def unitOf (content : Except FileError ByteArray) : Except InputError (List Transfer.Function) := do
  let bytes ← content.mapError .unreadable
  match String.fromUTF8? bytes with
  | none => throw (.unreadable .notText)
  | some source => (Transfer.unitFormat.decode source).mapError (.notUnit source)

/-- The entities that a unit gives, and the functions of it that failed. -/
structure Intake where
  table : EntityTable := {}
  failures : List FunctionFailure := []
deriving DecidableEq

/-- Takes in what became of one function; an entity that the table refuses is a failure. -/
def Intake.add (intake : Intake) (result : Except FunctionFailure Entity) : Intake :=
  match result with
  | .error failure => { intake with failures := intake.failures ++ [failure] }
  | .ok entity =>
    let (answer, table) := (EntityTable.offer entity).run intake.table
    match answer with
    | .ok () => { intake with table }
    | .error error => { table, failures := intake.failures ++ [⟨entity.name, .entity error⟩] }

/-- Makes entities of the functions of a unit, `workers` at a time, and takes them in in the order of the unit. -/
def intakeOf (workers : Nat) (schedule : Crew.Schedule) (functions : List Transfer.Function) : Intake :=
  (Crew.inOrder workers schedule (fun function => (entityOrFailure function).result) functions).foldl Intake.add {}

/-- What became of an input. -/
inductive InputResult where
  | unread (error : InputError)
  | read (intake : Intake)
deriving DecidableEq

namespace InputResult

/-- What becomes of an input with the given content. -/
def ofContent (workers : Nat) (schedule : Crew.Schedule) (content : Except FileError ByteArray) : InputResult :=
  match unitOf content with
  | .ok functions => read (intakeOf workers schedule functions)
  | .error error => unread error

/-- The entities of an input, none if it could not be read. -/
def entities : InputResult → List Entity
  | unread _ => []
  | read intake => intake.table.entities

/-- The failures among the functions of an input. -/
def failures : InputResult → List FunctionFailure
  | unread _ => []
  | read intake => intake.failures

def isRead : InputResult → Bool
  | unread _ => false
  | read _ => true

/-- The listings of the entities of an input. -/
def listings (result : InputResult) : Except Misuse String := String.join <$> result.entities.mapM Entity.listing

end InputResult

/-! ## Lines -/

/-- A colour of a terminal. -/
inductive Colour where
  | red
  | green
  | blue
  | cyan
  | white
deriving DecidableEq

def Colour.code : Colour → String
  | red => "31"
  | green => "32"
  | blue => "34"
  | cyan => "36"
  | white => "37"

/-- A text in a colour. -/
def Colour.paint (colour : Colour) (text : String) : String := "\x1b[" ++ colour.code ++ "m" ++ text ++ "\x1b[0m"

/-- A text in bold and in a colour. -/
def Colour.paintBold (colour : Colour) (text : String) : String := "\x1b[1;" ++ colour.code ++ "m" ++ text ++ "\x1b[0m"

def errorMark : String := Colour.red.paintBold "error:"

/-- The line for an output that could not be written. -/
def unwrittenLine (reason : String) : String := errorMark ++ " unable to write output: " ++ reason ++ "\n"

/-- The line for an input that gave no unit. -/
def inputErrorLine (input : String) (error : InputError) : String :=
  errorMark ++ " " ++ Colour.white.paintBold input ++ ": " ++ error.message ++ "\n"

/-- The line for a function that failed. -/
def failureLine (input : String) (failure : FunctionFailure) : String :=
  errorMark ++ " " ++ Colour.cyan.paint input ++ ": translation failed for function " ++
    Colour.blue.paintBold failure.function ++ ": " ++ failure.error.message ++ "\n"

/-- The line for an entity. -/
def entityLine (input : String) (entity : Entity) : String :=
  "  " ++ Colour.green.paint "translated" ++ " " ++ Colour.cyan.paint input ++ ": " ++ Colour.blue.paintBold entity.name ++
    s!" ({entity.blocks.length} blocks, {entity.callSites.length} calls)\n"

/-- The line for all inputs together. -/
def summaryLine (translated failed : Nat) : String :=
  let colour := if failed = 0 then Colour.green else Colour.red
  "     " ++ colour.paintBold "Summary" ++ " " ++ Colour.green.paint (toString translated) ++ " functions translated, " ++
    colour.paint (toString failed) ++ " failed\n"

/-- The lines for one input; entities have lines of their own only in a verbose report. -/
def linesOf (verbose : Bool) (input : String) : InputResult → List String
  | .unread error => [inputErrorLine input error]
  | .read intake =>
    intake.failures.map (failureLine input) ++ if verbose then intake.table.entities.map (entityLine input) else []

/-! ## All inputs together -/

/-- Inputs with what became of them, in the order of the command line. -/
abbrev Report := List (String × InputResult)

namespace Report

/-- How many entities the inputs gave. -/
def translated (report : Report) : Nat := report.foldl (fun count (_, result) => count + result.entities.length) 0

/-- How many functions failed. -/
def failed (report : Report) : Nat := report.foldl (fun count (_, result) => count + result.failures.length) 0

/-- Whether every input was read and no function failed. -/
def isClean (report : Report) : Bool := report.all fun (_, result) => result.isRead && result.failures.isEmpty

/-- The lines for all inputs. -/
def lines (report : Report) (verbose : Bool) : String :=
  String.join (report.flatMap fun (input, result) => linesOf verbose input result)

def summary (report : Report) : String := summaryLine report.translated report.failed

end Report

end CommandLine

end FunctionTrees
