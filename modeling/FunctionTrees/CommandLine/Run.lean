import FunctionTrees.CommandLine.Report

/-!
# Runs of the tool

`run` does what a command line asks for, over any place that holds files. The output is created before an input is read.
Then `Progress` grows input by input: what is to be written waits until there is more of it than the buffer holds, or until
all inputs have been worked through.
-/

set_option autoImplicit false

namespace FunctionTrees.CommandLine

/-- How a run ends: its exit code and what it prints. -/
structure Finish where
  code : UInt32 := 0
  out : String := ""
  err : String := ""
deriving DecidableEq

/-- The version of the tool. -/
def version : String := "0.1.0"

/-- The end of a run that could not write its output, after it has printed `err`. -/
def Finish.unwritten (err reason : String) : Finish := { code := 2, err := err ++ unwrittenLine reason }

/-- How many functions are worked on at a time. -/
def Options.workers (options : Options) : Nat := options.jobs.getD 1

/-- How far a run has come. -/
structure Progress where
  report : Report := []
  /-- What is to be written and has not been. -/
  pending : String := ""
deriving DecidableEq

/-- How many bytes can wait to be written to a file. -/
def bufferSize : Nat := 8192

variable {m : Type → Type} [Monad m] [Files m]

/-- Writes what is pending to the file for it if that is more than `limit` bytes; the result is what is still pending. -/
def drain (options : Options) (limit : Nat) (pending : String) : m (Except FileError String) := do
  match options.output with
  | some path =>
    if limit < pending.utf8ByteSize then return (← Files.append path pending).map fun _ => ""
    else return .ok pending
  | none => return .ok pending

/-- What an input adds to the output. -/
def Options.listed (options : Options) (result : InputResult) : Except Misuse String :=
  if options.dump then result.listings else .ok ""

/-- Ends a run that has worked through all inputs; what has no file to go to is printed. -/
def finish (options : Options) (progress : Progress) : m Finish := do
  let err := progress.report.lines options.verbose
  match ← drain options 0 progress.pending with
  | .error error => return .unwritten err error.message
  | .ok out => return { code := if progress.report.isClean then 0 else 1, out, err := err ++ progress.report.summary }

/-- Works through inputs, each with a schedule of its own. -/
def processInputs (options : Options) (schedules : Nat → Crew.Schedule) : Progress → List String → m Finish
  | progress, [] => finish options progress
  | progress, input :: inputs => do
    let content ← Files.read input
    let result := InputResult.ofContent options.workers (schedules progress.report.length) content
    let report := progress.report ++ [(input, result)]
    match options.listed result with
    | .error misuse => return .unwritten (report.lines options.verbose) misuse.message
    | .ok listed =>
      match ← drain options bufferSize (progress.pending ++ listed) with
      | .error error => return .unwritten (report.lines options.verbose) error.message
      | .ok pending => processInputs options schedules ⟨report, pending⟩ inputs

/-- Creates the output and works through the inputs. -/
def Options.run (options : Options) (schedules : Nat → Crew.Schedule) : m Finish := do
  match options.output with
  | none => processInputs options schedules {} options.inputs
  | some path =>
    match ← Files.create path with
    | .ok () => processInputs options schedules {} options.inputs
    | .error error => return .unwritten "" error.message

/-- Does what a command line asks for. -/
def run (words : List String) : m Finish := do
  match Command.ofWords words with
  | .error error => return { code := 1, err := "Error: " ++ error.message ++ "\n" }
  | .ok .version => return { out := "Version: " ++ version ++ "\n\n" }
  | .ok (.translate options) => options.run fun _ => []

end FunctionTrees.CommandLine
