import FunctionTrees.CommandLine.Run

/-!
# The tool

`main` runs a command line over the files of the system.
-/

set_option autoImplicit false

namespace FunctionTrees.CommandLine

/-- The error of a file that the system gives a number, with a text of its own; some numbers come negated. -/
def FileError.ofCode (code : UInt32) (details : String) : FileError :=
  let code := if code < 0x80000000 then code else 0 - code
  if code = 20 then .notDirectory
  else if code = 21 then .isDirectory
  else if code = 36 then .nameTooLong
  else .other s!"{details.capitalize} (os error {code})"

/-- What an error of the system means for a file. -/
def FileError.ofSystem : IO.Error → FileError
  | .noFileOrDirectory .. => .notFound
  | .inappropriateType _ code details | .permissionDenied _ code details | .invalidArgument _ code details =>
    .ofCode code details
  | error => .other (toString error)

/-- The value of an action on files, or why it failed. -/
def attempt {α : Type} (action : IO α) : IO (Except FileError α) := do
  match ← action.toBaseIO with
  | .ok value => return .ok value
  | .error error => return .error (.ofSystem error)

instance : Files IO where
  create path := attempt (IO.FS.writeFile path "")
  read path := attempt (IO.FS.readBinFile path)
  append path content := attempt do (← IO.FS.Handle.mk path .append).putStr content

end FunctionTrees.CommandLine

def main (words : List String) : IO UInt32 := do
  let finish : FunctionTrees.CommandLine.Finish ← FunctionTrees.CommandLine.run words
  (← IO.getStdout).putStr finish.out
  (← IO.getStderr).putStr finish.err
  return finish.code
