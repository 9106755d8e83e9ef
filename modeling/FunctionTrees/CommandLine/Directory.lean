/-!
# Files

`Files` is what a run needs of a place that holds files: to create, to read and to extend them. A `Directory` is such a
place as a value, so that a run over it is a function from directories to directories.
-/

set_option autoImplicit false

namespace FunctionTrees.CommandLine

/-! ## Places that hold files -/

/-- Why a file cannot be read or written. -/
inductive FileError where
  | notFound
  | notDirectory
  | isDirectory
  | nameTooLong
  /-- The content is not text in UTF-8. -/
  | notText
  | other (text : String)
deriving DecidableEq

def FileError.message : FileError → String
  | notFound => "No such file or directory (os error 2)"
  | notDirectory => "Not a directory (os error 20)"
  | isDirectory => "Is a directory (os error 21)"
  | nameTooLong => "File name too long (os error 36)"
  | notText => "stream did not contain valid UTF-8"
  | other text => text

/-- What can be done with files, which are named by paths. -/
class Files (m : Type → Type) where
  /-- Makes an empty file, in place of the one that is there. -/
  create : String → m (Except FileError Unit)
  read : String → m (Except FileError ByteArray)
  /-- Adds to the content of a file. -/
  append : String → String → m (Except FileError Unit)

/-! ## Directories as values -/

/-- A path without detours: the names from the working directory to a file, after as many `..` as lead out of it. -/
abbrev Location := List String

/-- The files under a working directory. Of what lies outside nothing is known but the directories that lead there. -/
structure Directory where
  files : List (Location × ByteArray) := []

namespace Directory

instance : Inhabited Directory := ⟨{}⟩

def file? (directory : Directory) (location : Location) : Option ByteArray :=
  (directory.files.find? fun (other, _) => other = location).map Prod.snd

/-- Whether a location is a directory: one that a file is in, or the working directory or one around it. -/
def isDirectory (directory : Directory) (location : Location) : Bool :=
  location.all (· = "..") ||
    directory.files.any fun (other, _) => location.isPrefixOf other && location.length < other.length

/-- One step from a directory by a name. -/
def step (location : Location) (name : String) : Location :=
  if name = "" ∨ name = "." then location
  else if name = ".." ∧ ¬location.all (· = "..") then location.dropLast
  else location ++ [name]

/-- How many bytes a name can have. -/
def nameLimit : Nat := 255

/-- How many bytes a path can have. -/
def pathLimit : Nat := 4095

/-- The location that names lead to; only the last of them need not exist. -/
def follow (directory : Directory) (location : Location) : List String → Except FileError Location
  | [] => .ok location
  | name :: names =>
    if directory.isDirectory location then
      if nameLimit < name.utf8ByteSize then .error .nameTooLong else directory.follow (step location name) names
    else if (directory.file? location).isSome then .error .notDirectory
    else .error .notFound

/-- The names in a path, and where they start. -/
def split (path : String) : Location × List String :=
  (if path.startsWith "/" then [".."] else [], (path.toList.splitOn '/').map String.ofList)

/-- Refuses what cannot be a path. -/
def checkPath (path : String) : Except FileError Unit :=
  if path = "" then .error .notFound
  else if pathLimit < path.utf8ByteSize then .error .nameTooLong
  else .ok ()

def read (directory : Directory) (path : String) : Except FileError ByteArray := do
  checkPath path
  let (origin, names) := split path
  let location ← directory.follow origin names
  if directory.isDirectory location then throw .isDirectory
  match directory.file? location with
  | some content => return content
  | none => throw .notFound

/-- The location of a file that is to be written. A path with a slash at its end names a directory, whatever is there. -/
def target (directory : Directory) (path : String) : Except FileError Location := do
  checkPath path
  let (origin, names) := split path
  let withoutSlashes := (names.reverse.dropWhile (· = "")).reverse
  let namesDirectory := withoutSlashes.length < names.length
  let location ← directory.follow origin (if namesDirectory then withoutSlashes.dropLast ++ ["."] else withoutSlashes)
  if namesDirectory ∨ directory.isDirectory location then throw .isDirectory
  return location

/-- The directory with `content` at a location. -/
def put (directory : Directory) (location : Location) (content : ByteArray) : Directory :=
  if (directory.file? location).isSome then
    ⟨directory.files.map fun (other, old) => (other, if other = location then content else old)⟩
  else ⟨directory.files ++ [(location, content)]⟩

def write (directory : Directory) (path : String) (content : ByteArray) : Except FileError Directory := do
  return directory.put (← directory.target path) content

/-- The directory with `content` at the end of a file. -/
def append (directory : Directory) (path : String) (content : ByteArray) : Except FileError Directory := do
  let location ← directory.target path
  return directory.put location (((directory.file? location).getD ByteArray.empty) ++ content)

/-- The directory that holds the given files. -/
def ofFiles (files : List (String × ByteArray)) : Directory :=
  ⟨files.map fun (path, content) =>
    let (origin, names) := split path
    (names.foldl step origin, content)⟩

/-- Does what changes a directory, unless it fails. -/
def change (f : Directory → Except FileError Directory) : StateM Directory (Except FileError Unit) := fun directory =>
  match f directory with
  | .ok changed => (.ok (), changed)
  | .error error => (.error error, directory)

instance : Files (StateM Directory) where
  create path := change fun directory => directory.write path ByteArray.empty
  read path := fun directory => (directory.read path, directory)
  append path content := change fun directory => directory.append path content.toUTF8

end Directory

end FunctionTrees.CommandLine
