/-!
# Words of a command line

A `Setting` is an option that the tool knows, with a short and a long name. `tokensOf` takes the words of a command line
apart: several short options can share a word, an argument can be attached to its option, and after `--` every word is an
operand.
-/

set_option autoImplicit false

namespace FunctionTrees.CommandLine

/-! ## Settings -/

/-- The name of an option as it is written. -/
inductive OptionName where
  | short (letter : Char)
  | long (word : String)
deriving DecidableEq

def OptionName.text : OptionName → String
  | short letter => "-" ++ letter.toString
  | long word => "--" ++ word

/-- An option with its two names. -/
structure Setting where
  letter : Char
  word : String
  /-- What its argument is called, if it takes one. -/
  argument : Option String := none
deriving DecidableEq

namespace Setting

def jobs : Setting := ⟨'j', "jobs", some "JOBS"⟩

def dump : Setting := ⟨'d', "dump", none⟩

def output : Setting := ⟨'o', "output", some "FILE"⟩

def verbose : Setting := ⟨'v', "verbose", none⟩

def version : Setting := ⟨'V', "version", none⟩

/-- The settings of a run. -/
def ofRun : List Setting := [jobs, dump, output, verbose]

/-- All settings. -/
def all : List Setting := ofRun ++ [version]

/-- Whether `name` names the setting. -/
def isNamed (setting : Setting) : OptionName → Bool
  | .short letter => letter = setting.letter
  | .long word => word = setting.word

/-- The setting of a letter. -/
def ofLetter? (letter : Char) : Option Setting := all.find? fun setting => setting.letter = letter

end Setting

/-! ## Tokens -/

/-- A piece of a command line. -/
inductive Token where
  /-- An option, and the word that it starts; the later options of a word have an empty one. -/
  | option (name : OptionName) (word : String)
  /-- What is attached to the option before it. -/
  | attached (text : String)
  /-- A word of its own, which can be an argument of the option before it. -/
  | word (text : String)
  /-- A word that is no argument of an option. -/
  | operand (text : String)
deriving DecidableEq

namespace Token

def text : Token → String
  | option name _ => name.text
  | attached text => text
  | word text => text
  | operand text => text

/-- The options of a word of short options, unless it has an unknown letter. The first letter of an option with an
argument makes the rest of the word its argument. -/
def cluster? (word : String) : List Char → Option (List Token)
  | [] => some []
  | letter :: rest => do
    let setting ← Setting.ofLetter? letter
    let first := option (.short letter) word
    if setting.argument.isNone then return first :: (← cluster? "" rest)
    else if rest.isEmpty then return [first]
    else return [first, attached (String.ofList rest)]

/-- The tokens of a word that has `letter` and `rest` behind a dash. A letter alone is an option even if it is not known. With
a `=` somewhere in the rest, the rest is the argument of the letter, without a `=` in front; the letter has to be ASCII. -/
def ofLetters (word : String) (letter : Char) (rest : List Char) : List Token :=
  if rest.isEmpty then [option (.short letter) word]
  else if '=' ∈ rest then
    if letter.toNat < 0x80 then
      [option (.short letter) word, attached (String.ofList (if rest.head? = some '=' then rest.tail else rest))]
    else [.word word]
  else (cluster? word (letter :: rest)).getD [.word word]

/-- The tokens of one word. -/
def ofWord (word : String) : List Token :=
  match word.toList with
  | '-' :: '-' :: rest =>
    let name := option (.long (String.ofList (rest.takeWhile (· ≠ '=')))) word
    match rest.dropWhile (· ≠ '=') with
    | [] => [name]
    | _ :: argument => [name, attached (String.ofList argument)]
  | '-' :: letter :: rest => ofLetters word letter rest
  | _ => [.word word]

end Token

/-- The tokens of a command line; what follows `--` is taken as it is. -/
def tokensOf : List String → List Token
  | [] => []
  | word :: words => if word = "--" then words.map .operand else Token.ofWord word ++ tokensOf words

end FunctionTrees.CommandLine
