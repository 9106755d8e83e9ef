import FunctionTrees.CommandLine.Token

/-!
# Suggestions

A text that is no option may be one with a dash too many or too few, or with some letters wrong. `Suggestion.ofText?` finds
the option that may have been meant. Letters are dropped, put in, changed or swapped with a neighbour, an edit each;
`isNear` tells whether few enough edits turn one word into another.
-/

set_option autoImplicit false

namespace FunctionTrees.CommandLine

/-! ## Words that differ little -/

/-- Whether at most `edits` edits, none of which touches what another has changed, turn `word` into `target`. An equal first
letter is kept, for no edit of it gains anything. -/
def isNear : (edits : Nat) → (word target : List Char) → Bool
  | edits, [], target => target.length ≤ edits
  | edits, word, [] => word.length ≤ edits
  | 0, word, target => word = target
  | edits + 1, a :: word, b :: target =>
    if a = b then isNear (edits + 1) word target
    else
      isNear edits word (b :: target) || isNear edits (a :: word) target || isNear edits word target ||
        match word, target with
        | c :: word, d :: target => a = d && b = c && isNear edits word target
        | _, _ => false
termination_by _ word target => word.length + target.length

/-! ## Options that are near -/

/-- An option that may have been meant by a text. -/
structure Suggestion where
  meant : OptionName
  /-- What is wrong with the dashes of the text, if they are to blame. -/
  remark : String := ""
deriving DecidableEq

namespace Suggestion

/-- The letter that stands behind two dashes. -/
def extraDash? (text : String) : Option Suggestion :=
  (Setting.ofRun.find? fun setting => text = "--" ++ setting.letter.toString).map fun setting =>
    ⟨.short setting.letter, " (with two dashes)"⟩

/-- The word that stands behind one dash. -/
def missingDash? (text : String) : Option Suggestion :=
  (Setting.ofRun.find? fun setting => text = "-" ++ setting.word).map fun setting =>
    ⟨.long setting.word, " (with one dash)"⟩

/-- How many edits a misspelt option can be away from what was meant. -/
def maxEdits : Nat := 3

/-- The long option that the fewest edits lead to, the first of several. A text is misspelt only if it takes some edits, but
fewer than it has characters. -/
def closest? (text : String) : Option Suggestion :=
  let names := (Setting.ofRun.map fun setting => OptionName.long setting.word).filter fun name => name.text ≠ text
  let nearest := (List.range (min text.length (maxEdits + 1))).findSome? fun edits =>
    names.find? fun name => isNear edits text.toList name.text.toList
  nearest.map fun name => ⟨name, ""⟩

/-- The option that may have been meant by a text. -/
def ofText? (text : String) : Option Suggestion := extraDash? text <|> missingDash? text <|> closest? text

end Suggestion

end FunctionTrees.CommandLine
