/-!
# Texts in lines

A message is a list of `Phrase`s, some of them between backticks. `inLines` sets it in lines of a limited width: before what
would go beyond the width the line is broken, and the blanks there are dropped. Inside a phrase an empty line and a blank at
the start of a line keep their line break, and four blanks there keep the whole line as it is; other line breaks count as
blanks.
-/

set_option autoImplicit false

namespace FunctionTrees.Text

/-- The first and the last code point of each run of characters that are white space. -/
def spaceRanges : List (Nat × Nat) :=
  [(0x9, 0xd), (0x20, 0x20), (0x85, 0x85), (0xa0, 0xa0), (0x1680, 0x1680), (0x2000, 0x200a), (0x2028, 0x2029),
   (0x202f, 0x202f), (0x205f, 0x205f), (0x3000, 0x3000)]

/-- Whether a character is white space. -/
def isSpace (c : Char) : Bool := spaceRanges.any fun (first, last) => first ≤ c.toNat && c.toNat ≤ last

/-! ## Phrases -/

/-- A part of a message. -/
inductive Phrase where
  | plain (text : String)
  /-- It stands between backticks. -/
  | ticked (text : String)
deriving DecidableEq

/-- A part of a phrase. -/
inductive Chunk where
  /-- A word, a blank or a line that is kept as it is, which takes up the rest of its line. -/
  | piece (letters : List Char) (isVerbatim : Bool := false)
  | lineBreak
deriving DecidableEq

/-- Whether a character is part of a word. -/
def isLetter (c : Char) : Bool := c ≠ ' ' ∧ c ≠ '\n'

/-- The parts of a phrase. -/
def chunksOf : List Char → List Chunk
  | [] => []
  | '\n' :: ' ' :: ' ' :: ' ' :: ' ' :: rest =>
    .piece (rest.takeWhile (· ≠ '\n')) true :: chunksOf (rest.dropWhile (· ≠ '\n'))
  | '\n' :: '\n' :: ' ' :: ' ' :: ' ' :: ' ' :: rest => .lineBreak :: chunksOf ('\n' :: ' ' :: ' ' :: ' ' :: ' ' :: rest)
  | '\n' :: '\n' :: rest => .lineBreak :: chunksOf rest
  | '\n' :: ' ' :: rest => .lineBreak :: chunksOf rest
  | '\n' :: rest => .piece [' '] :: chunksOf rest
  | ' ' :: rest => .piece [' '] :: chunksOf rest
  | c :: rest => .piece (c :: rest.takeWhile isLetter) :: chunksOf (rest.dropWhile isLetter)
termination_by chars => chars.length
decreasing_by
  all_goals simp only [List.length_cons]
  all_goals
    first
      | omega
      | exact Nat.lt_succ_of_le (List.Sublist.length_le (List.dropWhile_sublist _))
      | exact Nat.lt_of_le_of_lt (List.Sublist.length_le (List.dropWhile_sublist _)) (by omega)

/-! ## Lines -/

/-- A message as far as it has been set. -/
structure Page where
  /-- The characters, the last one first. -/
  reversed : List Char := []
  /-- How much of the last line is taken. -/
  column : Nat := 0
deriving DecidableEq

namespace Page

/-- Begins a line, without the white space before it. -/
def breakLine (page : Page) : Page := ⟨'\n' :: page.reversed.dropWhile isSpace, 0⟩

def write (letters : List Char) (page : Page) : Page := ⟨letters.reverse ++ page.reversed, page.column + letters.length⟩

/-- Sets a part of a phrase. It has room if its bytes do, while a line is taken up by characters. A blank that has no room is
dropped. -/
def put (width : Nat) (page : Page) : Chunk → Page
  | .piece letters isVerbatim =>
    let hasRoom := page.column + (String.ofList letters).utf8ByteSize ≤ width
    if ¬hasRoom ∧ letters = [' '] then page.breakLine
    else
      let page := (if hasRoom then page else page.breakLine).write letters
      if isVerbatim then { page with column := width + 1 } else page
  | .lineBreak => ⟨'\n' :: page.reversed, 0⟩

/-- Sets the parts of a text. -/
def putText (width : Nat) (page : Page) (text : String) : Page := (chunksOf text.toList).foldl (put width) page

/-- Sets a phrase; its backticks always have room. -/
def putPhrase (width : Nat) (page : Page) : Phrase → Page
  | .plain text => page.putText width text
  | .ticked text => ((page.write ['\x60']).putText width text).write ['\x60']

end Page

/-- A message in lines of the given width. -/
def inLines (width : Nat) (message : List Phrase) : String :=
  String.ofList (message.foldl (Page.putPhrase width) {}).reversed.reverse

end FunctionTrees.Text
