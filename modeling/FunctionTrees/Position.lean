import FunctionTrees.StringPool

/-!
# Positions in source text

An `Extent` is a stretch of a file from a first to a last character, both included and both counted from 1; its fields
carry the proof that it does not run backwards. A `Located` extent names its file as well: a `Position` by its symbol in
some pool, a `FileSpan` by its text.
-/

set_option autoImplicit false

namespace FunctionTrees

/-! ## Extents -/

/-- The characters from a first to a last one, lines and columns counted from 1. -/
structure Extent where
  firstLine : UInt32
  firstCol : UInt32
  lastLine : UInt32
  lastCol : UInt32
  one_le : 0 < firstLine ∧ 0 < firstCol ∧ 0 < lastLine ∧ 0 < lastCol
  ordered : firstLine < lastLine ∨ firstLine = lastLine ∧ firstCol ≤ lastCol
deriving DecidableEq

/-- The line and the column of a character, in reading order. -/
def notAfter (line col line' col' : UInt32) : Bool := line < line' || line == line' && col ≤ col'

namespace Extent

/-- The extent with the given bounds, unless one of them is zero or they run backwards. -/
def ofBounds? (firstLine firstCol lastLine lastCol : UInt32) : Option Extent :=
  if h : (0 < firstLine ∧ 0 < firstCol ∧ 0 < lastLine ∧ 0 < lastCol) ∧
      (firstLine < lastLine ∨ firstLine = lastLine ∧ firstCol ≤ lastCol) then
    some ⟨firstLine, firstCol, lastLine, lastCol, h.1, h.2⟩
  else none

/-- Whether `inner` starts no earlier and ends no later than `outer`. -/
def contains (outer inner : Extent) : Bool :=
  notAfter outer.firstLine outer.firstCol inner.firstLine inner.firstCol &&
    notAfter inner.lastLine inner.lastCol outer.lastLine outer.lastCol

/-- How an extent is shown: both ends as line and column. -/
def text (extent : Extent) : String :=
  s!"{extent.firstLine}:{extent.firstCol}-{extent.lastLine}:{extent.lastCol}"

end Extent

/-! ## Extents of a file -/

/-- An extent of a file, the file being named by a `φ`. -/
structure Located (φ : Type) where
  file : φ
  extent : Extent
deriving DecidableEq

/-- An extent of a file that is named by its symbol in some pool. -/
abbrev Position := Located Symbol

/-- An extent of a file that is named by its text. -/
abbrev FileSpan := Located String

namespace Located

variable {φ : Type}

/-- The extent of `file` with the given bounds, unless they are not those of an extent. -/
def ofBounds? (file : φ) (firstLine firstCol lastLine lastCol : UInt32) : Option (Located φ) :=
  (Extent.ofBounds? firstLine firstCol lastLine lastCol).map fun extent => ⟨file, extent⟩

/-- Whether both are in one file and `inner` lies within `outer`. -/
def contains [DecidableEq φ] (outer inner : Located φ) : Bool :=
  outer.file = inner.file && outer.extent.contains inner.extent

end Located

namespace FileSpan

/-- How an extent of a file is shown. -/
def text (span : FileSpan) : String := span.file ++ ":" ++ span.extent.text

end FileSpan

namespace Position

/-- The numbers by which positions are ordered, the first one deciding first. -/
def orderKey (position : Position) : List Nat :=
  [position.file.index, position.extent.firstLine.toNat, position.extent.firstCol.toNat,
    position.extent.lastLine.toNat, position.extent.lastCol.toNat]

/-- Whether `a` comes before `b` in the order of their fields. -/
def before (a b : Position) : Bool := a.orderKey < b.orderKey

/-- The position with its file named by the text that `strings` holds for it. -/
def resolve (strings : StringPool) (position : Position) : Except Misuse FileSpan :=
  (strings.fetch position.file).map fun file => ⟨file, position.extent⟩

end Position

end FunctionTrees
