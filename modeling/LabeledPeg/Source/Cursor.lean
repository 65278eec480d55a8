import LabeledPeg.Span

/-!
# Places in a grammar text

A cursor is what is left of a grammar text, with the number of bytes before it. Blanks and comments
mean nothing between the parts of a grammar; a comment runs from `//` to the end of its line.
-/

namespace LabeledPeg.Source

/-- The rest of a text, and how many bytes of the text stand before it. -/
structure Cursor where
  offset : Nat
  rest : List Char
deriving DecidableEq

namespace Cursor

/-- The beginning of a text. -/
def ofString (s : String) : Cursor := ⟨0, s.toList⟩

/-- The first character and the place behind it. -/
def next? : Cursor → Option (Char × Cursor)
  | ⟨_, []⟩ => none
  | ⟨offset, c :: rest⟩ => some (c, ⟨offset + c.utf8Size, rest⟩)

/-- The place behind `text`, if the rest begins with it. -/
def after? : List Char → Cursor → Option Cursor
  | [], cursor => some cursor
  | _ :: _, ⟨_, []⟩ => none
  | t :: text, ⟨offset, c :: rest⟩ =>
    if c = t then after? text ⟨offset + c.utf8Size, rest⟩ else none

/-- Whether the rest begins with `text`. -/
def startsWith (text : List Char) (cursor : Cursor) : Bool := (cursor.after? text).isSome

end Cursor

/-- Spaces, tabs and the two characters of line breaks. -/
def isBlank (c : Char) : Bool := c == ' ' || c == '\t' || c == '\r' || c == '\n'

/-- Whether a character ends a comment. -/
def isLineEnd (c : Char) : Bool := c == '\r' || c == '\n'

/-- The place behind all blanks and comments, given whether a comment is open. -/
def skipFrom : Bool → Nat → List Char → Cursor
  | _, offset, [] => ⟨offset, []⟩
  | false, offset, '/' :: '/' :: rest => skipFrom true (offset + 2) rest
  | false, offset, c :: rest =>
    if isBlank c then skipFrom false (offset + c.utf8Size) rest else ⟨offset, c :: rest⟩
  | true, offset, c :: rest => skipFrom (!isLineEnd c) (offset + c.utf8Size) rest

/-- The place behind all blanks and comments. -/
def Cursor.skipBlanks (cursor : Cursor) : Cursor := skipFrom false cursor.offset cursor.rest

end LabeledPeg.Source
