import LabeledPeg.Span
import LabeledPeg.Text.Quoted

/-!
# Parse trees

What a parser returns for the input that it matched: pieces of text, and sequences of what the steps
of a rule returned.
-/

namespace LabeledPeg.Parse

/-- A piece of the input, or a sequence of trees, with the stretch of the input it stands for. -/
inductive Tree where
  | piece (text : String) (span : Span)
  | sequence (items : List Tree) (span : Span)
deriving BEq

namespace Tree

/-- The stretch of the input that a tree stands for. -/
def span : Tree → Span
  | piece _ span | sequence _ span => span

/-- The trees right below a sequence. -/
def items : Tree → List Tree
  | sequence items _ => items
  | piece _ _ => []

mutual

/-- The pieces of text of a tree, joined. -/
def flatten : Tree → String
  | piece text _ => text
  | sequence items _ => flattenAll items

/-- The pieces of text of a list of trees, joined. -/
def flattenAll : List Tree → String
  | [] => ""
  | item :: items => item.flatten ++ flattenAll items

end

/-- A span in the display of a tree. -/
def displaySpan (span : Span) : String :=
  "Span \x7b start: " ++ toString span.start ++ ", end: " ++ toString span.stop ++ " \x7d"

mutual

/-- The structure of a tree on one line. -/
def display : Tree → String
  | piece text span =>
    "String \x7b text: " ++ Text.quoted text ++ ", span: " ++ displaySpan span ++ " \x7d"
  | sequence items span =>
    "Sequence \x7b items: [" ++ ", ".intercalate (displayAll items) ++ "], span: " ++
      displaySpan span ++ " \x7d"

/-- The structures of a list of trees. -/
def displayAll : List Tree → List String
  | [] => []
  | item :: items => item.display :: displayAll items

end

/-- The structure of a tree that may be missing. -/
def displayOption : Option Tree → String
  | some tree => "Some(" ++ tree.display ++ ")"
  | none => "None"

end Tree

end LabeledPeg.Parse
