import LabeledPeg.Span
import LabeledPeg.Text.Quoted

/-!
# Failures of a parser

Why a parser did not match. An ordinary failure tells what was expected; a labelled one carries the
label that was thrown, the rule it was thrown in, and the stretch from where the labelled expression
began up to where it failed.
-/

namespace LabeledPeg.Parse

/-- Why a parser did not match. -/
inductive Failure where
  | endOfInput (expected : String) (span : Span)
  | mismatch (expected : String) (found : Char) (span : Span)
  | predicate (message : String) (span : Span)
  | labeled (label : String) (rule? : Option String) (span : Span)
deriving DecidableEq

namespace Failure

/-- The stretch of the input that a failure points at. -/
def span : Failure → Span
  | endOfInput _ span | mismatch _ _ span | predicate _ span | labeled _ _ span => span

/-- Where the parser failed: the end of the span. -/
def position (f : Failure) : Nat := f.span.stop

/-- What was expected; the label of a labelled failure. -/
def expected? : Failure → Option String
  | endOfInput expected _ | mismatch expected _ _ => some expected
  | labeled label _ _ => some label
  | predicate _ _ => none

/-- The label of a labelled failure. -/
def label? : Failure → Option String
  | labeled label _ _ => some label
  | _ => none

/-- Whether a label was thrown. -/
def isLabeled (f : Failure) : Bool := f.label?.isSome

/-- The message that reports a failure. -/
def message : Failure → String
  | endOfInput expected span =>
    "unexpected end of input at " ++ span.text ++ ", expected " ++ expected
  | mismatch expected found span =>
    "expected " ++ expected ++ " at " ++ span.text ++ ", found " ++ Text.quotedCharacter found
  | predicate message span => message ++ " at " ++ span.text
  | labeled label rule? span =>
    label ++ " at " ++ span.text ++ (rule?.map fun rule => " in rule " ++ rule).getD ""

end Failure

end LabeledPeg.Parse
