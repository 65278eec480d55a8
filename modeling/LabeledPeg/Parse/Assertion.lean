import LabeledPeg.Parse.Failure
import LabeledPeg.Parse.Tree

/-!
# Assertions on parse results

What a test can demand of the result of a parser, and the report when the result is otherwise.
-/

namespace LabeledPeg.Parse

/-- What a parser returned: a tree or none, or a failure. -/
abbrev Result := Except Failure (Option Tree)

namespace Result

/-- A report of a test: a headline and lines below it. -/
def report (headline : String) (lines : List String) : String :=
  "\n🔴 TEST FAILED (" ++ headline ++ "):\n" ++ String.join (lines.map (· ++ "\n"))

/-- Demands that the parser matched, and gives its tree. -/
def expectSuccess : Result → Except String (Option Tree)
  | .ok tree? => .ok tree?
  | .error f =>
    .error (report "Expected Success, but got Error"
      ["Message:  " ++ f.message, "Location: " ++ f.span.text])

/-- Demands that the parser matched and returned a given tree or none. -/
def expectSuccessIs (r : Result) (expected : Option Tree) : Except String (Option Tree) := do
  let tree? ← r.expectSuccess
  if tree? == expected then return tree?
  else throw (report "Value Mismatch"
    ["Expected: " ++ Tree.displayOption expected, "Got:      " ++ Tree.displayOption tree?])

/-- Demands that the parser failed, and gives the failure. -/
def expectFailure : Result → Except String Failure
  | .ok tree? =>
    .error (report "Expected Failure, but got Success"
      ["Parsed Value: " ++ Tree.displayOption tree?])
  | .error f => .ok f

/-- Whether a text occurs in another one. -/
def occursIn (part : List Char) : List Char → Bool
  | [] => part.isEmpty
  | c :: cs => part.isPrefixOf (c :: cs) || occursIn part cs

/-- Demands that the parser failed with a message that contains `part`. -/
def expectFailureContains (r : Result) (part : String) : Except String Failure := do
  let f ← r.expectFailure
  if occursIn part.toList f.message.toList then return f
  else throw (report "Error Message Mismatch"
    ["Expected part: " ++ Text.quoted part, "Actual msg:    " ++ Text.quoted f.message,
      "Location:      " ++ f.span.text])

/-- Demands that the parser failed with a given label. -/
def expectLabel (r : Result) (label : String) : Except String Failure := do
  let f ← r.expectFailure
  if f.label? = some label then return f
  else throw (report "Label Mismatch"
    ["Expected label: " ++ Text.quoted label, "Actual error:   " ++ f.message])

/-- Demands that the parser matched and that its tree stands for a given text. -/
def expectMatch (r : Result) (expected : String) : Except String Tree := do
  match ← r.expectSuccess with
  | none => throw (report "Empty Result" ["Expected text: " ++ Text.quoted expected])
  | some tree =>
    if tree.flatten = expected then return tree
    else throw (report "Text Mismatch"
      ["Expected: " ++ Text.quoted expected, "Got:      " ++ Text.quoted tree.flatten])

end Result

end LabeledPeg.Parse
