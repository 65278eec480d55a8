/-!
# What a reader expected

A text that is refused is reported at the farthest place that was tried, with the terms of the
grammar notation that were looked for there. A term takes the place of the terms it is made of when
it was looked for at the same place as several of them.
-/

namespace LabeledPeg.Source

/-- The terms of the grammar notation that a report can name. -/
inductive Term where
  | endOfText
  | wholeGrammar
  | wholeExpression
  | importClause
  | importNames
  | importAll
  | importKeyword
  | fromKeyword
  | definition
  | expression
  | sequence
  | predicate
  | predicateOp
  | labeled
  | suffixed
  | suffixOp
  | primary
  | any
  | identifier
  | literal
  | path
  | charClass
  | classMember
  | classRange
  | classChar
deriving DecidableEq

namespace Term

/-- How a report calls a term. -/
def text : Term → String
  | endOfText => "EOI"
  | wholeGrammar => "grammar"
  | wholeExpression => "expression_only"
  | importClause => "import"
  | importNames => "import_names"
  | importAll => "import_all"
  | importKeyword => "kw_import"
  | fromKeyword => "kw_from"
  | definition => "definition"
  | expression => "expression"
  | sequence => "sequence"
  | predicate => "prefix"
  | predicateOp => "prefix_op"
  | labeled => "labeled"
  | suffixed => "suffix"
  | suffixOp => "suffix_op"
  | primary => "primary"
  | any => "any"
  | identifier => "identifier"
  | literal => "literal"
  | path => "string"
  | charClass => "class"
  | classMember => "class_item"
  | classRange => "class_range"
  | classChar => "class_char"

/-- The terms in the order in which a report lists them. -/
def inOrder : List Term :=
  [endOfText, wholeGrammar, wholeExpression, importClause, importNames, importAll, importKeyword,
    fromKeyword, definition, expression, sequence, predicate, predicateOp, labeled, suffixed,
    suffixOp, primary, any, identifier, literal, path, charClass, classMember, classRange,
    classChar]

end Term

/-- The terms that were looked for at the farthest place tried, with repetitions; no terms if
nothing was looked for in vain. -/
structure Expectation where
  position : Nat := 0
  terms : List Term := []
deriving DecidableEq

namespace Expectation

/-- Joins what was expected in one stretch of reading to what was expected later: the farther place
wins, and at the same place the terms add up. -/
def merge (earlier later : Expectation) : Expectation :=
  if later.terms.isEmpty then earlier
  else if earlier.terms.isEmpty || decide (earlier.position < later.position) then later
  else if later.position < earlier.position then earlier
  else ⟨later.position, earlier.terms ++ later.terms⟩

/-- What is expected after a term was looked for at `start` in vain, `inner` being what its parts
expected: the parts if they got farther, or if a single one of them is to blame, else the term. -/
def missed (term : Term) (start : Nat) (inner : Expectation) : Expectation :=
  if inner.terms.isEmpty || (inner.position == start && inner.terms.length != 1) then
    ⟨start, [term]⟩
  else inner

/-- Lists alternatives in a sentence. -/
def listAlternatives : List String → String
  | [] => ""
  | [only] => only
  | [first, second] => first ++ " or " ++ second
  | names => ", ".intercalate names.dropLast ++ ", or " ++ names.getLastD ""

/-- The report of an expectation. -/
def message (e : Expectation) : String :=
  match Term.inOrder.filter e.terms.contains with
  | [] => "unknown parsing error"
  | terms => "expected " ++ listAlternatives (terms.map Term.text)

end Expectation

end LabeledPeg.Source
