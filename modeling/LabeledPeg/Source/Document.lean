import LabeledPeg.Grammar.Build
import LabeledPeg.Source.Expression

/-!
# Grammar texts

A grammar text holds imports, then at least one definition. A text can also hold an expression
alone. A text that is refused is reported at the farthest place that was tried.
-/

namespace LabeledPeg

namespace Source.Reader

/-- The star that takes every definition. -/
def importAll : Reader Unit := named .importAll (token ['*'])

/-- A further name behind a comma. -/
def furtherName : Reader String := do
  token [',']
  blanks
  identifier

/-- The names of an import, none for the star. -/
def importNames : Reader (List String) :=
  named .importNames
    (orElse
      (do
        importAll
        return [])
      (do
        let first ← identifier
        blanks
        return first :: (← many blanks furtherName)))

/-- An import. -/
def importClause : Reader Import :=
  named .importClause do
    let ((names, path), span) ← spanned do
      keyword .importKeyword ['i', 'm', 'p', 'o', 'r', 't']
      blanks
      let names ← importNames
      blanks
      keyword .fromKeyword ['f', 'r', 'o', 'm']
      blanks
      let path ← path
      return (names, path)
    return ⟨path, names, span⟩

/-- A definition. -/
def definition : Reader Definition :=
  named .definition do
    let ((name, body), span) ← spanned do
      let name ← identifier
      blanks
      token ['<', '-']
      blanks
      let body ← expression
      return (name, body)
    return ⟨name, body, span⟩

/-- The end of the text. -/
def endOfText : Reader Unit := named .endOfText (require fun cursor => cursor.rest.isEmpty)

/-- A whole text that holds an expression. -/
def wholeExpression : Reader Expr :=
  named .wholeExpression do
    blanks
    let e ← expression
    blanks
    endOfText
    return e

/-- A whole text that holds imports and definitions. -/
def wholeGrammar : Reader (List Import × List Definition) :=
  named .wholeGrammar do
    blanks
    let imports ← many blanks importClause
    blanks
    let first ← definition
    blanks
    let others ← many blanks definition
    blanks
    endOfText
    return (imports, first :: others)

/-- What a reader makes of a whole text. -/
def readText {α : Type} (reader : Reader α) (source : String) : Except GrammarError α :=
  let reading := reader (.ofString source)
  match reading.result with
  | some (value, _) => .ok value
  | none =>
    .error (.badSyntax reading.expected.message (Span.point reading.expected.position))

end Source.Reader

open Source in
/-- Reads an expression from its text. -/
def Expr.read (source : String) : Except GrammarError Expr :=
  Reader.readText Reader.wholeExpression source

open Source in
/-- Reads a grammar from its text. -/
def Grammar.read (source : String) : Except GrammarError Grammar := do
  let (imports, definitions) ← Reader.readText Reader.wholeGrammar source
  Grammar.build imports definitions ⟨0, source.utf8ByteSize⟩

end LabeledPeg
