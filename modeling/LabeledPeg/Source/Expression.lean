import LabeledPeg.Source.Token

/-!
# Expressions of grammar texts

From the loosest operator to the tightest: choices, sequences, predicates, labels, repetitions, and
the primary expressions. Every part takes the blanks behind it when its optional tail is absent, so
spans may end in blanks. A group of one item is that item.
-/

namespace LabeledPeg.Source.Reader

/-- The operator of a predicate, or `#`. -/
def predicateOp : Reader Char :=
  named .predicateOp (oneOf fun c => c == '&' || c == '!' || c == '#')

/-- The operator of an option or a repetition. -/
def suffixOp : Reader Char := named .suffixOp (oneOf fun c => c == '?' || c == '*' || c == '+')

/-- A rule name, which is not one if a definition begins with it. -/
def reference : Reader Expr := do
  let (name, span) ← spanned identifier
  blanks
  require fun behind => !behind.startsWith ['<', '-']
  return .identifier name span

/-- An expression in parentheses. -/
def group (nested : Reader Expr) : Reader Expr := do
  token ['(']
  blanks
  let e ← nested
  blanks
  token [')']
  return e

/-- The dot, which matches any character. -/
def any : Reader Expr :=
  named .any do
    let (_, span) ← spanned (token ['.'])
    return .any span

/-- A rule name, a group, a literal, a class or the dot. -/
def primary (nested : Reader Expr) : Reader Expr :=
  named .primary
    (orElse reference (orElse (group nested) (orElse literal (orElse charClass any))))

/-- Applies an operator that stands behind its operand. -/
def applySuffix (op? : Option Char) (body : Expr) (span : Span) : Expr :=
  match op? with
  | some '?' => .optional body span
  | some '*' => .zeroOrMore body span
  | some '+' => .oneOrMore body span
  | _ => body

/-- A primary expression, optional or repeated if an operator follows. -/
def suffixed (nested : Reader Expr) : Reader Expr :=
  named .suffixed do
    let ((body, op?), span) ← spanned do
      let body ← primary nested
      blanks
      let op? ← optional suffixOp
      return (body, op?)
    return applySuffix op? body span

/-- A label behind `^`. -/
def label : Reader String := do
  token ['^']
  blanks
  identifier

/-- Applies a label to its expression. -/
def applyLabel (label? : Option String) (body : Expr) (span : Span) : Expr :=
  match label? with
  | some label => .labeled label body span
  | none => body

/-- An expression with a label, if one follows. -/
def labeled (nested : Reader Expr) : Reader Expr :=
  named .labeled do
    let ((body, label?), span) ← spanned do
      let body ← suffixed nested
      blanks
      let label? ← optional label
      return (body, label?)
    return applyLabel label? body span

/-- Applies an operator that stands before its operand. -/
def applyPredicate (op? : Option Char) (body : Expr) (span : Span) : Expr :=
  match op? with
  | some '&' => .andPredicate body span
  | some '!' => .notPredicate body span
  | some '#' => .lexical body span
  | _ => body

/-- A labelled expression, under a predicate or `#` if one stands before it. -/
def predicate (nested : Reader Expr) : Reader Expr :=
  named .predicate do
    let ((op?, body), span) ← spanned do
      let op? ← optional predicateOp
      blanks
      let body ← labeled nested
      return (op?, body)
    return applyPredicate op? body span

/-- A group of the items read, or the item itself if it is the only one. -/
def collapse (group : List Expr → Span → Expr) (items : List Expr) (span : Span) : Expr :=
  match items with
  | [only] => only
  | items => group items span

/-- One or more items one after the other. -/
def sequence (nested : Reader Expr) : Reader Expr :=
  named .sequence do
    let (items, span) ← spanned do
      let first ← predicate nested
      blanks
      return first :: (← many blanks (predicate nested))
    return collapse .sequence items span

/-- A further alternative behind `/`. -/
def alternative (nested : Reader Expr) : Reader Expr := do
  token ['/']
  blanks
  sequence nested

/-- One or more alternatives, with `nested` for the expressions in parentheses. -/
def expressionWith (nested : Reader Expr) : Reader Expr :=
  named .expression do
    let (items, span) ← spanned do
      let first ← sequence nested
      blanks
      return first :: (← many blanks (alternative nested))
    return collapse .choice items span

/-- An expression with parentheses nested less than `depth` deep. -/
def expressionTo : Nat → Reader Expr
  | 0 => refuse
  | depth + 1 => expressionWith (expressionTo depth)

/-- An expression. Every pair of parentheses takes a character of the text, so they are nested less
deep than the text is long. -/
def expression : Reader Expr := fun cursor => expressionTo (cursor.rest.length + 1) cursor

end LabeledPeg.Source.Reader
