import LabeledPeg.Grammar.Basic
import LabeledPeg.Source.Reader
import LabeledPeg.Text.Escape
import LabeledPeg.Text.Identifier

/-!
# Tokens of grammar texts

Identifiers, keywords, quoted texts and character classes. No blanks are skipped inside a token.
-/

namespace LabeledPeg.Source

open Text

/-- The characters of an identifier from its second one on, and the place behind them. -/
def identifierTail : Nat → List Char → List Char × Cursor
  | offset, [] => ([], ⟨offset, []⟩)
  | offset, c :: rest =>
    if isAsciiContinue c then
      let (tail, behind) := identifierTail (offset + c.utf8Size) rest
      (c :: tail, behind)
    else ([], ⟨offset, c :: rest⟩)

/-- The characters up to the next `quote` that has no backslash before it, escapes taken back, and
the place of that quote. A backslash at the end of the text stops it too. -/
def quotedBody (quote : Char) : Nat → List Char → List Char × Cursor
  | offset, [] => ([], ⟨offset, []⟩)
  | offset, '\\' :: c :: rest =>
    let (body, behind) := quotedBody quote (offset + 1 + c.utf8Size) rest
    (unescape c :: body, behind)
  | offset, c :: rest =>
    if c = quote ∨ c = '\\' then ([], ⟨offset, c :: rest⟩)
    else
      let (body, behind) := quotedBody quote (offset + c.utf8Size) rest
      (c :: body, behind)

/-- One character of a class, an escape taken back. -/
def classChar? : Cursor → Option (Char × Cursor)
  | ⟨offset, '\\' :: c :: rest⟩ => some (unescape c, ⟨offset + 1 + c.utf8Size, rest⟩)
  | ⟨offset, c :: rest⟩ =>
    if c = ']' ∨ c = '\\' then none else some (c, ⟨offset + c.utf8Size, rest⟩)
  | ⟨_, []⟩ => none

namespace Reader

/-- A letter or underscore, followed by letters, digits and underscores. -/
def identifier : Reader String :=
  named .identifier do
    let first ← oneOf isAsciiStart
    let tail ← ofCursor fun cursor => some (identifierTail cursor.offset cursor.rest)
    return String.ofList (first :: tail)

/-- A word that no letter, digit or underscore follows. -/
def keyword (term : Term) (word : List Char) : Reader Unit :=
  named term do
    token word
    require fun behind => !(behind.next?.any fun (c, _) => isAsciiContinue c)

/-- A text between two `quote` characters. -/
def quotedWith (quote : Char) : Reader String := do
  token [quote]
  let body ← ofCursor fun cursor => some (quotedBody quote cursor.offset cursor.rest)
  token [quote]
  return String.ofList body

/-- A literal in single or double quotes. -/
def literal : Reader Expr :=
  named .literal do
    let (value, span) ← spanned (orElse (quotedWith '\'') (quotedWith '"'))
    return .literal value span

/-- An import path, in double quotes. -/
def path : Reader String := named .path (quotedWith '"')

/-- A character inside a class. -/
def classChar : Reader Char := named .classChar (ofCursor classChar?)

/-- The two ends of a range inside a class. -/
def classRange : Reader (Char × Char) :=
  named .classRange do
    let lo ← classChar
    token ['-']
    let hi ← classChar
    return (lo, hi)

/-- A member of a class: a range, or else a single character. -/
def classMember : Reader Expr :=
  named .classMember fun cursor =>
    orElse
      (do
        let ((lo, hi), span) ← spanned classRange
        return .range lo hi span)
      (do
        let (c, span) ← spanned classChar
        return .literal c.toString span)
      cursor

/-- A class in brackets. -/
def charClass : Reader Expr :=
  named .charClass do
    let (members, span) ← spanned do
      token ['[']
      let members ← many (succeed ()) classMember
      token [']']
      return members
    return .charClass members span

end Reader

end LabeledPeg.Source
