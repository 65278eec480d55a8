import LabeledPeg.Text.Identifier

/-!
# Names in Rust source

Reads an identifier or a path that is given as text. Blanks and comments around the tokens are
skipped. A keyword is a name only when it is written raw, with `r#` before it.
-/

namespace LabeledPeg.Rust

/-- The words that are no names. -/
def keywords : List String :=
  ["abstract", "as", "async", "await", "become", "box", "break", "const", "continue", "crate", "do",
    "dyn", "else", "enum", "extern", "false", "final", "fn", "for", "if", "impl", "in", "let",
    "loop", "macro", "match", "mod", "move", "mut", "override", "priv", "pub", "ref", "return",
    "Self", "self", "static", "struct", "super", "trait", "true", "try", "type", "typeof", "unsafe",
    "unsized", "use", "virtual", "where", "while", "yield"]

/-- The words that cannot be written raw. -/
def neverRaw : List String := ["_", "crate", "self", "super", "Self"]

/-- The keywords that can stand in a path. -/
def pathKeywords : List String := ["super", "self", "crate", "Self", "try"]

/-- White space, the two direction marks included. -/
def isBlank (c : Char) : Bool :=
  let n := c.toNat
  decide (9 ≤ n) && decide (n ≤ 13) || n == 0x20 || n == 0x85 || n == 0xa0 || n == 0x1680 ||
    decide (0x2000 ≤ n) && decide (n ≤ 0x200a) || n == 0x200e || n == 0x200f || n == 0x2028 ||
    n == 0x2029 || n == 0x202f || n == 0x205f || n == 0x3000

/-- What follows a block comment that is open `depth + 1` times, if it is closed. -/
def afterBlockComment? : Nat → List Char → Option (List Char)
  | _, [] => none
  | depth, '/' :: '*' :: rest => afterBlockComment? (depth + 1) rest
  | 0, '*' :: '/' :: rest => some rest
  | depth + 1, '*' :: '/' :: rest => afterBlockComment? depth rest
  | depth, _ :: rest => afterBlockComment? depth rest

/-- Whether a comment that begins with two slashes documents something, and so is no blank. -/
def isLineDoc (behind : List Char) : Bool :=
  match behind with
  | '/' :: '/' :: _ => false
  | '/' :: _ | '!' :: _ => true
  | _ => false

/-- Whether a comment that begins with a slash and a star documents something. -/
def isBlockDoc (behind : List Char) : Bool :=
  match behind with
  | '*' :: '/' :: _ | '*' :: '*' :: _ => false
  | '*' :: _ | '!' :: _ => true
  | _ => false

/-- What follows the blanks and comments at the beginning of a text, at most `limit` of them. -/
def skipBlanks : Nat → List Char → List Char
  | limit + 1, '/' :: '/' :: rest =>
    if isLineDoc rest then '/' :: '/' :: rest
    else skipBlanks limit (rest.dropWhile (· != '\n'))
  | limit + 1, '/' :: '*' :: rest =>
    if isBlockDoc rest then '/' :: '*' :: rest
    else
      match afterBlockComment? 0 rest with
      | some behind => skipBlanks limit behind
      | none => '/' :: '*' :: rest
  | limit + 1, c :: rest => if isBlank c then skipBlanks limit rest else c :: rest
  | _, cs => cs

/-- A token of a path. -/
inductive Token where
  | colons
  | word (text : String)
deriving DecidableEq

/-- How a token is written. -/
def Token.text : Token → String
  | colons => "::"
  | word text => text

/-- Takes a word off a text, with the `r#` of a raw one. -/
def takeWord? : List Char → Option (String × List Char)
  | 'r' :: '#' :: c :: rest =>
    if Text.isIdentifierStart c then
      let name := String.ofList (c :: rest.takeWhile Text.isIdentifierContinue)
      if neverRaw.contains name then none
      else some ("r#" ++ name, rest.dropWhile Text.isIdentifierContinue)
    else none
  | c :: rest =>
    if Text.isIdentifierStart c then
      some (String.ofList (c :: rest.takeWhile Text.isIdentifierContinue),
        rest.dropWhile Text.isIdentifierContinue)
    else none
  | [] => none

/-- The tokens of a text, if it has no others, at most `limit` of them. -/
def tokens? : Nat → List Char → Option (List Token)
  | 0, _ => none
  | limit + 1, cs =>
    match skipBlanks cs.length cs with
    | [] => some []
    | ':' :: ':' :: rest => (tokens? limit rest).map (.colons :: ·)
    | cs =>
      match takeWord? cs with
      | some (text, rest) => (tokens? limit rest).map (.word text :: ·)
      | none => none

/-- The tokens of a text, a mark of byte order at its beginning left out. -/
def tokensOf? (s : String) : Option (List Token) :=
  match s.toList with
  | '\ufeff' :: cs => tokens? (cs.length + 1) cs
  | cs => tokens? (cs.length + 1) cs

/-- Whether a word names something. -/
def isName (text : String) : Bool := text != "_" && !keywords.contains text

/-- The identifier that a text consists of. -/
def identifierOf? (s : String) : Option String :=
  match tokensOf? s with
  | some [.word text] => if isName text then some text else none
  | _ => none

/-- Whether tokens are the segments of a path, with two colons between them. -/
def isSegments : List Token → Bool
  | [.word text] => isName text || pathKeywords.contains text
  | .word text :: .colons :: rest => (isName text || pathKeywords.contains text) && isSegments rest
  | _ => false

/-- Whether tokens are a path: segments, with two colons before the first or not. -/
def isPath : List Token → Bool
  | .colons :: rest => isSegments rest
  | tokens => isSegments tokens

/-- The tokens of the path that a text consists of. -/
def pathOf? (s : String) : Option (List String) :=
  match tokensOf? s with
  | some tokens => if isPath tokens then some (tokens.map Token.text) else none
  | none => none

end LabeledPeg.Rust
