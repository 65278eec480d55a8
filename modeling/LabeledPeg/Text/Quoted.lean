import LabeledPeg.Text.Printable

/-!
# Quoted texts

Messages show texts and characters in quotes. Control characters are written by their letter, the
quote and the backslash with a backslash, and what does not print by its number in braces.
-/

namespace LabeledPeg.Text

/-- A character by its number, in hexadecimal digits. -/
def numberEscape (c : Char) : List Char :=
  ['\\', 'u', '{'] ++ Nat.toDigits 16 c.toNat ++ ['}']

/-- The short escape of a character that has one: the control characters by their letter, the
backslash, and the quotes in `quotes`. -/
def shortEscape? (quotes : List Char) (c : Char) : Option (List Char) :=
  match c with
  | '\t' => some ['\\', 't']
  | '\r' => some ['\\', 'r']
  | '\n' => some ['\\', 'n']
  | '\\' => some ['\\', '\\']
  | c => if quotes.contains c then some ['\\', c] else none

/-- A character inside a text delimited by the quotes in `quotes`. -/
def quotedChar (quotes : List Char) (c : Char) : List Char :=
  if c = '\x00' then ['\\', '0']
  else match shortEscape? quotes c with
    | some short => short
    | none => if isPrintable c then [c] else numberEscape c

/-- A text in double quotes. -/
def quoted (s : String) : String :=
  String.ofList ('"' :: s.toList.flatMap (quotedChar ['"']) ++ ['"'])

/-- A character in single quotes. -/
def quotedCharacter (c : Char) : String :=
  String.ofList ('\'' :: quotedChar ['\''] c ++ ['\''])

/-- A character written with printable ASCII only, both quotes escaped. -/
def asciiChar (c : Char) : List Char :=
  match shortEscape? ['\'', '"'] c with
  | some short => short
  | none => if 0x20 ≤ c.toNat ∧ c.toNat < 0x7f then [c] else numberEscape c

/-- A text written with printable ASCII only. -/
def ascii (s : String) : String := String.ofList (s.toList.flatMap asciiChar)

end LabeledPeg.Text
