/-!
# Escapes of grammar texts

Literals, classes and import paths of a grammar text write some characters with a backslash. Each
of the three has its own set of them, and one function takes every escape back.
-/

namespace LabeledPeg.Text

/-- The letter that stands behind a backslash for a line break, a return or a tab. -/
def controlLetter? : Char → Option Char
  | '\n' => some 'n'
  | '\r' => some 'r'
  | '\t' => some 't'
  | _ => none

/-- Which characters a kind of text writes with a backslash: the ones in `marked`, as themselves,
and line breaks, returns and tabs by their letter when `controls` is set. -/
structure EscapeStyle where
  marked : List Char
  controls : Bool

/-- Literals end at the next `'`. -/
def literalStyle : EscapeStyle := ⟨['\'', '\\'], true⟩

/-- Classes end at `]` and join the ends of a range by `-`. -/
def classStyle : EscapeStyle := ⟨[']', '\\', '-'], true⟩

/-- Import paths end at the next `"` and keep control characters. -/
def pathStyle : EscapeStyle := ⟨['"', '\\'], false⟩

namespace EscapeStyle

/-- One character as it is written. -/
def encodeChar (style : EscapeStyle) (c : Char) : List Char :=
  if style.marked.contains c then ['\\', c]
  else match (if style.controls then controlLetter? c else none) with
    | some letter => ['\\', letter]
    | none => [c]

/-- A text as it is written. -/
def encode (style : EscapeStyle) (s : String) : String :=
  String.ofList (s.toList.flatMap style.encodeChar)

@[simp] theorem toList_encode (style : EscapeStyle) (s : String) :
    (style.encode s).toList = s.toList.flatMap style.encodeChar := by
  simp [encode]

end EscapeStyle

/-- The character that a backslash and `c` stand for: a control character for its letter, `NUL`
for `0`, and every other character for itself. -/
def unescape : Char → Char
  | 'n' => '\n'
  | 'r' => '\r'
  | 't' => '\t'
  | '0' => '\x00'
  | c => c

theorem unescape_of_controlLetter? {c letter : Char} (h : controlLetter? c = some letter) :
    unescape letter = c := by
  unfold controlLetter? at h
  split at h <;> simp_all [unescape] <;> subst h <;> rfl

end LabeledPeg.Text
