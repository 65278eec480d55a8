import LabeledPeg.Source.Cursor
import LabeledPeg.Source.Expectation

/-!
# Readers

A reader takes a value off a text and stops behind it, or refuses the text. In both cases it also
says what it expected, for the report of a refusal; what a reader returns never depends on that.
-/

namespace LabeledPeg.Source

/-- What a reader answers at a place: its value and the place behind it unless it refuses, and what
it expected. -/
structure Reading (α : Type) where
  result : Option (α × Cursor)
  expected : Expectation := {}

/-- Reads a value of type `α`. -/
def Reader (α : Type) : Type := Cursor → Reading α

namespace Reader

variable {α β : Type}

/-- Reads nothing. -/
def succeed (value : α) : Reader α := fun cursor => ⟨some (value, cursor), {}⟩

/-- Refuses every text. -/
def refuse : Reader α := fun _ => ⟨none, {}⟩

/-- Reads with `first`, then with what `next` makes of its value. -/
def andThen (first : Reader α) (next : α → Reader β) : Reader β := fun cursor =>
  let reading := first cursor
  match reading.result with
  | none => ⟨none, reading.expected⟩
  | some (value, behind) =>
    let following := next value behind
    ⟨following.result, reading.expected.merge following.expected⟩

instance : Monad Reader where
  pure := succeed
  bind := andThen

/-- Reads with `first`, or with `second` from the same place if `first` refuses. -/
def orElse (first second : Reader α) : Reader α := fun cursor =>
  let reading := first cursor
  match reading.result with
  | some found => ⟨some found, reading.expected⟩
  | none =>
    let other := second cursor
    ⟨other.result, reading.expected.merge other.expected⟩

/-- Reads as `inner` does, and names what is missing if it refuses. -/
def named (term : Term) (inner : Reader α) : Reader α := fun cursor =>
  let reading := inner cursor
  match reading.result with
  | some found => ⟨some found, reading.expected⟩
  | none => ⟨none, Expectation.missed term cursor.offset reading.expected⟩

/-- Reads as `inner` does, and returns the span that it covers as well. -/
def spanned (inner : Reader α) : Reader (α × Span) := fun cursor =>
  let reading := inner cursor
  ⟨reading.result.map fun (value, behind) => ((value, ⟨cursor.offset, behind.offset⟩), behind),
    reading.expected⟩

/-- Reads as a function of the place does. -/
def ofCursor (step : Cursor → Option (α × Cursor)) : Reader α := fun cursor => ⟨step cursor, {}⟩

/-- Reads one character of a class. -/
def oneOf (accepts : Char → Bool) : Reader Char :=
  ofCursor fun cursor => cursor.next?.filter fun (c, _) => accepts c

/-- Reads a fixed text. -/
def token (text : List Char) : Reader Unit :=
  ofCursor fun cursor => (cursor.after? text).map fun behind => ((), behind)

/-- Reads nothing, and refuses a place where `condition` fails. -/
def require (condition : Cursor → Bool) : Reader Unit :=
  ofCursor fun cursor => if condition cursor then some ((), cursor) else none

/-- Reads blanks and comments. -/
def blanks : Reader Unit := ofCursor fun cursor => some ((), cursor.skipBlanks)

/-- Reads with `inner` if it can. -/
def optional (inner : Reader α) : Reader (Option α) :=
  orElse (do return some (← inner)) (succeed none)

/-- Reads up to `limit` further items, with `between` before each; a `between` without an item
behind it is not read. -/
def further (between : Reader Unit) (item : Reader α) : Nat → Reader (List α)
  | 0 => succeed []
  | limit + 1 =>
    orElse
      (do
        between
        let first ← item
        return first :: (← further between item limit))
      (succeed [])

/-- Reads as many items as there are, with `between` before all but the first. No item is empty, so
there are no more of them than characters. -/
def many (between : Reader Unit) (item : Reader α) : Reader (List α) := fun cursor =>
  orElse
    (do
      let first ← item
      return first :: (← further between item cursor.rest.length))
    (succeed []) cursor

@[simp] theorem result_pure (value : α) (cursor : Cursor) :
    ((pure value : Reader α) cursor).result = some (value, cursor) := rfl

@[simp] theorem result_ofCursor (step : Cursor → Option (α × Cursor)) (cursor : Cursor) :
    (ofCursor step cursor).result = step cursor := rfl

theorem result_bind (first : Reader α) (next : α → Reader β) (cursor : Cursor) :
    ((first >>= next) cursor).result =
      (first cursor).result.bind fun (value, behind) => (next value behind).result := by
  change (andThen first next cursor).result = _
  cases h : (first cursor).result <;> simp [andThen, h]

theorem result_orElse (first second : Reader α) (cursor : Cursor) :
    (orElse first second cursor).result =
      ((first cursor).result <|> (second cursor).result) := by
  cases h : (first cursor).result <;> simp [orElse, h]

/-- A name changes the report only. -/
@[simp] theorem result_named (term : Term) (inner : Reader α) (cursor : Cursor) :
    (named term inner cursor).result = (inner cursor).result := by
  cases h : (inner cursor).result <;> simp [named, h]

@[simp] theorem result_spanned (inner : Reader α) (cursor : Cursor) :
    (spanned inner cursor).result =
      (inner cursor).result.map fun (value, behind) =>
        ((value, ⟨cursor.offset, behind.offset⟩), behind) := rfl

end Reader

end LabeledPeg.Source
