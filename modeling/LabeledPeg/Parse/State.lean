import LabeledPeg.Outcome
import LabeledPeg.Parse.Failure
import LabeledPeg.Parse.Tree

/-!
# The state of a parser

The input, the place reached in it, the place of the latest failure, the rules that are being
matched, and what a thrown label does. The primitives match characters; they fail without moving.
-/

namespace LabeledPeg.Parse

/-- What a labelled failure does at a choice, an option, a repetition or a predicate: it ends them
all, or it is taken like any other failure. -/
inductive LabelPolicy where
  | commit
  | backtrack
deriving DecidableEq

/-- A rule that is being matched, and where it began. -/
structure TraceEntry where
  name : String
  start : Nat
deriving DecidableEq

/-- The state of a parser. The innermost rule of the trace comes first. -/
structure State where
  input : Array Char
  location : Nat := 0
  failure : Nat := 0
  trace : List TraceEntry := []
  policy : LabelPolicy := .commit
deriving DecidableEq

/-- A step of a parser. -/
abbrev Action (α : Type) : Type := Run Failure State α

namespace State

/-- The state in which the parse of a text begins. -/
def ofString (s : String) : State := ⟨s.toList.toArray, 0, 0, [], .commit⟩

/-- The number of characters of the input. -/
def length (s : State) : Nat := s.input.size

/-- Whether the input has no characters. -/
def isEmpty (s : State) : Bool := s.input.isEmpty

/-- Whether no input is left. -/
def atEnd (s : State) : Bool := decide (s.input.size ≤ s.location)

/-- The character at the location. -/
def peek? (s : State) : Option Char := s.input[s.location]?

/-- The input from the location on. -/
def rest (s : State) : List Char := s.input.toList.drop s.location

/-- The next `count` characters, or fewer if the input ends before. -/
def ahead (s : State) (count : Nat) : List Char :=
  (s.input.extract s.location (s.location + count)).toList

theorem ahead_eq_take_rest (s : State) (count : Nat) : s.ahead count = s.rest.take count := by
  simp [ahead, rest, List.extract_eq_take_drop]

/-- The input between two places, cut off at its end. -/
def slice (s : State) (span : Span) : String :=
  let stop := min span.stop s.input.size
  let start := min span.start stop
  String.ofList (s.input.extract start stop).toList

/-- Moves to a place, or to the end of the input if the place lies behind it. -/
def goto (s : State) (place : Nat) : State := { s with location := min place s.input.size }

/-- Moves forward over `count` characters. -/
def advance (s : State) (count : Nat) : State := { s with location := s.location + count }

/-- Notes a failure as the latest one. -/
def note (s : State) (f : Failure) : State := { s with failure := f.position }

/-- Whether a failure ends everything around it. -/
def commits (s : State) (f : Failure) : Bool := f.isLabeled && s.policy == .commit

/-- Enters a rule. -/
def enter (s : State) (name : String) : State := { s with trace := ⟨name, s.location⟩ :: s.trace }

/-- Leaves the innermost rule. -/
def leave (s : State) : State := { s with trace := s.trace.tail }

/-- The innermost rule that is being matched. -/
def rule? (s : State) : Option String := s.trace.head?.map TraceEntry.name

end State

/-- How a range of characters is called where it is expected. -/
def expectedRange (lo hi : Char) : String := "[" ++ lo.toString ++ "-" ++ hi.toString ++ "]"

/-- How a literal is called where it is expected. -/
def expectedLiteral (value : String) : String := "'" ++ Text.ascii value ++ "'"

namespace Action

/-- Fails, and notes the failure. -/
def failWith {α : Type} (f : Failure) : Action α := fun s => .failure f (s.note f)

/-- Fails for want of `expected` at `place`, which may be the end of the input. -/
def missing {α : Type} (expected : String) (place : Nat) : Action α := fun s =>
  match s.input[place]? with
  | some found => failWith (.mismatch expected found (.point place)) s
  | none => failWith (.endOfInput expected (.point place)) s

/-- Matches any character. -/
def anyChar : Action Char := fun s =>
  match s.peek? with
  | some c => .success c (s.advance 1)
  | none => missing "any character" s.location s

/-- Matches a character of a range. -/
def charIn (lo hi : Char) : Action Char := fun s =>
  match s.peek? with
  | some c =>
    if lo ≤ c ∧ c ≤ hi then .success c (s.advance 1)
    else missing (expectedRange lo hi) s.location s
  | none => missing (expectedRange lo hi) s.location s

/-- How many characters two texts have in common at their beginning. -/
def commonLength : List Char → List Char → Nat
  | a :: as, b :: bs => if a = b then commonLength as bs + 1 else 0
  | _, _ => 0

/-- Matches a text, or fails at the first character that differs. -/
def exactly (value : String) : Action Unit := fun s =>
  let common := commonLength value.toList (s.ahead value.length)
  if common = value.length then .success () (s.advance common)
  else missing (expectedLiteral value) (s.location + common) s

/-- The tree of the input matched since `start`. -/
def textSince (start : Nat) (matched : String) (s : State) : Tree :=
  .piece matched ⟨start, s.location⟩

/-- Matches any character and returns it. -/
def any : Action (Option Tree) := fun s =>
  (anyChar s).bind fun c s' => .success (some (textSince s.location c.toString s')) s'

/-- Matches a text and returns it. -/
def literal (value : String) : Action (Option Tree) := fun s =>
  (exactly value s).bind fun _ s' => .success (some (textSince s.location value s')) s'

/-- Matches a character of a range and returns it. -/
def range (lo hi : Char) : Action (Option Tree) := fun s =>
  (charIn lo hi s).bind fun c s' => .success (some (textSince s.location c.toString s')) s'

/-- Spaces, tabs and the characters of line breaks. -/
def isSpacing (c : Char) : Bool := c == ' ' || c == '\t' || c == '\r' || c == '\n'

/-- How many characters of a class stand at `place`, of the first `limit` there. -/
def countWhile (accepts : Char → Bool) (input : Array Char) : Nat → Nat → Nat
  | 0, _ => 0
  | limit + 1, place =>
    if input[place]?.any accepts then countWhile accepts input limit (place + 1) + 1 else 0

/-- Matches all spacing that is there, and returns it if there is some. -/
def spacing : Action (Option Tree) := fun s =>
  let count := countWhile isSpacing s.input (s.length - s.location) s.location
  let s' := s.advance count
  if count = 0 then .success none s'
  else .success (some (textSince s.location (s.slice ⟨s.location, s'.location⟩) s')) s'

/-- Throws a label for an attempt that began at `start`: the failure covers the input up to the
latest failure, and names the innermost rule. -/
def throwLabel {α : Type} (label : String) (start : Nat) : Action α := fun s =>
  failWith (.labeled label s.rule? ⟨start, max s.failure start⟩) s

/-- Does `inner` as the rule `name`. -/
def traced {α : Type} (name : String) (inner : Action α) : Action α := fun s =>
  (inner (s.enter name)).mapState State.leave

end Action

end LabeledPeg.Parse
