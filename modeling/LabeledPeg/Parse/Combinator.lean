import LabeledPeg.Parse.State

/-!
# Combinators of parsers

Choices, options, repetitions and predicates over any steps. Each tries a step from where it stands
and, if the step fails in the ordinary way, goes back there. A failure that commits ends all of them
and is passed on as it is.
-/

namespace LabeledPeg.Parse.Action

variable {α β : Type}

/-- The failure that is reported of two: the one that got farther, the later one if neither did. -/
def farther (earlier? : Option Failure) (later : Failure) : Failure :=
  match earlier? with
  | some earlier => if later.position < earlier.position then earlier else later
  | none => later

/-- Tries the remaining alternatives of a choice that began at `start`; `farthest?` is what is to be
reported of those before. -/
def choiceFrom (start : Nat) (farthest? : Option Failure) : List (Action α) → Action α
  | [] => failWith (farthest?.getD (.predicate "no alternatives" (.point start)))
  | alternative :: alternatives => fun s =>
    match alternative s with
    | .success value s' => .success value s'
    | .unfinished => .unfinished
    | .failure f s' =>
      if s'.commits f then .failure f s'
      else choiceFrom start (some (farther farthest? f)) alternatives (s'.goto start)

/-- Tries alternatives in order, each from the same place, until one matches. -/
def choice (alternatives : List (Action α)) : Action α := fun s =>
  choiceFrom s.location none alternatives s

/-- Matches where `body` does, without moving. -/
def lookahead (body : Action α) : Action Unit := fun s =>
  match body s with
  | .success _ s' => .success () (s'.goto s.location)
  | .failure f s' => failWith f (s'.goto s.location)
  | .unfinished => .unfinished

/-- Matches where `body` does not, without moving. -/
def notAhead (body : Action α) : Action Unit := fun s =>
  match body s with
  | .success _ s' =>
    failWith (.predicate "unexpected match" (.point s.location)) (s'.goto s.location)
  | .failure f s' =>
    if s'.commits f then .failure f (s'.goto s.location) else .success () (s'.goto s.location)
  | .unfinished => .unfinished

/-- Matches the end of the input. -/
def eof : Action (Option Tree) := fun s => (notAhead any s).map fun _ => none

/-- Matches `body` or nothing. -/
def optional (body : Action α) : Action (Option α) := fun s =>
  match body s with
  | .success value s' => .success (some value) s'
  | .failure f s' =>
    if s'.commits f then .failure f s' else .success none (s'.goto s.location)
  | .unfinished => .unfinished

/-- Matches `body` until it fails or moves no further, at most `limit` times. -/
def zeroOrMore (body : Action α) : Nat → Action (List α)
  | 0 => Run.cutOff
  | limit + 1 => fun s =>
    match body s with
    | .success value s' =>
      if s'.location = s.location then .success [value] s'
      else (zeroOrMore body limit s').map (value :: ·)
    | .failure f s' =>
      if s'.commits f then .failure f s' else .success [] (s'.goto s.location)
    | .unfinished => .unfinished

/-- Matches `body` once, then as `zeroOrMore` does unless it did not move. -/
def oneOrMore (body : Action α) (limit : Nat) : Action (List α) := fun s =>
  match body s with
  | .success value s' =>
    if s'.location = s.location then .success [value] s'
    else (zeroOrMore body limit s').map (value :: ·)
  | .failure f s' => .failure f s'
  | .unfinished => .unfinished

/-- Collects the trees that `body` returns into one that covers all of them. -/
def collected (body : Action (List (Option Tree))) : Action (Option Tree) := fun s =>
  (body s).bind fun values s' =>
    .success (some (.sequence (values.filterMap id) ⟨s.location, s'.location⟩)) s'

end LabeledPeg.Parse.Action
