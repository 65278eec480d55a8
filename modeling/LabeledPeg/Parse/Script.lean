import LabeledPeg.Parse.Combinator

/-!
# Combinator expressions

Expressions built from the primitives and the combinators, with steps that move the parser or change
what labels do. They serve to try the combinators in any order and nesting.
-/

namespace LabeledPeg.Parse

/-- A combinator expression. `throw` takes the current location as the start of its attempt when no
other is given. -/
inductive Script where
  | any
  | literal (value : String)
  | range (lo hi : Char)
  | spacing
  | eof
  | choice (alternatives : List Script)
  | lookahead (body : Script)
  | notAhead (body : Script)
  | optional (body : Script)
  | zeroOrMore (body : Script)
  | oneOrMore (body : Script)
  | sequence (steps : List Script)
  | traced (name : String) (body : Script)
  | throw (label : String) (start? : Option Nat)
  | goto (place : Nat)
  | setPolicy (policy : LabelPolicy)

namespace Script

mutual

/-- What an expression does. A repetition matches its body at most `limit` times. -/
def action (limit : Nat) : Script → Action (Option Tree)
  | any => Action.any
  | literal value => Action.literal value
  | range lo hi => Action.range lo hi
  | spacing => Action.spacing
  | eof => Action.eof
  | choice alternatives => Action.choice (actions limit alternatives)
  | lookahead body => fun s => (Action.lookahead (body.action limit) s).map fun _ => none
  | notAhead body => fun s => (Action.notAhead (body.action limit) s).map fun _ => none
  | optional body => fun s => (Action.optional (body.action limit) s).map Option.join
  | zeroOrMore body => Action.collected (Action.zeroOrMore (body.action limit) limit)
  | oneOrMore body => Action.collected (Action.oneOrMore (body.action limit) limit)
  | sequence steps => Action.collected (stepsAction limit steps)
  | traced name body => Action.traced name (body.action limit)
  | throw label start? => fun s => Action.throwLabel label (start?.getD s.location) s
  | goto place => fun s => .success none (s.goto place)
  | setPolicy policy => fun s => .success none { s with policy }

/-- What each expression of a list does. -/
def actions (limit : Nat) : List Script → List (Action (Option Tree))
  | [] => []
  | script :: scripts => script.action limit :: actions limit scripts

/-- Does a list of expressions in order, up to the first that fails. -/
def stepsAction (limit : Nat) : List Script → Action (List (Option Tree))
  | [] => Run.succeed []
  | script :: scripts => fun s =>
    (script.action limit s).bind fun value s' =>
      (stepsAction limit scripts s').map (value :: ·)

end

/-- Runs an expression. Whether a repetition goes on depends on the location and the policy only, so
one that runs its body more often than there are pairs of them never ends. -/
def run (script : Script) : Action (Option Tree) := fun s =>
  script.action (2 * (s.length + 1) + 1) s

end Script

end LabeledPeg.Parse
