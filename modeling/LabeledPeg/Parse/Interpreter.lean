import LabeledPeg.Parse.Combinator
import LabeledPeg.Program.Code

/-!
# Running a parser

What the code of a parser does on an input. A rule is matched inside a trace entry with its name;
the trees that its steps return are collected, and steps that return none leave no mark.
-/

namespace LabeledPeg

open Parse

namespace Code

mutual

/-- What a fragment does. `invoke` matches a rule, and `start` is where the innermost sequence,
repetition or labelled fragment around this one began. A repetition that moves on at every turn
cannot have more turns than characters are left, and one more. A definition inside an expression
matches nothing. -/
def action (invoke : String → Action (Option Tree)) (start : Nat) : Code → Action (Option Tree)
  | sequence steps => fun s => Action.collected (stepsAction invoke s.location steps) s
  | choice alternatives => Action.choice (alternativeActions invoke start alternatives)
  | empty => Run.succeed none
  | repetition .zeroOrMore body => fun s =>
    Action.collected
      (Action.zeroOrMore (body.action invoke s.location) (s.length - s.location + 1)) s
  | repetition .oneOrMore body => fun s =>
    Action.collected
      (Action.oneOrMore (body.action invoke s.location) (s.length - s.location + 1)) s
  | lookahead .positive body => fun s =>
    (Action.lookahead (body.action invoke start) s).map fun _ => none
  | lookahead .negative body => fun s =>
    (Action.notAhead (body.action invoke start) s).map fun _ => none
  | labeled body => fun s => body.action invoke s.location s
  | throw label _ => Action.throwLabel label start
  | call rule _ => invoke rule
  | builtin .spacing _ => Action.spacing
  | builtin .eof _ => Action.eof
  | literal value _ => Action.literal value
  | range lo hi _ => Action.range lo hi
  | any _ => Action.any
  | procedure _ _ => Run.succeed none
  | program _ => Run.succeed none

/-- What each alternative of a choice does. -/
def alternativeActions (invoke : String → Action (Option Tree)) (start : Nat) :
    List Code → List (Action (Option Tree))
  | [] => []
  | code :: codes => code.action invoke start :: alternativeActions invoke start codes

/-- Does the steps of a sequence in order, up to the first that fails. -/
def stepsAction (invoke : String → Action (Option Tree)) (start : Nat) :
    List Code → Action (List (Option Tree))
  | [] => Run.succeed []
  | code :: codes => fun s =>
    (code.action invoke start s).bind fun value s' =>
      (stepsAction invoke start codes s').map (value :: ·)

end

end Code

namespace Program

/-- Matches a rule, with at most `depth` rules inside one another. -/
def ruleAction (p : Program) : Nat → String → Action (Option Tree)
  | 0, _ => Run.cutOff
  | depth + 1, name =>
    match p.body? name with
    | some body => Action.traced name (body.action (p.ruleAction depth) 0)
    | none => Run.cutOff

/-- Matches a rule. A rule that is met again at the place where it is being matched never ends, so
there are never more rules inside one another than there are rules and places. -/
def parse (p : Program) (name : String) : Action (Option Tree) := fun s =>
  p.ruleAction (p.procedures.length * (s.length + 1)) name s

end Program

end LabeledPeg
