import LabeledPeg.Grammar.Reachability
import LabeledPeg.Grammar.Error
import LabeledPeg.Outcome
import LabeledPeg.Program.Code

/-!
# From grammars to code

The compiler walks through a grammar once and keeps count of where it is. In a rule, every sequence
that refers to a rule matches spacing before each of its items, unless it stands below `lexical` or
the spacing rule of the grammar leads to the rule it stands in.
-/

namespace LabeledPeg

/-- Where the compiler is: inside how many definitions, how many closures of the current rule and
how many `lexical` nodes, and whether inside a rule that takes no spacing. -/
structure Counters where
  depth : Nat := 0
  closures : Nat := 0
  lexical : Nat := 0
  inSpacingRule : Bool := false
deriving DecidableEq

/-- A step of the compiler. It leaves the counters behind also when it refuses the grammar, and it is
cut off where a count would fall below zero. -/
abbrev Compiler : Type → Type := Run GrammarError Counters

/-- Why a grammar has no parser: it is refused, or the compiler is cut off in the middle of it. -/
inductive CompileError where
  | refused (error : GrammarError)
  | cutOff
deriving DecidableEq

namespace Compiler

variable {α : Type}

/-- One less; nothing is less than zero. -/
def countDown : Nat → Option Nat
  | 0 => none
  | n + 1 => some n

/-- Changes the counters before `inner`, and after it whether it fails or not. -/
def bracket (enter : Counters → Counters) (leave : Counters → Option Counters)
    (inner : Compiler α) : Compiler α := fun c => (inner (enter c)).filterMapState leave

/-- Does `inner` inside one more closure. -/
def nested (inner : Compiler α) : Compiler α :=
  bracket (fun c => { c with closures := c.closures + 1 })
    (fun c => do return { c with closures := ← countDown c.closures }) inner

/-- Does `inner` below one more `lexical` node. -/
def withoutSpacing (inner : Compiler α) : Compiler α :=
  bracket (fun c => { c with lexical := c.lexical + 1 })
    (fun c => do return { c with lexical := ← countDown c.lexical }) inner

/-- Does `inner` as the body of a definition; `quiet` tells that the rule takes no spacing. The count
of closures begins anew, and what it was outside is lost. -/
def inDefinition (quiet : Bool) (inner : Compiler α) : Compiler α :=
  bracket (fun c => { c with depth := c.depth + 1, closures := 0, inSpacingRule := quiet })
    (fun c => do return { c with depth := ← countDown c.depth, inSpacingRule := false }) inner

/-- What a step of the compiler gives, the counters apart. -/
def result : Outcome GrammarError Counters α → Except CompileError α
  | .success value _ => .ok value
  | .failure error _ => .error (.refused error)
  | .unfinished => .error .cutOff

theorem result_eq_ok_iff {o : Outcome GrammarError Counters α} {value : α} :
    result o = .ok value ↔ ∃ c, o = .success value c := by
  cases o <;> simp [result]

/-- Where a leaf stands that is made now. -/
def site : Compiler CallSite := fun c => .success (if c.closures = 0 then .rule else .nested) c

/-- Whether a sequence of `items` matches spacing before each of them. -/
def spaces (items : List Expr) : Compiler Bool := fun c =>
  .success (decide (1 ≤ c.depth) && decide (c.lexical = 0) && !c.inSpacingRule &&
    !Expr.allSyntactic items) c

/-- A reference to a rule: the one that the grammar defines, else the built-in one. -/
def reference (g : Grammar) (name : String) (span : Span) : Compiler Code := do
  let here ← site
  if g.defines name then return .call name here
  else
    match Builtin.ofName? name with
    | some b => return .builtin b here
    | none => Run.fail (.unresolvedIdentifier name span)

/-- One step of implicit spacing: the spacing rule of the grammar, else the built-in one. -/
def spacing (g : Grammar) : Compiler Code := do
  let here ← site
  if g.defines spacingName then return .call spacingName here
  else return .builtin .spacing here

/-- The steps of implicit spacing before one item. -/
def spacingBefore (g : Grammar) (spaced : Bool) : Compiler (List Code) := do
  if spaced then return [← spacing g] else return []

end Compiler

namespace Expr

open Compiler

mutual

/-- The code of a node. Names mean what they mean in `g`; the rules in `quiet` take no spacing. -/
def compile (g : Grammar) (quiet : List String) : Expr → Compiler Code
  | any _ => do return .any (← site)
  | literal value _ => do return .literal value (← site)
  | range lo hi _ => do return .range lo hi (← site)
  | identifier name span => Compiler.reference g name span
  | charClass [] span | choice [] span => Run.fail (.emptyChoice span)
  | charClass [only] _ | choice [only] _ => only.compile g quiet
  | charClass items _ | choice items _ => do
    return .choice (← nested (compileItems g quiet false items))
  | optional body _ => do
    return .choice (← nested do return [← body.compile g quiet, .empty])
  | zeroOrMore body _ => do return .repetition .zeroOrMore (← nested (body.compile g quiet))
  | oneOrMore body _ => do return .repetition .oneOrMore (← nested (body.compile g quiet))
  | andPredicate body _ => do return .lookahead .positive (← nested (body.compile g quiet))
  | notPredicate body _ => do return .lookahead .negative (← nested (body.compile g quiet))
  | lexical body _ => withoutSpacing (body.compile g quiet)
  | labeled label body _ => do
    return .labeled (.choice (← nested do
      return [← body.compile g quiet, .throw label (← site)]))
  | sequence items _ => do
    let spaced ← spaces items
    return .sequence (← nested (compileItems g quiet spaced items))
  | definition ⟨name, body, _⟩ => do
    return .procedure name (← inDefinition (quiet.contains name) (body.compile g quiet))
  | imported clause => Run.fail (.unassembledImport clause.path clause.span)
  | grammar (i :: _) _ _ => Run.fail (.unassembledImport i.path i.span)
  | grammar [] definitions _ => do return .program (← compileDefinitions g quiet definitions)

/-- The code of the items of a group, with spacing before each if `spaced`. -/
def compileItems (g : Grammar) (quiet : List String) (spaced : Bool) :
    List Expr → Compiler (List Code)
  | [] => return []
  | item :: items => do
    let before ← spacingBefore g spaced
    let code ← item.compile g quiet
    let after ← compileItems g quiet spaced items
    return before ++ code :: after

/-- The procedures of a list of definitions. -/
def compileDefinitions (g : Grammar) (quiet : List String) :
    List Definition → Compiler (List (Procedure Code))
  | [] => return []
  | ⟨name, body, _⟩ :: definitions => do
    let code ← inDefinition (quiet.contains name) (body.compile g quiet)
    let procedures ← compileDefinitions g quiet definitions
    return ⟨name, code⟩ :: procedures

end

end Expr

namespace Grammar

/-- The rules that take no implicit spacing: the spacing rule of the grammar and all it reaches. -/
def quietRules (g : Grammar) : List String := g.reachable [spacingName]

/-- The procedures of a grammar, compiled with the counters as they are. -/
def compiler (g : Grammar) : Compiler Program :=
  match g.imports with
  | i :: _ => Run.fail (.unassembledImport i.path i.span)
  | [] => do return ⟨← Expr.compileDefinitions g g.quietRules g.definitions⟩

/-- The parser of a grammar that has no imports left. -/
def compile (g : Grammar) : Except CompileError Program := Compiler.result (g.compiler {})

end Grammar

end LabeledPeg
