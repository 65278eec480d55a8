import LabeledPeg.Grammar.Basic

/-!
# Code of a parser

What a parser has to do for each rule, without a word of the language it is written in: which steps
run in order, what is tried, where spacing is matched, and where a label is thrown. A leaf knows
whether it stands directly in the procedure of its rule or inside a closure.
-/

namespace LabeledPeg

/-- Where a leaf stands in the procedure of its rule. -/
inductive CallSite where
  | rule
  | nested
deriving DecidableEq

/-- How often a repetition has to match at least. -/
inductive Repetition where
  | zeroOrMore
  | oneOrMore
deriving DecidableEq

/-- Whether a lookahead wants its body to match or to fail. -/
inductive Lookahead where
  | positive
  | negative
deriving DecidableEq

/-- The rules that are there without a definition. -/
inductive Builtin where
  | spacing
  | eof
deriving DecidableEq

namespace Builtin

/-- The name that calls a built-in rule. -/
def name : Builtin → String
  | spacing => spacingName
  | eof => endName

/-- The built-in rule of a name. -/
def ofName? (name : String) : Option Builtin :=
  if name = spacingName then some spacing
  else if name = endName then some eof
  else none

theorem ofName?_name (b : Builtin) : ofName? b.name = some b := by
  cases b <;> simp [ofName?, name, spacingName, endName]

end Builtin

/-- What a rule does, under its name. -/
structure Procedure (α : Type) where
  name : String
  body : α

/-- A fragment of a parser. `labeled` notes where its body starts, for the `throw` in it. A procedure
or a program inside a fragment stems from a definition or a grammar inside an expression. -/
inductive Code where
  | sequence (steps : List Code)
  | choice (alternatives : List Code)
  | empty
  | repetition (kind : Repetition) (body : Code)
  | lookahead (kind : Lookahead) (body : Code)
  | labeled (body : Code)
  | throw (label : String) (site : CallSite)
  | call (rule : String) (site : CallSite)
  | builtin (rule : Builtin) (site : CallSite)
  | literal (value : String) (site : CallSite)
  | range (lo hi : Char) (site : CallSite)
  | any (site : CallSite)
  | procedure (name : String) (body : Code)
  | program (procedures : List (Procedure Code))

/-- The parser of a grammar: one procedure for each rule, in order. -/
structure Program where
  procedures : List (Procedure Code)

namespace Program

/-- The names of the rules, in order. -/
def names (p : Program) : List String := p.procedures.map Procedure.name

/-- What the rule of a name does. -/
def body? (p : Program) (name : String) : Option Code :=
  (p.procedures.find? (·.name == name)).map Procedure.body

end Program

end LabeledPeg
