import LabeledPeg.Grammar.Basic
import LabeledPeg.Grammar.Error

/-!
# Building grammars

A grammar is built from imports and definitions if no name is defined twice.
-/

namespace LabeledPeg

namespace Grammar

/-- Puts a grammar together, or reports the earliest definition whose name occurred before it. -/
def build (imports : List Import) (definitions : List Definition) (span : Span) :
    Except GrammarError Grammar :=
  match h : Rule.firstRepeat? definitions with
  | some (first, second) =>
    .error (.duplicateDefinition second.name first.span second.span)
  | none => .ok ⟨imports, definitions, span, Rule.nodup_of_firstRepeat?_eq_none h⟩

end Grammar

end LabeledPeg
