import LabeledPeg.Grammar.Build
import LabeledPeg.Grammar.Usage

/-!
# Validation

A grammar is ready for code if it has no imports left, every rule name in it is defined or built
in, and no choice or class is empty.
-/

namespace LabeledPeg

namespace Grammar

/-- Whether a rule name means something in the grammar. -/
def resolves (g : Grammar) (name : String) : Bool := g.defines name || isBuiltinName name

/-- What is wrong with one definition: its first rule name without a meaning, else its first empty
choice. -/
def definitionFault? (g : Grammar) (d : Definition) : Option GrammarError :=
  match d.body.references.find? (fun r => !g.resolves r.name) with
  | some r => some (.unresolvedIdentifier r.name r.span)
  | none => d.body.emptyChoices.head?.map .emptyChoice

/-- What is wrong with a grammar: its first import, else the fault of its first definition that has
one. -/
def fault? (g : Grammar) : Option GrammarError :=
  match g.imports with
  | i :: _ => some (.unassembledImport i.path i.span)
  | [] => g.definitions.findSome? g.definitionFault?

/-- Accepts exactly the grammars without a fault. -/
def validate (g : Grammar) : Except GrammarError Unit :=
  match g.fault? with
  | some e => .error e
  | none => .ok ()

end Grammar

end LabeledPeg
