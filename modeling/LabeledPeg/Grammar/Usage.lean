import LabeledPeg.Grammar.Basic

/-!
# What an expression uses

The rule names that stand in an expression, and its choices and classes without alternatives, both
in the order in which a reader of the text meets them.
-/

namespace LabeledPeg

/-- A rule name where it stands in an expression. -/
structure Reference where
  name : String
  span : Span
deriving DecidableEq

namespace Expr

mutual

/-- Every rule name in a node, below predicates, `lexical`, labels and classes as well. -/
def references : Expr → List Reference
  | identifier name span => [⟨name, span⟩]
  | any _ | literal _ _ | range _ _ _ | imported _ => []
  | optional body _ | zeroOrMore body _ | oneOrMore body _ | andPredicate body _
  | notPredicate body _ | lexical body _ | labeled _ body _ => body.references
  | charClass items _ | sequence items _ | choice items _ => itemReferences items
  | definition ⟨_, body, _⟩ => body.references
  | grammar _ definitions _ => definitionReferences definitions

/-- Every rule name in a list of nodes. -/
def itemReferences : List Expr → List Reference
  | [] => []
  | item :: items => item.references ++ itemReferences items

/-- Every rule name in the bodies of a list of definitions. -/
def definitionReferences : List Definition → List Reference
  | [] => []
  | ⟨_, body, _⟩ :: definitions => body.references ++ definitionReferences definitions

end

mutual

/-- The spans of the choices and classes of a node that have no alternatives. -/
def emptyChoices : Expr → List Span
  | identifier _ _ | any _ | literal _ _ | range _ _ _ | imported _ => []
  | optional body _ | zeroOrMore body _ | oneOrMore body _ | andPredicate body _
  | notPredicate body _ | lexical body _ | labeled _ body _ => body.emptyChoices
  | sequence items _ => itemEmptyChoices items
  | charClass items span | choice items span =>
    (if items.isEmpty then [span] else []) ++ itemEmptyChoices items
  | definition ⟨_, body, _⟩ => body.emptyChoices
  | grammar _ definitions _ => definitionEmptyChoices definitions

/-- The empty choices of a list of nodes. -/
def itemEmptyChoices : List Expr → List Span
  | [] => []
  | item :: items => item.emptyChoices ++ itemEmptyChoices items

/-- The empty choices in the bodies of a list of definitions. -/
def definitionEmptyChoices : List Definition → List Span
  | [] => []
  | ⟨_, body, _⟩ :: definitions => body.emptyChoices ++ definitionEmptyChoices definitions

end

theorem itemReferences_eq_flatMap (items : List Expr) :
    itemReferences items = items.flatMap references := by
  induction items with
  | nil => simp [itemReferences]
  | cons item items ih => simp [itemReferences, ih]

theorem definitionReferences_eq_flatMap (definitions : List Definition) :
    definitionReferences definitions = definitions.flatMap (·.body.references) := by
  induction definitions with
  | nil => simp [definitionReferences]
  | cons d definitions ih => simp [definitionReferences, ih]

theorem itemEmptyChoices_eq_flatMap (items : List Expr) :
    itemEmptyChoices items = items.flatMap emptyChoices := by
  induction items with
  | nil => simp [itemEmptyChoices]
  | cons item items ih => simp [itemEmptyChoices, ih]

theorem definitionEmptyChoices_eq_flatMap (definitions : List Definition) :
    definitionEmptyChoices definitions = definitions.flatMap (·.body.emptyChoices) := by
  induction definitions with
  | nil => simp [definitionEmptyChoices]
  | cons d definitions ih => simp [definitionEmptyChoices, ih]

/-- The rule names in a node, each once, in the order of their first use. -/
def referencedNames (e : Expr) : List String := (e.references.map Reference.name).eraseDups

end Expr

end LabeledPeg
