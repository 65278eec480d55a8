import LabeledPeg.Grammar.Basic

/-!
# Outlines

The outline of a node shows its structure on one line: the form of every node, what it holds, and
its span.
-/

namespace LabeledPeg

/-- One node of an outline, its parts already written. -/
def outlineNode (form : String) (parts : List String) (span : Span) : String :=
  form ++ "(" ++ ", ".intercalate parts ++ ") @ " ++ span.text

/-- A list inside an outline. -/
def outlineList (parts : List String) : String := "[" ++ ", ".intercalate parts ++ "]"

/-- The outline of an import. -/
def Import.outline (i : Import) : String :=
  outlineNode "Import" [i.path, outlineList i.names] i.span

namespace Expr

mutual

/-- The outline of a node. -/
def outline : Expr → String
  | any span => "Any @ " ++ span.text
  | literal value span => outlineNode "Literal" [value] span
  | identifier name span => outlineNode "Identifier" [name] span
  | range lo hi span => outlineNode "Range" [lo.toString, hi.toString] span
  | charClass members span => outlineNode "Class" (outlines members) span
  | optional body span => outlineNode "Optional" [body.outline] span
  | zeroOrMore body span => outlineNode "ZeroOrMore" [body.outline] span
  | oneOrMore body span => outlineNode "OneOrMore" [body.outline] span
  | andPredicate body span => outlineNode "And" [body.outline] span
  | notPredicate body span => outlineNode "Not" [body.outline] span
  | lexical body span => outlineNode "Lex" [body.outline] span
  | labeled label body span => outlineNode "Labeled" [label, body.outline] span
  | sequence items span => outlineNode "Sequence" (outlines items) span
  | choice alternatives span => outlineNode "Choice" (outlines alternatives) span
  | definition ⟨name, body, span⟩ => outlineNode "Definition" [name, body.outline] span
  | imported clause => clause.outline
  | grammar imports definitions span =>
    outlineNode "Grammar"
      [outlineList (imports.map Import.outline), outlineList (definitionOutlines definitions)] span

/-- The outlines of a list of nodes. -/
def outlines : List Expr → List String
  | [] => []
  | item :: items => item.outline :: outlines items

/-- The outlines of a list of definitions. -/
def definitionOutlines : List Definition → List String
  | [] => []
  | ⟨name, body, span⟩ :: definitions =>
    outlineNode "Definition" [name, body.outline] span :: definitionOutlines definitions

end

end Expr

end LabeledPeg
