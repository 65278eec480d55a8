import LabeledPeg.Grammar.Basic
import LabeledPeg.Text.Escape

/-!
# Grammars as text

Every node can be written as grammar text. Operators bind with the strengths of `Precedence`; a node
that binds weaker than its place asks for is put in parentheses. A group with a single item is
written as that item.
-/

namespace LabeledPeg

open Text

/-- How strongly the outermost operator of a node binds, weakest first. -/
inductive Precedence where
  | choice
  | sequence
  | predicate
  | labeled
  | suffix
  | primary
deriving DecidableEq

/-- The place of a strength in the order. -/
def Precedence.rank : Precedence → Nat
  | choice => 0
  | sequence => 1
  | predicate => 2
  | labeled => 3
  | suffix => 4
  | primary => 5

/-- The bounds of a range, as they stand between brackets. -/
def rangeText (lo hi : Char) : String :=
  String.ofList (classStyle.encodeChar lo ++ '-' :: classStyle.encodeChar hi)

/-- A literal in its quotes. -/
def literalText (value : String) : String := "'" ++ literalStyle.encode value ++ "'"

/-- The text `inner`, in parentheses if `needed`. -/
def parenthesized (needed : Bool) (inner : String) : String :=
  if needed then "(" ++ inner ++ ")" else inner

/-- The import as grammar text. -/
def Import.text (i : Import) : String :=
  "import " ++ (if i.names.isEmpty then "*" else ", ".intercalate i.names) ++
    " from \"" ++ pathStyle.encode i.path ++ "\""

namespace Expr

/-- How strongly a node binds as text: a group of one item as strongly as the item, a group of any
other length as its operator. -/
def precedence : Expr → Precedence
  | choice [item] _ => item.precedence
  | choice _ _ => .choice
  | sequence [item] _ => item.precedence
  | sequence _ _ => .sequence
  | andPredicate _ _ | notPredicate _ _ | lexical _ _ => .predicate
  | labeled _ _ _ => .labeled
  | optional _ _ | zeroOrMore _ _ | oneOrMore _ _ => .suffix
  | _ => .primary

/-- Whether the node needs parentheses where at least `least` is asked for. -/
def needsParentheses (least : Precedence) (e : Expr) : Bool :=
  decide (e.precedence.rank < least.rank)

mutual

/-- The node as grammar text. -/
def text : Expr → String
  | any _ => "."
  | literal value _ => literalText value
  | identifier name _ => name
  | range lo hi _ => "[" ++ rangeText lo hi ++ "]"
  | charClass members _ => "[" ++ String.join (memberTexts members) ++ "]"
  | optional body _ => parenthesized (body.needsParentheses .primary) body.text ++ "?"
  | zeroOrMore body _ => parenthesized (body.needsParentheses .primary) body.text ++ "*"
  | oneOrMore body _ => parenthesized (body.needsParentheses .primary) body.text ++ "+"
  | andPredicate body _ => "&" ++ parenthesized (body.needsParentheses .labeled) body.text
  | notPredicate body _ => "!" ++ parenthesized (body.needsParentheses .labeled) body.text
  | lexical body _ => "#" ++ parenthesized (body.needsParentheses .labeled) body.text
  | labeled label body _ =>
    parenthesized (body.needsParentheses .suffix) body.text ++ "^" ++ label
  | sequence items _ => " ".intercalate (itemTexts .predicate items)
  | choice alternatives _ => " / ".intercalate (itemTexts .sequence alternatives)
  | definition ⟨name, body, _⟩ => name ++ " <- " ++ body.text
  | imported clause => clause.text
  | grammar imports definitions _ =>
    "\n".intercalate (imports.map Import.text ++ definitionTexts definitions)

/-- The items of a group, each where at least `least` is asked for. -/
def itemTexts (least : Precedence) : List Expr → List String
  | [] => []
  | item :: items =>
    parenthesized (item.needsParentheses least) item.text :: itemTexts least items

/-- The members of a class, without quotes and brackets of their own. -/
def memberTexts : List Expr → List String
  | [] => []
  | range lo hi _ :: members => rangeText lo hi :: memberTexts members
  | literal value _ :: members => classStyle.encode value :: memberTexts members
  | any _ :: members => "." :: memberTexts members
  | member :: members => member.text :: memberTexts members

/-- The definitions of a grammar, one text each. -/
def definitionTexts : List Definition → List String
  | [] => []
  | ⟨name, body, _⟩ :: definitions => (name ++ " <- " ++ body.text) :: definitionTexts definitions

end

/-- The node where at least `least` is asked for. -/
def textAt (least : Precedence) (e : Expr) : String :=
  parenthesized (e.needsParentheses least) e.text

/-- One member of a class. -/
def memberText : Expr → String
  | range lo hi _ => rangeText lo hi
  | literal value _ => classStyle.encode value
  | any _ => "."
  | member => member.text

theorem itemTexts_eq_map (least : Precedence) (items : List Expr) :
    itemTexts least items = items.map (textAt least) := by
  induction items with
  | nil => simp [itemTexts]
  | cons item items ih => simp [itemTexts, textAt, ih]

theorem memberTexts_eq_map (members : List Expr) :
    memberTexts members = members.map memberText := by
  induction members with
  | nil => simp [memberTexts]
  | cons member members ih => cases member <;> simp [memberTexts, memberText, ih]

end Expr

/-- The definition as grammar text. -/
def Rule.text (d : Definition) : String := d.name ++ " <- " ++ d.body.text

theorem Expr.definitionTexts_eq_map (definitions : List Definition) :
    definitionTexts definitions = definitions.map Rule.text := by
  induction definitions with
  | nil => simp [definitionTexts]
  | cons d definitions ih => simp [definitionTexts, Rule.text, ih]

/-- The grammar as text: its imports, then its definitions, a line each. -/
def Grammar.text (g : Grammar) : String :=
  "\n".intercalate (g.imports.map Import.text ++ g.definitions.map Rule.text)

theorem Grammar.text_toExpr (g : Grammar) : g.toExpr.text = g.text := by
  simp [Grammar.toExpr, Expr.text, Grammar.text, Expr.definitionTexts_eq_map]

end LabeledPeg
