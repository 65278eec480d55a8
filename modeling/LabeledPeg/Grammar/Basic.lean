import LabeledPeg.Span

/-!
# Grammars

The expressions of a parsing grammar with labelled failures, the definitions and imports they are
organised in, and the grammar that holds them. Every node remembers the span of the grammar text it
was read from. The traversals that need no other module, the span of a node and whether it works
on single characters only, stand here too.
-/

namespace LabeledPeg

/-- A body with a name: `name <- body`. -/
structure Rule (α : Type) where
  name : String
  body : α
  span : Span

/-- Takes definitions over from the grammar found under `path`: the ones in `names` and what they
need, or all of them when `names` is empty. -/
structure Import where
  path : String
  names : List String
  span : Span
deriving DecidableEq

/-- Whether the import takes every definition. -/
def Import.takesAll (i : Import) : Bool := i.names.isEmpty

/-- A node of a grammar tree. `lexical` switches implicit spacing off below it, and `labeled` turns
a failure of its body into the failure `label`. Definitions, imports and whole grammars are nodes as
well; texts put them at the top only, built trees may have them anywhere. -/
inductive Expr where
  | any (span : Span)
  | literal (value : String) (span : Span)
  | identifier (name : String) (span : Span)
  | range (lo hi : Char) (span : Span)
  | charClass (members : List Expr) (span : Span)
  | optional (body : Expr) (span : Span)
  | zeroOrMore (body : Expr) (span : Span)
  | oneOrMore (body : Expr) (span : Span)
  | andPredicate (body : Expr) (span : Span)
  | notPredicate (body : Expr) (span : Span)
  | lexical (body : Expr) (span : Span)
  | labeled (label : String) (body : Expr) (span : Span)
  | sequence (items : List Expr) (span : Span)
  | choice (alternatives : List Expr) (span : Span)
  | definition (rule : Rule Expr)
  | imported (clause : Import)
  | grammar (imports : List Import) (definitions : List (Rule Expr)) (span : Span)

/-- A definition of a grammar. -/
abbrev Definition := Rule Expr

namespace Expr

/-- The stretch of the grammar text that the node was read from. -/
def span : Expr → Span
  | any span | literal _ span | identifier _ span | range _ _ span | charClass _ span
  | optional _ span | zeroOrMore _ span | oneOrMore _ span | andPredicate _ span
  | notPredicate _ span | lexical _ span | labeled _ _ span | sequence _ span | choice _ span
  | grammar _ _ span => span
  | definition rule => rule.span
  | imported clause => clause.span

mutual

/-- Whether the node works on characters only, so that a sequence of such nodes takes no implicit
spacing. A reference to a rule never does; predicates and `lexical` always do. -/
def isSyntactic : Expr → Bool
  | any _ | literal _ _ | range _ _ _ | charClass _ _ => true
  | andPredicate _ _ | notPredicate _ _ | lexical _ _ => true
  | identifier _ _ | imported _ | grammar _ _ _ => false
  | optional body _ | zeroOrMore body _ | oneOrMore body _ | labeled _ body _ => body.isSyntactic
  | sequence items _ | choice items _ => allSyntactic items
  | definition ⟨_, body, _⟩ => body.isSyntactic

/-- Whether every node of a list works on characters only. -/
def allSyntactic : List Expr → Bool
  | [] => true
  | item :: items => item.isSyntactic && allSyntactic items

end

theorem allSyntactic_eq_all (items : List Expr) : allSyntactic items = items.all isSyntactic := by
  induction items with
  | nil => simp [allSyntactic]
  | cons item items ih => simp [allSyntactic, ih]

end Expr

/-- The first pair of rules with one name: the second is the earliest rule whose name occurred
before it, the first is where that name occurred first. -/
def Rule.firstRepeat? {α : Type} (rules : List (Rule α)) : Option (Rule α × Rule α) :=
  go [] rules
where
  /-- Looks through the rules after `earlier`, which holds distinct names in order. -/
  go (earlier : List (Rule α)) : List (Rule α) → Option (Rule α × Rule α)
    | [] => none
    | rule :: rules =>
      match earlier.find? (·.name == rule.name) with
      | some first => some (first, rule)
      | none => go (earlier ++ [rule]) rules

theorem Rule.nodup_of_firstRepeat?_go {α : Type} {earlier rules : List (Rule α)}
    (hearlier : (earlier.map Rule.name).Nodup) (h : firstRepeat?.go earlier rules = none) :
    ((earlier ++ rules).map Rule.name).Nodup := by
  induction rules generalizing earlier with
  | nil => simpa using hearlier
  | cons rule rules ih =>
    unfold firstRepeat?.go at h
    split at h
    · simp at h
    · next hfind =>
      have hnew : rule.name ∉ earlier.map Rule.name := by
        simpa [List.find?_eq_none] using hfind
      have hnext : ((earlier ++ [rule]).map Rule.name).Nodup := by
        rw [List.map_append, List.nodup_append]
        refine ⟨hearlier, by simp, ?_⟩
        intro a ha b hb hab
        simp only [List.map_cons, List.map_nil, List.mem_singleton] at hb
        exact hnew (hb ▸ hab ▸ ha)
      simpa using ih hnext h

theorem Rule.nodup_of_firstRepeat?_eq_none {α : Type} {rules : List (Rule α)}
    (h : firstRepeat? rules = none) : (rules.map Rule.name).Nodup := by
  have hnil : (([] : List (Rule α)).map Rule.name).Nodup := by simp
  simpa using nodup_of_firstRepeat?_go hnil h

/-- Enters rules in an index of names, each with its place; the first of them stands at `place`. -/
def Rule.enter {α : Type} (index : List (String × Nat)) (place : Nat) :
    List (Rule α) → List (String × Nat)
  | [] => index
  | rule :: rules => enter ((rule.name, place) :: index) (place + 1) rules

/-- A grammar: its imports and its definitions in order, no name defined twice. -/
structure Grammar where
  imports : List Import
  definitions : List Definition
  span : Span
  distinct : (definitions.map Rule.name).Nodup

namespace Grammar

/-- The names that the grammar defines, in order. -/
def names (g : Grammar) : List String := g.definitions.map Rule.name

/-- The definition of a name. -/
def definition? (g : Grammar) (name : String) : Option Definition :=
  g.definitions.find? (·.name == name)

/-- Whether the grammar defines a name. -/
def defines (g : Grammar) (name : String) : Bool := (g.definition? name).isSome

/-- The index of the defined names: every name with the place of its definition. -/
def index (g : Grammar) : List (String × Nat) := Rule.enter [] 0 g.definitions

/-- The place of a name in the index. -/
def indexOf? (g : Grammar) (name : String) : Option Nat := g.index.lookup name

/-- The grammar as a node of a tree. -/
def toExpr (g : Grammar) : Expr := .grammar g.imports g.definitions g.span

end Grammar

/-- The name of the rule that implicit spacing calls. -/
def spacingName : String := "Spacing"

/-- The name of the rule that matches the end of the input. -/
def endName : String := "EOF"

/-- Whether a rule of this name is there without a definition. -/
def isBuiltinName (name : String) : Bool := name == spacingName || name == endName

end LabeledPeg
