import LabeledPeg.Parse.State
import LabeledPeg.Proofs.Grammar.Expression
import LabeledPeg.Proofs.Grammar.Reachability
import LabeledPeg.Proofs.Parse.Verdict

/-!
# What a grammar matches

The meaning of grammars with labelled failures, by rules that derive how the match of an
expression ends at a place of the input. Nothing here speaks of code or of the state of a parser.
A sequence in a rule takes implicit spacing before each of its items if one of them does not work
on characters only, unless it stands below `lexical` or the spacing rule leads to its rule.
-/

namespace LabeledPeg

open Parse

/-- What is matched at a place: an expression, items one after the other, alternatives of which the
first that matches is taken, or an expression as often as it matches. Sequences in it take implicit
spacing if `spaced`. -/
inductive Phrase where
  | expr (spaced : Bool) (e : Expr)
  | items (spaced : Bool) (items : List Expr)
  | alternatives (spaced : Bool) (alternatives : List Expr)
  | repeated (spaced : Bool) (body : Expr)

/-- The reference that implicit spacing stands for. -/
def spacingReference : Expr := .identifier spacingName (.point 0)

/-- The items of a sequence, with implicit spacing before each if `gaps`. -/
def spacedItems (gaps : Bool) (items : List Expr) : List Expr :=
  if gaps then items.flatMap fun item => [spacingReference, item] else items

/-- Whether a sequence in the rule `name` can take implicit spacing. -/
def Grammar.TakesSpacing (g : Grammar) (name : String) : Prop := ¬g.Reaches [spacingName] name

/-- How a match of a phrase at a place of the input ends. -/
inductive Grammar.Matches (g : Grammar) (input : Array Char) (policy : LabelPolicy) :
    Phrase → Nat → Verdict → Prop where
  -- Characters.
  | any {spaced span i c} (h : input[i]? = some c) :
    Matches g input policy (.expr spaced (.any span)) i (.matched (i + 1))
  | anyFailed {spaced span i} (h : input[i]? = none) :
    Matches g input policy (.expr spaced (.any span)) i .failed
  | range {spaced lo hi span i c} (h : input[i]? = some c) (hc : lo ≤ c ∧ c ≤ hi) :
    Matches g input policy (.expr spaced (.range lo hi span)) i (.matched (i + 1))
  | rangeFailed {spaced lo hi span i} (h : ∀ c, input[i]? = some c → ¬(lo ≤ c ∧ c ≤ hi)) :
    Matches g input policy (.expr spaced (.range lo hi span)) i .failed
  | literal {spaced value span i} (h : value.toList <+: input.toList.drop i) :
    Matches g input policy (.expr spaced (.literal value span)) i (.matched (i + value.length))
  | literalFailed {spaced value span i} (h : ¬value.toList <+: input.toList.drop i) :
    Matches g input policy (.expr spaced (.literal value span)) i .failed
  | charClass {spaced members span i v}
    (h : Matches g input policy (.alternatives spaced members) i v) :
    Matches g input policy (.expr spaced (.charClass members span)) i v
  -- Rules: those of the grammar, and the built-in ones that the grammar does not define.
  | rule {spaced inner d span i v} (hd : d ∈ g.definitions)
    (hinner : inner = true ↔ g.TakesSpacing d.name)
    (h : Matches g input policy (.expr inner d.body) i v) :
    Matches g input policy (.expr spaced (.identifier d.name span)) i v
  | spacing {spaced span i j} (hundefined : spacingName ∉ g.names) (hij : i ≤ j)
    (hin : ∀ k, i ≤ k → k < j → ∃ c ∈ input[k]?, Action.isSpacing c = true)
    (hout : ∀ c ∈ input[j]?, Action.isSpacing c = false) :
    Matches g input policy (.expr spaced (.identifier spacingName span)) i (.matched j)
  | endOfInput {spaced span i} (hundefined : endName ∉ g.names) (h : input[i]? = none) :
    Matches g input policy (.expr spaced (.identifier endName span)) i (.matched i)
  | endOfInputFailed {spaced span i c} (hundefined : endName ∉ g.names) (h : input[i]? = some c) :
    Matches g input policy (.expr spaced (.identifier endName span)) i .failed
  -- Sequences: the items in order, up to the first that does not match.
  | sequence {spaced items span i v}
    (h : Matches g input policy
      (.items spaced (spacedItems (spaced && !Expr.allSyntactic items) items)) i v) :
    Matches g input policy (.expr spaced (.sequence items span)) i v
  | noItem {spaced i} : Matches g input policy (.items spaced []) i (.matched i)
  | item {spaced e es i j v} (h : Matches g input policy (.expr spaced e) i (.matched j))
    (hrest : Matches g input policy (.items spaced es) j v) :
    Matches g input policy (.items spaced (e :: es)) i v
  | itemFailed {spaced e es i} (h : Matches g input policy (.expr spaced e) i .failed) :
    Matches g input policy (.items spaced (e :: es)) i .failed
  | itemThrown {spaced e es i l} (h : Matches g input policy (.expr spaced e) i (.thrown l)) :
    Matches g input policy (.items spaced (e :: es)) i (.thrown l)
  -- Choices: the first alternative that matches, each tried from the same place.
  | choice {spaced alternatives span i v}
    (h : Matches g input policy (.alternatives spaced alternatives) i v) :
    Matches g input policy (.expr spaced (.choice alternatives span)) i v
  | noAlternative {spaced i} : Matches g input policy (.alternatives spaced []) i .failed
  | alternative {spaced e es i j} (h : Matches g input policy (.expr spaced e) i (.matched j)) :
    Matches g input policy (.alternatives spaced (e :: es)) i (.matched j)
  | alternativeFailed {spaced e es i v} (h : Matches g input policy (.expr spaced e) i .failed)
    (hrest : Matches g input policy (.alternatives spaced es) i v) :
    Matches g input policy (.alternatives spaced (e :: es)) i v
  | alternativeThrown {spaced e es i l} (h : Matches g input policy (.expr spaced e) i (.thrown l)) :
    Matches g input policy (.alternatives spaced (e :: es)) i (.thrown l)
  -- Options and repetitions take as much as they can and never give it back.
  | optional {spaced body span i j} (h : Matches g input policy (.expr spaced body) i (.matched j)) :
    Matches g input policy (.expr spaced (.optional body span)) i (.matched j)
  | optionalFailed {spaced body span i} (h : Matches g input policy (.expr spaced body) i .failed) :
    Matches g input policy (.expr spaced (.optional body span)) i (.matched i)
  | optionalThrown {spaced body span i l}
    (h : Matches g input policy (.expr spaced body) i (.thrown l)) :
    Matches g input policy (.expr spaced (.optional body span)) i (.thrown l)
  | zeroOrMore {spaced body span i v} (h : Matches g input policy (.repeated spaced body) i v) :
    Matches g input policy (.expr spaced (.zeroOrMore body span)) i v
  | oneOrMore {spaced body span i j v}
    (h : Matches g input policy (.expr spaced body) i (.matched j)) (hij : i < j)
    (hrest : Matches g input policy (.repeated spaced body) j v) :
    Matches g input policy (.expr spaced (.oneOrMore body span)) i v
  | oneOrMoreStopped {spaced body span i}
    (h : Matches g input policy (.expr spaced body) i (.matched i)) :
    Matches g input policy (.expr spaced (.oneOrMore body span)) i (.matched i)
  | oneOrMoreFailed {spaced body span i} (h : Matches g input policy (.expr spaced body) i .failed) :
    Matches g input policy (.expr spaced (.oneOrMore body span)) i .failed
  | oneOrMoreThrown {spaced body span i l}
    (h : Matches g input policy (.expr spaced body) i (.thrown l)) :
    Matches g input policy (.expr spaced (.oneOrMore body span)) i (.thrown l)
  | again {spaced body i j v} (h : Matches g input policy (.expr spaced body) i (.matched j))
    (hij : i < j) (hrest : Matches g input policy (.repeated spaced body) j v) :
    Matches g input policy (.repeated spaced body) i v
  | againStopped {spaced body i} (h : Matches g input policy (.expr spaced body) i (.matched i)) :
    Matches g input policy (.repeated spaced body) i (.matched i)
  | againFailed {spaced body i} (h : Matches g input policy (.expr spaced body) i .failed) :
    Matches g input policy (.repeated spaced body) i (.matched i)
  | againThrown {spaced body i l} (h : Matches g input policy (.expr spaced body) i (.thrown l)) :
    Matches g input policy (.repeated spaced body) i (.thrown l)
  -- Predicates consume nothing.
  | andPredicate {spaced body span i j}
    (h : Matches g input policy (.expr spaced body) i (.matched j)) :
    Matches g input policy (.expr spaced (.andPredicate body span)) i (.matched i)
  | andPredicateFailed {spaced body span i}
    (h : Matches g input policy (.expr spaced body) i .failed) :
    Matches g input policy (.expr spaced (.andPredicate body span)) i .failed
  | andPredicateThrown {spaced body span i l}
    (h : Matches g input policy (.expr spaced body) i (.thrown l)) :
    Matches g input policy (.expr spaced (.andPredicate body span)) i (.thrown l)
  | notPredicate {spaced body span i} (h : Matches g input policy (.expr spaced body) i .failed) :
    Matches g input policy (.expr spaced (.notPredicate body span)) i (.matched i)
  | notPredicateFailed {spaced body span i j}
    (h : Matches g input policy (.expr spaced body) i (.matched j)) :
    Matches g input policy (.expr spaced (.notPredicate body span)) i .failed
  | notPredicateThrown {spaced body span i l}
    (h : Matches g input policy (.expr spaced body) i (.thrown l)) :
    Matches g input policy (.expr spaced (.notPredicate body span)) i (.thrown l)
  | lexical {spaced body span i v} (h : Matches g input policy (.expr false body) i v) :
    Matches g input policy (.expr spaced (.lexical body span)) i v
  -- Labels: an ordinary failure of the body raises the label.
  | labeled {spaced label body span i j}
    (h : Matches g input policy (.expr spaced body) i (.matched j)) :
    Matches g input policy (.expr spaced (.labeled label body span)) i (.matched j)
  | labeledFailed {spaced label body span i}
    (h : Matches g input policy (.expr spaced body) i .failed) :
    Matches g input policy (.expr spaced (.labeled label body span)) i (policy.raised label)
  | labeledThrown {spaced label body span i l}
    (h : Matches g input policy (.expr spaced body) i (.thrown l)) :
    Matches g input policy (.expr spaced (.labeled label body span)) i (.thrown l)

/-- How a match of a rule at a place of the input ends. -/
def Grammar.RuleMatches (g : Grammar) (input : Array Char) (policy : LabelPolicy) (name : String)
    (i : Nat) (v : Verdict) : Prop :=
  g.Matches input policy (.expr true (.identifier name (.point 0))) i v

section Classes

variable {g : Grammar} {input : Array Char} {policy : LabelPolicy} {spaced : Bool} {i : Nat}
  {v : Verdict}

/-- How a match ends that takes one character if it is admitted. -/
def OneCharacter (input : Array Char) (i : Nat) (admitted : Char → Prop) (v : Verdict) : Prop :=
  ((∃ c ∈ input[i]?, admitted c) ∧ v = .matched (i + 1)) ∨
    ((¬∃ c ∈ input[i]?, admitted c) ∧ v = .failed)

lemma isPrefix_drop_singleton_iff {c : Char} :
    [c] <+: input.toList.drop i ↔ input[i]? = some c := by
  rw [← Array.getElem?_toList, ← List.head?_drop]
  cases input.toList.drop i <;> simp [eq_comm]

lemma matches_classMember_iff {member : Expr} (h : member.IsClassMember) :
    g.Matches input policy (.expr spaced member) i v ↔
      OneCharacter input i member.Admits v := by
  match member with
  | .range lo hi span =>
    constructor
    · intro hmatch
      cases hmatch with
      | range hnext hc => exact .inl ⟨⟨_, hnext, hc⟩, rfl⟩
      | rangeFailed hnext => exact .inr ⟨fun ⟨c, hmem, hc⟩ => hnext c hmem hc, rfl⟩
    · rintro (⟨⟨c, hnext, hc⟩, rfl⟩ | ⟨hnot, rfl⟩)
      · exact .range hnext hc
      · exact .rangeFailed fun c hnext hc => hnot ⟨c, hnext, hc⟩
  | .literal value span =>
    obtain ⟨c, hvalue⟩ : ∃ c, value.toList = [c] := by
      apply List.length_eq_one_iff.mp
      rw [String.length_toList]
      exact h
    have hlength : value.length = 1 := h
    have hnext : (∃ c ∈ input[i]?, (Expr.literal value span).Admits c) ↔
        value.toList <+: input.toList.drop i := by
      rw [hvalue, isPrefix_drop_singleton_iff]
      simp [Expr.Admits, hvalue]
    rw [OneCharacter, hnext]
    constructor
    · intro hmatch
      cases hmatch with
      | literal hstarts => exact .inl ⟨hstarts, by rw [hlength]⟩
      | literalFailed hnot => exact .inr ⟨hnot, rfl⟩
    · rintro (⟨hstarts, rfl⟩ | ⟨hnot, rfl⟩)
      · rw [← hlength]
        exact .literal hstarts
      · exact .literalFailed hnot

lemma matches_classMembers_iff {members : List Expr} (h : ∀ e ∈ members, e.IsClassMember) :
    g.Matches input policy (.alternatives spaced members) i v ↔
      OneCharacter input i (fun c => ∃ e ∈ members, e.Admits c) v := by
  induction members with
  | nil =>
    constructor
    · rintro ⟨⟩
      exact .inr ⟨by simp, rfl⟩
    · rintro (⟨⟨c, -, e, he, -⟩, -⟩ | ⟨-, rfl⟩)
      · simp at he
      · exact .noAlternative
  | cons e members ih =>
    have hfirst {w} : g.Matches input policy (.expr spaced e) i w ↔ OneCharacter input i e.Admits w :=
      matches_classMember_iff (h e (by simp))
    have hrest := ih fun e he => h e (by simp [he])
    by_cases hadmits : ∃ c ∈ input[i]?, e.Admits c
    · have hmatch := hfirst.mpr (.inl ⟨hadmits, rfl⟩)
      obtain ⟨c, hc, hin⟩ := hadmits
      constructor
      · intro hmatches
        refine .inl ⟨⟨c, hc, e, by simp, hin⟩, ?_⟩
        cases hmatches with
        | alternative hone =>
          obtain ⟨-, heq⟩ | ⟨-, heq⟩ := hfirst.mp hone
          · exact heq
          · cases heq
        | alternativeFailed hone _ =>
          obtain ⟨-, heq⟩ | ⟨hnot, -⟩ := hfirst.mp hone
          · cases heq
          · exact absurd ⟨c, hc, hin⟩ hnot
        | alternativeThrown hone =>
          obtain ⟨-, heq⟩ | ⟨-, heq⟩ := hfirst.mp hone <;> cases heq
      · rintro (⟨-, rfl⟩ | ⟨hnot, -⟩)
        · exact .alternative hmatch
        · exact absurd ⟨c, hc, e, by simp, hin⟩ hnot
    · have hmatch := hfirst.mpr (.inr ⟨hadmits, rfl⟩)
      have hsame : (∃ c ∈ input[i]?, ∃ e' ∈ e :: members, e'.Admits c) ↔
          ∃ c ∈ input[i]?, ∃ e' ∈ members, e'.Admits c := by
        constructor
        · rintro ⟨c, hc, e', he', hin⟩
          rcases List.mem_cons.mp he' with rfl | he'
          · exact absurd ⟨c, hc, hin⟩ hadmits
          · exact ⟨c, hc, e', he', hin⟩
        · rintro ⟨c, hc, e', he', hin⟩
          exact ⟨c, hc, e', by simp [he'], hin⟩
      rw [OneCharacter, hsame, ← OneCharacter, ← hrest]
      constructor
      · intro hmatches
        cases hmatches with
        | alternative hone =>
          obtain ⟨hone, -⟩ | ⟨-, heq⟩ := hfirst.mp hone
          · exact absurd hone hadmits
          · cases heq
        | alternativeFailed _ hothers => exact hothers
        | alternativeThrown hone =>
          obtain ⟨-, heq⟩ | ⟨-, heq⟩ := hfirst.mp hone <;> cases heq
      · exact .alternativeFailed hmatch

/-- A class takes one character that some member stands for. -/
theorem matches_charClass_iff {members : List Expr} (h : ∀ e ∈ members, e.IsClassMember)
    {span : Span} : g.Matches input policy (.expr spaced (.charClass members span)) i v ↔
      OneCharacter input i (fun c => ∃ e ∈ members, e.Admits c) v := by
  rw [← matches_classMembers_iff h]
  constructor
  · rintro ⟨⟩
    assumption
  · exact .charClass

end Classes

end LabeledPeg
