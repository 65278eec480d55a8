import LabeledPeg.Grammar.Validation
import Mathlib.Data.List.Nodup

/-!
# Expressions

Induction over nodes with one hypothesis for every item of a list, and the nodes that stand for
what a parser matches: no definition, import or grammar lies below them. A grammar that passes
validation has a meaning for every rule name and no empty choice.
-/

namespace LabeledPeg

/-- Where the keys are distinct, a search by key finds the element that has it. -/
lemma find?_key_eq_some_iff {α : Type} (key : α → String) {elements : List α}
    (hdistinct : (elements.map key).Nodup) {name : String} {a : α} :
    elements.find? (key · == name) = some a ↔ a ∈ elements ∧ key a = name := by
  constructor
  · intro h
    exact ⟨List.mem_of_find?_eq_some h, by simpa using List.find?_some h⟩
  · rintro ⟨ha, rfl⟩
    obtain ⟨b, hb⟩ : ∃ b, elements.find? (key · == key a) = some b := by
      rw [← Option.isSome_iff_exists, List.find?_isSome]
      exact ⟨a, ha, by simp⟩
    have hkey : key b = key a := by simpa using List.find?_some hb
    rw [hb, List.inj_on_of_nodup_map hdistinct (List.mem_of_find?_eq_some hb) ha hkey]

namespace Expr

/-- Induction over a node and the lists below it. -/
@[elab_as_elim]
theorem inductionOn {motive : Expr → Prop} (e : Expr)
    (any : ∀ span, motive (.any span))
    (literal : ∀ value span, motive (.literal value span))
    (identifier : ∀ name span, motive (.identifier name span))
    (range : ∀ lo hi span, motive (.range lo hi span))
    (charClass : ∀ members span, (∀ e ∈ members, motive e) → motive (.charClass members span))
    (optional : ∀ body span, motive body → motive (.optional body span))
    (zeroOrMore : ∀ body span, motive body → motive (.zeroOrMore body span))
    (oneOrMore : ∀ body span, motive body → motive (.oneOrMore body span))
    (andPredicate : ∀ body span, motive body → motive (.andPredicate body span))
    (notPredicate : ∀ body span, motive body → motive (.notPredicate body span))
    (lexical : ∀ body span, motive body → motive (.lexical body span))
    (labeled : ∀ label body span, motive body → motive (.labeled label body span))
    (sequence : ∀ items span, (∀ e ∈ items, motive e) → motive (.sequence items span))
    (choice : ∀ alternatives span, (∀ e ∈ alternatives, motive e) →
      motive (.choice alternatives span))
    (definition : ∀ rule : Definition, motive rule.body → motive (.definition rule))
    (imported : ∀ clause, motive (.imported clause))
    (grammar : ∀ imports definitions span, (∀ d ∈ definitions, motive d.body) →
      motive (.grammar imports definitions span)) : motive e := by
  induction hn : sizeOf e using Nat.strongRecOn generalizing e with
  | _ n ih =>
    subst hn
    have hbody : ∀ body : Expr, sizeOf body < sizeOf e → motive body := fun body h => ih _ h body rfl
    have hrule : ∀ d : Definition, sizeOf d.body < sizeOf d := by
      intro d
      cases d
      simp
      omega
    cases e with
    | any span => exact any span
    | literal value span => exact literal value span
    | identifier name span => exact identifier name span
    | range lo hi span => exact range lo hi span
    | charClass members span =>
      refine charClass members span fun e he => hbody e ?_
      have := List.sizeOf_lt_of_mem he
      simp only [Expr.charClass.sizeOf_spec]
      omega
    | optional body span => exact optional body span (hbody body (by simp; omega))
    | zeroOrMore body span => exact zeroOrMore body span (hbody body (by simp; omega))
    | oneOrMore body span => exact oneOrMore body span (hbody body (by simp; omega))
    | andPredicate body span => exact andPredicate body span (hbody body (by simp; omega))
    | notPredicate body span => exact notPredicate body span (hbody body (by simp; omega))
    | lexical body span => exact lexical body span (hbody body (by simp; omega))
    | labeled label body span => exact labeled label body span (hbody body (by simp; omega))
    | sequence items span =>
      refine sequence items span fun e he => hbody e ?_
      have := List.sizeOf_lt_of_mem he
      simp only [Expr.sequence.sizeOf_spec]
      omega
    | choice alternatives span =>
      refine choice alternatives span fun e he => hbody e ?_
      have := List.sizeOf_lt_of_mem he
      simp only [Expr.choice.sizeOf_spec]
      omega
    | definition rule =>
      refine definition rule (hbody rule.body ?_)
      have := hrule rule
      simp only [Expr.definition.sizeOf_spec]
      omega
    | imported clause => exact imported clause
    | grammar imports definitions span =>
      refine grammar imports definitions span fun d hd => hbody d.body ?_
      have hlist := List.sizeOf_lt_of_mem hd
      have := hrule d
      simp only [Expr.grammar.sizeOf_spec]
      omega

mutual

/-- Whether the node stands for what a parser matches: no definition, import or grammar lies in
it. -/
def isPlain : Expr → Bool
  | any _ | literal _ _ | identifier _ _ | range _ _ _ => true
  | optional body _ | zeroOrMore body _ | oneOrMore body _ | andPredicate body _
  | notPredicate body _ | lexical body _ | labeled _ body _ => body.isPlain
  | charClass items _ | sequence items _ | choice items _ => allPlain items
  | definition _ | imported _ | grammar _ _ _ => false

/-- Whether every node of a list stands for what a parser matches. -/
def allPlain : List Expr → Bool
  | [] => true
  | item :: items => item.isPlain && allPlain items

end

lemma allPlain_iff {items : List Expr} : allPlain items = true ↔ ∀ e ∈ items, e.isPlain = true := by
  induction items with
  | nil => simp [allPlain]
  | cons item items ih => simp [allPlain, ih]

/-- Whether a node stands for characters: a range, or a literal of one character. -/
def IsClassMember : Expr → Prop
  | range _ _ _ => True
  | literal value _ => value.length = 1
  | _ => False

/-- Whether a class member stands for a character. -/
def Admits : Expr → Char → Prop
  | range lo hi _, c => lo ≤ c ∧ c ≤ hi
  | literal value _, c => value.toList = [c]
  | _, _ => False

end Expr

namespace Grammar

/-- Whether every body of the grammar stands for what a parser matches. -/
def isPlain (g : Grammar) : Bool := g.definitions.all (·.body.isPlain)

lemma definition?_eq_some_iff {g : Grammar} {name : String} {d : Definition} :
    g.definition? name = some d ↔ d ∈ g.definitions ∧ d.name = name :=
  find?_key_eq_some_iff Rule.name g.distinct

lemma defines_iff {g : Grammar} {name : String} : g.defines name = true ↔ name ∈ g.names := by
  simp [defines, definition?, names]

lemma definition?_eq_none_iff {g : Grammar} {name : String} :
    g.definition? name = none ↔ name ∉ g.names := by
  simp [definition?, names]

lemma validate_eq_ok_iff {g : Grammar} :
    g.validate = .ok () ↔ g.imports = [] ∧ ∀ d ∈ g.definitions,
      (∀ r ∈ d.body.references, g.resolves r.name = true) ∧ d.body.emptyChoices = [] := by
  have hdef : ∀ d : Definition, g.definitionFault? d = none ↔
      (∀ r ∈ d.body.references, g.resolves r.name = true) ∧ d.body.emptyChoices = [] := by
    intro d
    unfold definitionFault?
    split
    · next r hr =>
      have hr' := List.find?_some hr
      have hmem := List.mem_of_find?_eq_some hr
      simp only [reduceCtorEq, false_iff, not_and]
      intro h
      simp [h r hmem] at hr'
    · next hr =>
      simp only [List.find?_eq_none, Bool.not_eq_true', Bool.not_eq_false] at hr
      cases hempty : d.body.emptyChoices with
      | nil => simpa using hr
      | cons span spans => simp
  unfold validate fault?
  cases himports : g.imports with
  | cons i imports => simp
  | nil =>
    cases hfind : g.definitions.findSome? g.definitionFault? with
    | some fault =>
      obtain ⟨d, hd, hfault⟩ := List.exists_of_findSome?_eq_some hfind
      simp only [reduceCtorEq, true_and, false_iff]
      intro h
      rw [(hdef d).mpr (h d hd)] at hfault
      cases hfault
    | none =>
      simp only [true_and, true_iff]
      intro d hd
      exact (hdef d).mp (List.findSome?_eq_none_iff.mp hfind d hd)

end Grammar

end LabeledPeg
