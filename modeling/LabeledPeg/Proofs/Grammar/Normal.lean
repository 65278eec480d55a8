import LabeledPeg.Grammar.Text
import LabeledPeg.Proofs.Grammar.Expression
import LabeledPeg.Text.Identifier

/-!
# Normal forms

What can be said in a grammar text: names are identifiers, groups are not empty, and the members of
a class are characters and ranges. A text cannot say where a group of one item or a range outside a
class stood; the normal form has the item, and a class of that range. Spans say where a node was
read, not what it is.
-/

namespace LabeledPeg

open Text

namespace Expr

/-- Whether a node stands for an expression that a grammar text can hold. -/
inductive WellFormed : Expr → Prop where
  | any {span : Span} : WellFormed (.any span)
  | literal {value : String} {span : Span} : WellFormed (.literal value span)
  | identifier {name : String} {span : Span} (hname : isAsciiIdentifier name = true) :
    WellFormed (.identifier name span)
  | range {lo hi : Char} {span : Span} : WellFormed (.range lo hi span)
  | charClass {members : List Expr} {span : Span} (hmembers : ∀ e ∈ members, e.IsClassMember) :
    WellFormed (.charClass members span)
  | optional {body : Expr} {span : Span} (hbody : WellFormed body) :
    WellFormed (.optional body span)
  | zeroOrMore {body : Expr} {span : Span} (hbody : WellFormed body) :
    WellFormed (.zeroOrMore body span)
  | oneOrMore {body : Expr} {span : Span} (hbody : WellFormed body) :
    WellFormed (.oneOrMore body span)
  | andPredicate {body : Expr} {span : Span} (hbody : WellFormed body) :
    WellFormed (.andPredicate body span)
  | notPredicate {body : Expr} {span : Span} (hbody : WellFormed body) :
    WellFormed (.notPredicate body span)
  | lexical {body : Expr} {span : Span} (hbody : WellFormed body) :
    WellFormed (.lexical body span)
  | labeled {label : String} {body : Expr} {span : Span} (hlabel : isAsciiIdentifier label = true)
    (hbody : WellFormed body) : WellFormed (.labeled label body span)
  | sequence {items : List Expr} {span : Span} (hne : items ≠ [])
    (hitems : ∀ e ∈ items, WellFormed e) : WellFormed (.sequence items span)
  | choice {alternatives : List Expr} {span : Span} (hne : alternatives ≠ [])
    (halternatives : ∀ e ∈ alternatives, WellFormed e) : WellFormed (.choice alternatives span)

lemma IsClassMember.isPlain {e : Expr} (h : e.IsClassMember) : e.isPlain = true := by
  cases e <;> first | rfl | cases h

lemma WellFormed.isPlain {e : Expr} (h : e.WellFormed) : e.isPlain = true := by
  induction h with
  | charClass hmembers => exact allPlain_iff.mpr fun e he => (hmembers e he).isPlain
  | sequence _ _ ih | choice _ _ ih => exact allPlain_iff.mpr ih
  | any | literal | identifier | range => rfl
  | optional _ ih | zeroOrMore _ ih | oneOrMore _ ih | andPredicate _ ih | notPredicate _ ih
  | lexical _ ih | labeled _ _ ih => exact ih

mutual

/-- A node with every group of one item replaced by the item, and every range outside a class by a
class of that range. -/
def normal : Expr → Expr
  | range lo hi span => charClass [range lo hi span] span
  | optional body span => optional body.normal span
  | zeroOrMore body span => zeroOrMore body.normal span
  | oneOrMore body span => oneOrMore body.normal span
  | andPredicate body span => andPredicate body.normal span
  | notPredicate body span => notPredicate body.normal span
  | lexical body span => lexical body.normal span
  | labeled label body span => labeled label body.normal span
  | sequence [item] _ => item.normal
  | sequence items span => sequence (allNormal items) span
  | choice [item] _ => item.normal
  | choice alternatives span => choice (allNormal alternatives) span
  | e => e

/-- The normal forms of a list of nodes. -/
def allNormal : List Expr → List Expr
  | [] => []
  | item :: items => item.normal :: allNormal items

end

lemma allNormal_eq_map (items : List Expr) : allNormal items = items.map normal := by
  induction items with
  | nil => simp [allNormal]
  | cons item items ih => simp [allNormal, ih]

mutual

/-- A node as if it had been read nowhere. -/
def unspanned : Expr → Expr
  | any _ => any {}
  | literal value _ => literal value {}
  | identifier name _ => identifier name {}
  | range lo hi _ => range lo hi {}
  | charClass members _ => charClass (allUnspanned members) {}
  | optional body _ => optional body.unspanned {}
  | zeroOrMore body _ => zeroOrMore body.unspanned {}
  | oneOrMore body _ => oneOrMore body.unspanned {}
  | andPredicate body _ => andPredicate body.unspanned {}
  | notPredicate body _ => notPredicate body.unspanned {}
  | lexical body _ => lexical body.unspanned {}
  | labeled label body _ => labeled label body.unspanned {}
  | sequence items _ => sequence (allUnspanned items) {}
  | choice alternatives _ => choice (allUnspanned alternatives) {}
  | definition ⟨name, body, _⟩ => definition ⟨name, body.unspanned, {}⟩
  | imported ⟨path, names, _⟩ => imported ⟨path, names, {}⟩
  | grammar imports definitions _ =>
    grammar (imports.map fun i => ⟨i.path, i.names, {}⟩) (definitionsUnspanned definitions) {}

/-- The nodes of a list as if they had been read nowhere. -/
def allUnspanned : List Expr → List Expr
  | [] => []
  | item :: items => item.unspanned :: allUnspanned items

/-- The definitions of a list as if they had been read nowhere. -/
def definitionsUnspanned : List Definition → List Definition
  | [] => []
  | ⟨name, body, _⟩ :: definitions => ⟨name, body.unspanned, {}⟩ :: definitionsUnspanned definitions

end

lemma allUnspanned_eq_map (items : List Expr) : allUnspanned items = items.map unspanned := by
  induction items with
  | nil => simp [allUnspanned]
  | cons item items ih => simp [allUnspanned, ih]

lemma definitionsUnspanned_eq_map (definitions : List Definition) :
    definitionsUnspanned definitions =
      definitions.map fun d => ⟨d.name, d.body.unspanned, {}⟩ := by
  induction definitions with
  | nil => simp [definitionsUnspanned]
  | cons d definitions ih => simp [definitionsUnspanned, ih]

lemma precedence_unspanned (e : Expr) : e.unspanned.precedence = e.precedence := by
  induction e using inductionOn with
  | sequence items span ih =>
    match items with
    | [] => simp only [unspanned, allUnspanned, precedence]
    | [item] => simpa only [unspanned, allUnspanned, precedence] using ih item (by simp)
    | _ :: _ :: _ => simp only [unspanned, allUnspanned, precedence]
  | choice alternatives span ih =>
    match alternatives with
    | [] => simp only [unspanned, allUnspanned, precedence]
    | [item] => simpa only [unspanned, allUnspanned, precedence] using ih item (by simp)
    | _ :: _ :: _ => simp only [unspanned, allUnspanned, precedence]
  | _ => simp only [unspanned, precedence]

lemma needsParentheses_unspanned (least : Precedence) (e : Expr) :
    e.unspanned.needsParentheses least = e.needsParentheses least := by
  simp only [needsParentheses, precedence_unspanned]

/-- Spans make no difference to the text of a node. -/
theorem text_unspanned (e : Expr) : e.unspanned.text = e.text := by
  have hitems : ∀ (least : Precedence) (items : List Expr), (∀ e ∈ items, e.unspanned.text = e.text) →
      itemTexts least (allUnspanned items) = itemTexts least items := by
    intro least items ih
    rw [allUnspanned_eq_map, itemTexts_eq_map, itemTexts_eq_map, List.map_map]
    refine List.map_congr_left fun e he => ?_
    simp only [Function.comp_apply, textAt, needsParentheses_unspanned, ih e he]
  induction e using inductionOn with
  | charClass members span ih =>
    simp only [unspanned, text]
    rw [allUnspanned_eq_map, memberTexts_eq_map, memberTexts_eq_map, List.map_map]
    congr 3
    refine List.map_congr_left fun e he => ?_
    have htext := ih e he
    cases e <;> simp only [Function.comp_apply, unspanned, memberText] at htext ⊢ <;> exact htext
  | sequence items span ih => simp only [unspanned, text, hitems _ items ih]
  | choice alternatives span ih => simp only [unspanned, text, hitems _ alternatives ih]
  | definition rule ih =>
    obtain ⟨name, body, span⟩ := rule
    simp only [unspanned, text]
    rw [ih]
  | imported clause => simp only [unspanned, text, Import.text]
  | grammar imports definitions span ih =>
    have himports : (imports.map fun i : Import => (⟨i.path, i.names, {}⟩ : Import)).map Import.text =
        imports.map Import.text := by
      rw [List.map_map]
      rfl
    have hdefinitions : (definitionsUnspanned definitions).map Rule.text =
        definitions.map Rule.text := by
      rw [definitionsUnspanned_eq_map, List.map_map]
      refine List.map_congr_left fun d hd => ?_
      simp only [Function.comp_apply, Rule.text, ih d hd]
    simp only [unspanned, text, definitionTexts_eq_map, himports, hdefinitions]
  | _ => simp_all only [unspanned, text, needsParentheses_unspanned]

/-- Spans make no difference to whether a node works on characters only. -/
theorem isSyntactic_unspanned (e : Expr) : e.unspanned.isSyntactic = e.isSyntactic := by
  have hitems : ∀ items : List Expr, (∀ e ∈ items, e.unspanned.isSyntactic = e.isSyntactic) →
      allSyntactic (allUnspanned items) = allSyntactic items := by
    intro items ih
    induction items with
    | nil => simp only [allUnspanned]
    | cons item items ihitems =>
      have hrest := ihitems fun e he => ih e (by simp [he])
      simp only [allUnspanned, allSyntactic, ih item (by simp), hrest]
  induction e using inductionOn with
  | sequence items span ih => simp only [unspanned, isSyntactic, hitems items ih]
  | choice alternatives span ih => simp only [unspanned, isSyntactic, hitems alternatives ih]
  | definition rule ih =>
    obtain ⟨name, body, span⟩ := rule
    simp only [unspanned, isSyntactic]
    exact ih
  | _ => simp_all only [unspanned, isSyntactic]

lemma references_unspanned (e : Expr) :
    e.unspanned.references.map Reference.name = e.references.map Reference.name := by
  have hitems : ∀ items : List Expr,
      (∀ e ∈ items, e.unspanned.references.map Reference.name = e.references.map Reference.name) →
      (itemReferences (allUnspanned items)).map Reference.name =
        (itemReferences items).map Reference.name := by
    intro items ih
    induction items with
    | nil => rw [allUnspanned]
    | cons item items ihitems =>
      rw [allUnspanned, itemReferences, itemReferences, List.map_append, List.map_append,
        ih item (by simp), ihitems fun e he => ih e (by simp [he])]
  induction e using inductionOn with
  | charClass members span ih => simp only [unspanned, references, hitems members ih]
  | sequence items span ih => simp only [unspanned, references, hitems items ih]
  | choice alternatives span ih => simp only [unspanned, references, hitems alternatives ih]
  | definition rule ih =>
    obtain ⟨name, body, span⟩ := rule
    simp only [unspanned, references]
    exact ih
  | grammar imports definitions span ih =>
    simp only [unspanned, references]
    induction definitions with
    | nil => rw [definitionsUnspanned]
    | cons d definitions ihdefinitions =>
      obtain ⟨name, body, span⟩ := d
      have hbody := ih ⟨name, body, span⟩ (by simp)
      rw [definitionsUnspanned, definitionReferences, definitionReferences, List.map_append,
        List.map_append, hbody, ihdefinitions fun d hd => ih d (by simp [hd])]
  | _ => simp_all only [unspanned, references, List.map_cons, List.map_nil]

lemma emptyChoices_unspanned (e : Expr) : e.unspanned.emptyChoices = [] ↔ e.emptyChoices = [] := by
  have hitems : ∀ items : List Expr,
      (∀ e ∈ items, e.unspanned.emptyChoices = [] ↔ e.emptyChoices = []) →
      (itemEmptyChoices (allUnspanned items) = [] ↔ itemEmptyChoices items = []) := by
    intro items ih
    induction items with
    | nil => rw [allUnspanned]
    | cons item items ihitems =>
      rw [allUnspanned, itemEmptyChoices, itemEmptyChoices, List.append_eq_nil_iff,
        List.append_eq_nil_iff, ih item (by simp), ihitems fun e he => ih e (by simp [he])]
  have hgroups : ∀ (items : List Expr) (span : Span),
      (∀ e ∈ items, e.unspanned.emptyChoices = [] ↔ e.emptyChoices = []) →
      ((if (allUnspanned items).isEmpty then [({} : Span)] else []) ++
        itemEmptyChoices (allUnspanned items) = [] ↔
      (if items.isEmpty then [span] else []) ++ itemEmptyChoices items = []) := by
    intro items span ih
    rw [List.append_eq_nil_iff, List.append_eq_nil_iff, hitems items ih]
    cases items with
    | nil => simp [allUnspanned]
    | cons item items => simp [allUnspanned]
  induction e using inductionOn with
  | charClass members span ih => simp only [unspanned, emptyChoices, hgroups members span ih]
  | sequence items span ih => simp only [unspanned, emptyChoices, hitems items ih]
  | choice alternatives span ih => simp only [unspanned, emptyChoices, hgroups alternatives span ih]
  | definition rule ih =>
    obtain ⟨name, body, span⟩ := rule
    simp only [unspanned, emptyChoices]
    exact ih
  | grammar imports definitions span ih =>
    simp only [unspanned, emptyChoices]
    induction definitions with
    | nil => rw [definitionsUnspanned]
    | cons d definitions ihdefinitions =>
      obtain ⟨name, body, span⟩ := d
      have hbody : body.unspanned.emptyChoices = [] ↔ body.emptyChoices = [] :=
        ih ⟨name, body, span⟩ (by simp)
      have hrest := ihdefinitions fun d hd => ih d (by simp [hd])
      rw [definitionsUnspanned, definitionEmptyChoices, definitionEmptyChoices,
        List.append_eq_nil_iff, List.append_eq_nil_iff]
      exact and_congr hbody hrest
  | _ => simp_all only [unspanned, emptyChoices]

/-- A group of several items, or the only item, in normal form. -/
lemma normal_sequence_of_two_le {items : List Expr} {span : Span} (h : 2 ≤ items.length) :
    (sequence items span).normal = sequence (items.map normal) span := by
  match items with
  | [] => simp at h
  | [_] => simp at h
  | _ :: _ :: _ => simp only [normal, allNormal_eq_map]

lemma normal_choice_of_two_le {alternatives : List Expr} {span : Span}
    (h : 2 ≤ alternatives.length) :
    (choice alternatives span).normal = choice (alternatives.map normal) span := by
  match alternatives with
  | [] => simp at h
  | [_] => simp at h
  | _ :: _ :: _ => simp only [normal, allNormal_eq_map]

end Expr

end LabeledPeg
