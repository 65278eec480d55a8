import LabeledPeg.Proofs.Grammar.Rewriting
import LabeledPeg.Proofs.Program.Compile

/-!
# Grammars without labels

What is left of a grammar when every label is erased. An expression refers to the same names without
its labels, takes spacing at the same places and has the same empty choices, so that a grammar that
has a parser has one without its labels too.
-/

namespace LabeledPeg

namespace Expr

mutual

/-- A node with every labelled expression in it replaced by its body. -/
def unlabeled : Expr → Expr
  | labeled _ body _ => body.unlabeled
  | charClass members span => charClass (allUnlabeled members) span
  | optional body span => optional body.unlabeled span
  | zeroOrMore body span => zeroOrMore body.unlabeled span
  | oneOrMore body span => oneOrMore body.unlabeled span
  | andPredicate body span => andPredicate body.unlabeled span
  | notPredicate body span => notPredicate body.unlabeled span
  | lexical body span => lexical body.unlabeled span
  | sequence items span => sequence (allUnlabeled items) span
  | choice alternatives span => choice (allUnlabeled alternatives) span
  | e => e

/-- The nodes of a list without labels. -/
def allUnlabeled : List Expr → List Expr
  | [] => []
  | item :: items => item.unlabeled :: allUnlabeled items

end

lemma allUnlabeled_eq_map (items : List Expr) : allUnlabeled items = items.map unlabeled := by
  induction items with
  | nil => simp [allUnlabeled]
  | cons item items ih => simp [allUnlabeled, ih]

/-- A sequence takes spacing with labels if it does without. -/
theorem isSyntactic_unlabeled (e : Expr) : e.unlabeled.isSyntactic = e.isSyntactic := by
  have hitems : ∀ items : List Expr, (∀ e ∈ items, e.unlabeled.isSyntactic = e.isSyntactic) →
      allSyntactic (allUnlabeled items) = allSyntactic items := by
    intro items ih
    induction items with
    | nil => rw [allUnlabeled]
    | cons item items ihitems =>
      have hrest := ihitems fun e he => ih e (by simp [he])
      simp only [allUnlabeled, allSyntactic, ih item (by simp), hrest]
  induction e using inductionOn with
  | sequence items span ih => simp only [unlabeled, isSyntactic, hitems items ih]
  | choice alternatives span ih => simp only [unlabeled, isSyntactic, hitems alternatives ih]
  | _ => simp_all only [unlabeled, isSyntactic]

lemma allSyntactic_allUnlabeled (items : List Expr) :
    allSyntactic (allUnlabeled items) = allSyntactic items := by
  rw [allUnlabeled_eq_map, allSyntactic_eq_all, allSyntactic_eq_all, List.all_map]
  congr 1
  funext e
  exact isSyntactic_unlabeled e

lemma references_unlabeled (e : Expr) : e.unlabeled.references = e.references := by
  have hitems : ∀ items : List Expr, (∀ e ∈ items, e.unlabeled.references = e.references) →
      itemReferences (allUnlabeled items) = itemReferences items := by
    intro items ih
    rw [allUnlabeled_eq_map, itemReferences_eq_flatMap, itemReferences_eq_flatMap, List.flatMap_map]
    exact List.flatMap_congr ih
  induction e using inductionOn with
  | charClass items span ih => simp only [unlabeled, references, hitems items ih]
  | sequence items span ih => simp only [unlabeled, references, hitems items ih]
  | choice items span ih => simp only [unlabeled, references, hitems items ih]
  | _ => simp_all only [unlabeled, references]

lemma emptyChoices_unlabeled (e : Expr) : e.unlabeled.emptyChoices = e.emptyChoices := by
  have hitems : ∀ items : List Expr, (∀ e ∈ items, e.unlabeled.emptyChoices = e.emptyChoices) →
      itemEmptyChoices (allUnlabeled items) = itemEmptyChoices items := by
    intro items ih
    rw [allUnlabeled_eq_map, itemEmptyChoices_eq_flatMap, itemEmptyChoices_eq_flatMap,
      List.flatMap_map]
    exact List.flatMap_congr ih
  have hempty : ∀ items : List Expr, (allUnlabeled items).isEmpty = items.isEmpty := by
    intro items
    rw [allUnlabeled_eq_map, List.isEmpty_map]
  induction e using inductionOn with
  | charClass items span ih => simp only [unlabeled, emptyChoices, hitems items ih, hempty]
  | sequence items span ih => simp only [unlabeled, emptyChoices, hitems items ih]
  | choice items span ih => simp only [unlabeled, emptyChoices, hitems items ih, hempty]
  | _ => simp_all only [unlabeled, emptyChoices]

lemma isPlain_unlabeled (e : Expr) : e.unlabeled.isPlain = e.isPlain := by
  have hitems : ∀ items : List Expr, (∀ e ∈ items, e.unlabeled.isPlain = e.isPlain) →
      allPlain (allUnlabeled items) = allPlain items := by
    intro items ih
    induction items with
    | nil => rw [allUnlabeled]
    | cons item items ihitems =>
      have hrest := ihitems fun e he => ih e (by simp [he])
      simp only [allUnlabeled, allPlain, ih item (by simp), hrest]
  induction e using inductionOn with
  | charClass items span ih => simp only [unlabeled, isPlain, hitems items ih]
  | sequence items span ih => simp only [unlabeled, isPlain, hitems items ih]
  | choice items span ih => simp only [unlabeled, isPlain, hitems items ih]
  | _ => simp_all only [unlabeled, isPlain]

end Expr

namespace Grammar

variable {g : Grammar}

/-- The grammar with every label erased. -/
def unlabeled (g : Grammar) : Grammar := g.mapBodies fun d => d.body.unlabeled

lemma quietRules_unlabeled (g : Grammar) : g.unlabeled.quietRules = g.quietRules :=
  reachable_mapBodies (fun d _ => d.body.references_unlabeled) [spacingName]

lemma isPlain_unlabeled (g : Grammar) : g.unlabeled.isPlain = g.isPlain := by
  rw [isPlain, unlabeled, mapBodies, List.all_map]
  congr 1
  funext d
  exact d.body.isPlain_unlabeled

lemma validate_unlabeled (h : g.validate = .ok ()) : g.unlabeled.validate = .ok () := by
  obtain ⟨himports, hdefinitions⟩ := validate_eq_ok_iff.mp h
  refine validate_eq_ok_iff.mpr ⟨himports, fun d' hd' => ?_⟩
  obtain ⟨d, hd, rfl⟩ := List.mem_map.mp hd'
  obtain ⟨hresolved, hnonempty⟩ := hdefinitions d hd
  refine ⟨fun r hr => ?_, ?_⟩
  · rw [unlabeled, resolves_mapBodies]
    apply hresolved
    rwa [← d.body.references_unlabeled]
  · rwa [← d.body.emptyChoices_unlabeled] at hnonempty

/-- A grammar that comes out of assembly has a parser without its labels. -/
theorem Assembled.compile_unlabeled (hg : g.Assembled) :
    g.unlabeled.compile = .ok g.unlabeled.program := by
  obtain ⟨hplain, hvalid⟩ := hg.isPlain_and_validate
  rw [← isPlain_unlabeled] at hplain
  exact compile_eq_program hplain (validate_unlabeled hvalid)

end Grammar

end LabeledPeg
