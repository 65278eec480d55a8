import LabeledPeg.Proofs.Grammar.Expression

/-!
# Equality of grammars

Whether two nodes are equal can be computed, spans included, and so it can be for grammars. What a given
text is read as is then a matter of computation.
-/

namespace LabeledPeg

namespace Expr

mutual

/-- Whether two nodes are equal. -/
def same : Expr → Expr → Bool
  | any span, any span' => span == span'
  | literal value span, literal value' span' => value == value' && span == span'
  | identifier name span, identifier name' span' => name == name' && span == span'
  | range lo hi span, range lo' hi' span' => lo == lo' && hi == hi' && span == span'
  | charClass members span, charClass members' span' => allSame members members' && span == span'
  | optional body span, optional body' span' | zeroOrMore body span, zeroOrMore body' span'
  | oneOrMore body span, oneOrMore body' span' | andPredicate body span, andPredicate body' span'
  | notPredicate body span, notPredicate body' span' | lexical body span, lexical body' span' =>
    body.same body' && span == span'
  | labeled label body span, labeled label' body' span' =>
    label == label' && body.same body' && span == span'
  | sequence items span, sequence items' span' => allSame items items' && span == span'
  | choice alternatives span, choice alternatives' span' =>
    allSame alternatives alternatives' && span == span'
  | definition ⟨name, body, span⟩, definition ⟨name', body', span'⟩ =>
    name == name' && body.same body' && span == span'
  | imported clause, imported clause' => clause == clause'
  | grammar imports definitions span, grammar imports' definitions' span' =>
    imports == imports' && allDefineSame definitions definitions' && span == span'
  | _, _ => false

/-- Whether two lists of nodes are equal. -/
def allSame : List Expr → List Expr → Bool
  | [], [] => true
  | item :: items, item' :: items' => item.same item' && allSame items items'
  | _, _ => false

/-- Whether two lists of definitions are equal. -/
def allDefineSame : List Definition → List Definition → Bool
  | [], [] => true
  | ⟨name, body, span⟩ :: definitions, ⟨name', body', span'⟩ :: definitions' =>
    name == name' && body.same body' && span == span' && allDefineSame definitions definitions'
  | _, _ => false

end

lemma allSame_iff {items items' : List Expr} (h : ∀ e ∈ items, ∀ e', e.same e' = true ↔ e = e') :
    allSame items items' = true ↔ items = items' := by
  induction items generalizing items' with
  | nil => cases items' <;> simp [allSame]
  | cons item items ih =>
    cases items' with
    | nil => simp [allSame]
    | cons item' items' =>
      have hrest : allSame items items' = true ↔ items = items' :=
        ih fun e he => h e (List.mem_cons_of_mem item he)
      simp [allSame, h item List.mem_cons_self, hrest]

lemma allDefineSame_iff {definitions definitions' : List Definition}
    (h : ∀ d ∈ definitions, ∀ e', d.body.same e' = true ↔ d.body = e') :
    allDefineSame definitions definitions' = true ↔ definitions = definitions' := by
  induction definitions generalizing definitions' with
  | nil => cases definitions' <;> simp [allDefineSame]
  | cons d definitions ih =>
    obtain ⟨name, body, span⟩ := d
    cases definitions' with
    | nil => simp [allDefineSame]
    | cons d' definitions' =>
      obtain ⟨name', body', span'⟩ := d'
      have hbody : body.same body' = true ↔ body = body' := h _ List.mem_cons_self body'
      have hrest : allDefineSame definitions definitions' = true ↔ definitions = definitions' :=
        ih fun d hd => h d (List.mem_cons_of_mem _ hd)
      simp [allDefineSame, hbody, hrest, and_assoc]

/-- Two nodes are equal exactly if they compare equal: the constructors are the same, and so is what
they hold. -/
theorem same_iff (e e' : Expr) : e.same e' = true ↔ e = e' := by
  induction e using inductionOn generalizing e' with
  | any | imported => cases e' <;> simp [same]
  | literal | identifier | range => cases e' <;> simp [same, and_assoc]
  | charClass _ _ ih | sequence _ _ ih | choice _ _ ih => cases e' <;> simp [same, allSame_iff ih]
  | optional _ _ ih | zeroOrMore _ _ ih | oneOrMore _ _ ih | andPredicate _ _ ih
  | notPredicate _ _ ih | lexical _ _ ih => cases e' <;> simp [same, ih]
  | labeled _ _ _ ih => cases e' <;> simp [same, ih, and_assoc]
  | definition rule ih =>
    obtain ⟨name, body, span⟩ := rule
    cases e' with
    | definition rule' =>
      obtain ⟨name', body', span'⟩ := rule'
      simp [same, ih, and_assoc]
    | _ => simp [same]
  | grammar _ _ _ ih => cases e' <;> simp [same, allDefineSame_iff ih, and_assoc]

/-- Nodes are compared by `same`, so that the kernel can compute their equality. -/
instance : DecidableEq Expr := fun e e' => decidable_of_iff _ (same_iff e e')

end Expr

deriving instance DecidableEq for Rule
deriving instance DecidableEq for Grammar

end LabeledPeg
