import LabeledPeg.Proofs.Grammar.Expression

/-!
# The nodes of an expression

The nodes right below a node, and the nodes anywhere below it. A traversal that adds to what a node
itself holds what it finds in the nodes right below forgets nothing: it finds what some node holds,
and nothing else. The collections of rule names and of empty choices are traversals of this kind.
-/

namespace LabeledPeg.Expr

/-- The nodes right below a node. -/
def children : Expr → List Expr
  | any _ | literal _ _ | identifier _ _ | range _ _ _ | imported _ => []
  | optional body _ | zeroOrMore body _ | oneOrMore body _ | andPredicate body _
  | notPredicate body _ | lexical body _ | labeled _ body _ => [body]
  | charClass items _ | sequence items _ | choice items _ => items
  | definition rule => [rule.body]
  | grammar _ definitions _ => definitions.map (·.body)

/-- Whether a node is the expression itself or stands anywhere below it. -/
inductive Within (node : Expr) : Expr → Prop
  | self : Within node node
  | deeper {e child : Expr} (hchild : child ∈ e.children) (h : Within node child) : Within node e

lemma Within.trans {e e' e'' : Expr} (h : e.Within e') (h' : e'.Within e'') : e.Within e'' := by
  induction h' with
  | self => exact h
  | deeper hchild _ ih => exact .deeper hchild ih

/-- Induction over a node from the nodes right below it. -/
theorem inductionOnChildren {motive : Expr → Prop} (e : Expr)
    (node : ∀ e, (∀ child ∈ e.children, motive child) → motive e) : motive e := by
  induction e using inductionOn with
  | any | literal | identifier | range | imported => exact node _ (List.forall_mem_nil _)
  | charClass _ _ ih | sequence _ _ ih | choice _ _ ih => exact node _ ih
  | optional _ _ ih | zeroOrMore _ _ ih | oneOrMore _ _ ih | andPredicate _ _ ih
  | notPredicate _ _ ih | lexical _ _ ih | labeled _ _ _ ih | definition _ ih =>
    exact node _ (List.forall_mem_singleton.mpr ih)
  | grammar _ _ _ ih => exact node _ (List.forall_mem_map.mpr ih)

section Collection

variable {β : Type} {collect own : Expr → List β}

/-- What a traversal finds in an expression is what the nodes of the expression hold. -/
theorem mem_collect_iff (hcollect : ∀ e, collect e = own e ++ e.children.flatMap collect)
    {e : Expr} {b : β} : b ∈ collect e ↔ ∃ node : Expr, node.Within e ∧ b ∈ own node := by
  constructor
  · intro h
    induction e using inductionOnChildren with
    | node e ih =>
      rw [hcollect, List.mem_append, List.mem_flatMap] at h
      obtain hown | ⟨child, hchild, hmem⟩ := h
      · exact ⟨e, .self, hown⟩
      · obtain ⟨node, hnode, hown⟩ := ih child hchild hmem
        exact ⟨node, .deeper hchild hnode, hown⟩
  · rintro ⟨node, hnode, hown⟩
    induction hnode with
    | self =>
      rw [hcollect]
      exact List.mem_append_left _ hown
    | deeper hchild _ ih =>
      rw [hcollect]
      exact List.mem_append_right _ (List.mem_flatMap.mpr ⟨_, hchild, ih⟩)

end Collection

/-- The rule name that a node is. -/
def ownReferences : Expr → List Reference
  | identifier name span => [⟨name, span⟩]
  | _ => []

/-- The span of a node that is a choice or class without items. -/
def ownEmptyChoices : Expr → List Span
  | charClass [] span | choice [] span => [span]
  | _ => []

lemma references_eq (e : Expr) :
    e.references = e.ownReferences ++ e.children.flatMap references := by
  cases e <;>
    simp [references, ownReferences, children, itemReferences_eq_flatMap,
      definitionReferences_eq_flatMap, List.flatMap_map]

lemma emptyChoices_eq (e : Expr) :
    e.emptyChoices = e.ownEmptyChoices ++ e.children.flatMap emptyChoices := by
  cases e with
  | charClass items | choice items =>
    cases items <;>
      simp [emptyChoices, ownEmptyChoices, children, itemEmptyChoices_eq_flatMap]
  | _ =>
    simp [emptyChoices, ownEmptyChoices, children, itemEmptyChoices_eq_flatMap,
      definitionEmptyChoices_eq_flatMap, List.flatMap_map]

/-- The rule names of an expression are its identifier nodes. -/
theorem mem_references_iff {e : Expr} {r : Reference} :
    r ∈ e.references ↔ (identifier r.name r.span).Within e := by
  rw [mem_collect_iff references_eq]
  constructor
  · rintro ⟨node, hnode, hown⟩
    cases node with
    | identifier name span =>
      obtain rfl := List.mem_singleton.mp hown
      exact hnode
    | _ => cases hown
  · intro h
    exact ⟨_, h, List.mem_singleton_self r⟩

/-- The empty choices of an expression are its choice and class nodes without items. -/
theorem mem_emptyChoices_iff {e : Expr} {span : Span} :
    span ∈ e.emptyChoices ↔ (choice [] span).Within e ∨ (charClass [] span).Within e := by
  rw [mem_collect_iff emptyChoices_eq]
  constructor
  · rintro ⟨node, hnode, hown⟩
    match node, hown with
    | choice [] _, hown =>
      obtain rfl := List.mem_singleton.mp hown
      exact .inl hnode
    | charClass [] _, hown =>
      obtain rfl := List.mem_singleton.mp hown
      exact .inr hnode
  · rintro (h | h)
    · exact ⟨_, h, List.mem_singleton_self span⟩
    · exact ⟨_, h, List.mem_singleton_self span⟩

end LabeledPeg.Expr
