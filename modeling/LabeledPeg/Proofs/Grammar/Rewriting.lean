import LabeledPeg.Proofs.Grammar.Expression
import LabeledPeg.Grammar.Reachability

/-!
# Grammars with other bodies

A grammar in which every definition has another body defines the same names. If the new bodies refer
to the same names as the old ones, the same rules can be reached in both grammars.
-/

namespace LabeledPeg.Grammar

/-- The grammar with the body that `f` makes of each definition. -/
def mapBodies (f : Definition → Expr) (g : Grammar) : Grammar where
  imports := g.imports
  definitions := g.definitions.map fun d => { d with body := f d }
  span := g.span
  distinct := by
    rw [List.map_map]
    exact g.distinct

variable {f : Definition → Expr} {g : Grammar}

@[simp] lemma names_mapBodies : (g.mapBodies f).names = g.names := by
  simp only [names, mapBodies, List.map_map]
  rfl

lemma definition?_mapBodies (name : String) :
    (g.mapBodies f).definition? name =
      (g.definition? name).map fun d => { d with body := f d } := by
  simp only [definition?, mapBodies, List.find?_map]
  rfl

lemma defines_mapBodies (name : String) : (g.mapBodies f).defines name = g.defines name := by
  rw [Bool.eq_iff_iff, defines_iff, defines_iff, names_mapBodies]

lemma resolves_mapBodies (name : String) : (g.mapBodies f).resolves name = g.resolves name := by
  rw [resolves, resolves, defines_mapBodies]

section SameReferences

variable (h : ∀ d ∈ g.definitions, (f d).references = d.body.references)
include h

lemma refersTo_mapBodies (found : List String) (name : String) :
    (g.mapBodies f).refersTo found name = g.refersTo found name := by
  simp only [refersTo, mapBodies, List.any_map]
  rw [Bool.eq_iff_iff, List.any_eq_true, List.any_eq_true]
  apply exists_congr
  intro d
  apply and_congr_right
  intro hd
  simp only [Function.comp_apply, h d hd]

lemma expandBy_mapBodies (rounds : Nat) (found : List String) :
    (g.mapBodies f).expandBy rounds found = g.expandBy rounds found := by
  induction rounds generalizing found with
  | zero => rfl
  | succ rounds ih => simp only [expandBy, expand, names_mapBodies, refersTo_mapBodies h, ih]

theorem reachable_mapBodies (roots : List String) :
    (g.mapBodies f).reachable roots = g.reachable roots := by
  have hlength : (g.mapBodies f).definitions.length = g.definitions.length := List.length_map _
  rw [reachable, reachable, hlength, names_mapBodies, expandBy_mapBodies h]

end SameReferences

end LabeledPeg.Grammar
