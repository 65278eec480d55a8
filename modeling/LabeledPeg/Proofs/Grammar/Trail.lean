import LabeledPeg.Proofs.Grammar.Library
import Mathlib.Data.List.Chain
import Mathlib.Data.List.Dedup
import Mathlib.Data.List.Perm.Subperm

/-!
# Trails of imports

The grammars that are closed inside one another lie on a trail: each one is imported by the one
before it, and no path comes twice. So a trail through a library is no longer than the library has
paths, the path of the root apart, and a trail that meets one of its own paths again shows a cycle.
-/

namespace LabeledPeg

/-- The paths of a library, each once. -/
def Library.paths (library : Library) : List String := (library.map Prod.fst).dedup

/-- A root grammar, or grammars that are imported one by the other: `stack` holds their paths in
order, and the last of them is `g`. No path is taken twice. -/
inductive Sources.Trail (sources : Sources) (rootPath? : Option String) (root : Grammar) :
    List String → Grammar → Prop
  | root : Trail sources rootPath? root rootPath?.toList root
  | step {stack : List String} {g behind : Grammar} {i : Import}
    (h : Trail sources rootPath? root stack g) (hi : i ∈ g.imports) (hnew : i.path ∉ stack)
    (hbehind : sources i.path = some behind) :
    Trail sources rootPath? root (stack ++ [i.path]) behind

/-- Where a trail of imports begins: with the path of the root, or with an import of a root that has
none. -/
def Grammar.StartsAt (root : Grammar) (rootPath? : Option String) (path : String) : Prop :=
  rootPath? = some path ∨ rootPath? = none ∧ ∃ i ∈ root.imports, i.path = path

namespace Sources.Trail

variable {sources : Sources} {rootPath? : Option String} {root g : Grammar} {stack : List String}

theorem nodup (h : sources.Trail rootPath? root stack g) : stack.Nodup := by
  induction h with
  | root => cases rootPath? <;> simp
  | @step stack _ _ i _ _ hnew _ ih =>
    rw [List.nodup_append]
    refine ⟨ih, List.nodup_singleton _, ?_⟩
    rintro path hpath _ hlast rfl
    rw [List.mem_singleton.mp hlast] at hpath
    exact hnew hpath

/-- The path of the root is never left. -/
lemma root_subset (h : sources.Trail rootPath? root stack g) : rootPath?.toList ⊆ stack := by
  induction h with
  | root => exact List.Subset.refl _
  | step _ _ _ _ ih => exact fun path hpath => List.mem_append_left _ (ih hpath)

lemma eq_root_of_nil (h : sources.Trail rootPath? root [] g) : rootPath? = none ∧ g = root := by
  generalize hstack : ([] : List String) = stack at h
  cases h with
  | root =>
    cases rootPath? with
    | none => exact ⟨rfl, rfl⟩
    | some path => cases hstack
  | step _ _ _ _ => simp at hstack

theorem startsAt (h : sources.Trail rootPath? root stack g) :
    ∀ path ∈ stack.head?, root.StartsAt rootPath? path := by
  induction h with
  | root =>
    intro path hpath
    cases rootPath? with
    | none => cases hpath
    | some _ => exact .inl hpath
  | @step stack g _ i h hi _ _ ih =>
    cases stack with
    | nil =>
      -- the first import of a root without a path
      obtain ⟨hnone, rfl⟩ := h.eq_root_of_nil
      intro path hpath
      exact .inr ⟨hnone, i, hi, Option.some.inj hpath⟩
    | cons first rest => exact ih

section Root

variable (hroot : ∀ path, rootPath? = some path → sources path = some root)
include hroot

lemma source_of_getLast? (h : sources.Trail rootPath? root stack g) :
    ∀ path ∈ stack.getLast?, sources path = some g := by
  cases h with
  | root =>
    intro path hpath
    cases rootPath? with
    | none => cases hpath
    | some _ => exact hroot path hpath
  | step _ _ _ hbehind =>
    intro path hpath
    rw [List.getLast?_concat] at hpath
    rw [← Option.some.inj hpath]
    exact hbehind

/-- The last grammar of a trail imports the path with which the trail goes on. -/
lemma isChain_append (h : sources.Trail rootPath? root stack g) {i : Import} (hi : i ∈ g.imports)
    (hstack : stack.IsChain sources.Edge) : (stack ++ [i.path]).IsChain sources.Edge := by
  rw [List.isChain_append]
  refine ⟨hstack, List.isChain_singleton _, ?_⟩
  intro path hpath path' hpath'
  obtain rfl : i.path = path' := Option.some.inj hpath'
  exact ⟨g, h.source_of_getLast? hroot path hpath, i, hi, rfl⟩

theorem isChain (h : sources.Trail rootPath? root stack g) : stack.IsChain sources.Edge := by
  induction h with
  | root => cases rootPath? <;> simp
  | step h hi _ _ ih => exact h.isChain_append hroot hi ih

end Root

/-- A trail through a library takes each of its paths at most once, and that of the root. -/
theorem length_le {library : Library}
    (h : (library.sources rootPath? root).Trail rootPath? root stack g) :
    stack.length ≤ library.paths.length + 1 := by
  have hsubset : stack ⊆ rootPath?.toList ++ library.paths := by
    induction h with
    | root => exact List.subset_append_left _ _
    | @step stack _ _ i h _ hnew hbehind ih =>
      have hne : rootPath? ≠ some i.path := by
        rintro rfl
        exact hnew (h.root_subset (List.mem_singleton_self _))
      rw [Library.sources, if_neg hne] at hbehind
      obtain ⟨before, after, heq, -⟩ := List.lookup_eq_some_iff.mp hbehind
      have hpath : i.path ∈ library.paths := by simp [Library.paths, heq]
      intro path hmem
      rcases List.mem_append.mp hmem with hmem | hmem
      · exact ih hmem
      · exact List.mem_append_right _ (List.mem_singleton.mp hmem ▸ hpath)
  have hlength : stack.length ≤ (rootPath?.toList ++ library.paths).length :=
    (h.nodup.subperm hsubset).length_le
  have hone : rootPath?.toList.length ≤ 1 := by cases rootPath? <;> simp
  rw [List.length_append] at hlength
  omega

end Sources.Trail

end LabeledPeg
