import LabeledPeg.Grammar.Assembly
import LabeledPeg.Proofs.Grammar.Expression
import Mathlib.Logic.Relation

/-!
# What a library says

The closed set of a grammar is its own definitions with what its imports select: everything in the
closed set behind a path, or the names that are asked for with all that they reach in it. A root
grammar can be assembled from a library if every path that it reaches is there and lies on no cycle
of imports, every name that is asked for is there, no name stands for two bodies, and the closed set
of the root leaves no name open and no choice empty.
-/

namespace LabeledPeg

/-- The grammars behind import paths. -/
abbrev Sources := String → Option Grammar

/-- The grammars of a library, with the root grammar behind its own path. -/
def Library.sources (library : Library) (rootPath? : Option String) (root : Grammar) : Sources :=
  fun path => if rootPath? = some path then some root else library.lookup path

/-- The names that an import asks for, unless it takes everything. -/
def Import.selection (i : Import) : Option (List String) :=
  if i.takesAll then none else some i.names

namespace Sources

variable (sources : Sources)

/-- Whether a definition is in the closed set of a grammar, or in the part of it that names select:
`own` and `imported` make up the whole set, `asked` and `needed` a part. -/
inductive Belongs : Grammar → Option (List String) → Definition → Prop where
  | own {g : Grammar} {d : Definition} (hd : d ∈ g.definitions) : Belongs g none d
  | imported {g behind : Grammar} {i : Import} {d : Definition} (hi : i ∈ g.imports)
    (hbehind : sources i.path = some behind) (hd : Belongs behind i.selection d) : Belongs g none d
  | asked {g : Grammar} {names : List String} {d : Definition} (hd : Belongs g none d)
    (hname : d.name ∈ names) : Belongs g (some names) d
  | needed {g : Grammar} {names : List String} {d d' : Definition} {r : Reference}
    (hd : Belongs g (some names) d) (hr : r ∈ d.body.references) (hd' : Belongs g none d')
    (hname : d'.name = r.name) : Belongs g (some names) d'

/-- Whether a definition is in the closed set of a grammar. -/
abbrev Closed (g : Grammar) (d : Definition) : Prop := sources.Belongs g none d

/-- Whether an import selects a definition. -/
def Selects (i : Import) (d : Definition) : Prop :=
  ∃ behind, sources i.path = some behind ∧ sources.Belongs behind i.selection d

/-- Whether the grammar behind one path imports another path. -/
def Edge (path path' : String) : Prop :=
  ∃ g, sources path = some g ∧ ∃ i ∈ g.imports, i.path = path'

/-- Whether one path leads to another, in any number of imports. -/
abbrev Leads : String → String → Prop := Relation.ReflTransGen sources.Edge

/-- Whether a path lies on a cycle of imports. -/
def Cyclic (path : String) : Prop := Relation.TransGen sources.Edge path path

/-- Whether the imports of a grammar reach a path. -/
def Reached (root : Grammar) (path : String) : Prop :=
  ∃ i ∈ root.imports, sources.Leads i.path path

/-- Whether a name is defined in the closed set behind a path. -/
def Defines (path name : String) : Prop :=
  ∃ behind, sources path = some behind ∧ ∃ d, sources.Closed behind d ∧ d.name = name

/-- Whether the names that the imports of a grammar ask for are there, and no name in its closed set
stands for two bodies. -/
structure Consistent (g : Grammar) : Prop where
  defined : ∀ i ∈ g.imports, ∀ name ∈ i.names, sources.Defines i.path name
  agree : ∀ d d', sources.Closed g d → sources.Closed g d' → d.name = d'.name →
    d.body.text = d'.body.text

/-- Whether every path that a path leads to is there, is consistent and lies on no cycle. -/
def Closable (path : String) : Prop :=
  ∀ path', sources.Leads path path' →
    (∃ g, sources path' = some g ∧ sources.Consistent g) ∧ ¬ sources.Cyclic path'

variable {sources}

lemma Closable.of_leads {path path' : String} (h : sources.Closable path)
    (hleads : sources.Leads path path') : sources.Closable path' :=
  fun path'' hleads' => h path'' (hleads.trans hleads')

lemma closed_iff {g : Grammar} {d : Definition} :
    sources.Closed g d ↔ d ∈ g.definitions ∨ ∃ i ∈ g.imports, sources.Selects i d := by
  constructor
  · intro h
    cases h with
    | own hd => exact .inl hd
    | imported hi hbehind hd => exact .inr ⟨_, hi, _, hbehind, hd⟩
  · rintro (hd | ⟨i, hi, behind, hbehind, hd⟩)
    · exact .own hd
    · exact .imported hi hbehind hd

lemma Belongs.closed {g : Grammar} {selection : Option (List String)} {d : Definition}
    (h : sources.Belongs g selection d) : sources.Closed g d := by
  cases h with
  | own hd => exact .own hd
  | imported hi hbehind hd => exact .imported hi hbehind hd
  | asked hd _ => exact hd
  | needed _ _ hd' _ => exact hd'

lemma selects_iff {behind : Grammar} {i : Import} {d : Definition}
    (hbehind : sources i.path = some behind) :
    sources.Selects i d ↔ sources.Belongs behind i.selection d := by
  constructor
  · rintro ⟨behind', hbehind', hd⟩
    rw [hbehind] at hbehind'
    obtain rfl : behind = behind' := Option.some.inj hbehind'
    exact hd
  · intro hd
    exact ⟨behind, hbehind, hd⟩

lemma defines_iff {behind : Grammar} {path name : String} (hbehind : sources path = some behind) :
    sources.Defines path name ↔ ∃ d, sources.Closed behind d ∧ d.name = name := by
  constructor
  · rintro ⟨behind', hbehind', hd⟩
    rw [hbehind] at hbehind'
    obtain rfl : behind = behind' := Option.some.inj hbehind'
    exact hd
  · intro hd
    exact ⟨behind, hbehind, hd⟩

/-- What holds of all definitions of the grammars involved holds of a closed set. -/
lemma Belongs.holds {P : Definition → Prop}
    (hsources : ∀ path g, sources path = some g → ∀ d ∈ g.definitions, P d) {g : Grammar}
    {selection : Option (List String)} {d : Definition} (h : sources.Belongs g selection d)
    (hg : ∀ d ∈ g.definitions, P d) : P d := by
  induction h with
  | own hd => exact hg _ hd
  | imported _ hbehind _ ih => exact ih (hsources _ _ hbehind)
  | asked _ _ ih => exact ih hg
  | needed _ _ _ _ _ ih' => exact ih' hg

end Sources

/-- Whether a root grammar can be assembled from a library: every path that it reaches is in the
library and lies on no cycle, the root and every grammar that it reaches are consistent, and the
closed set of the root leaves no name open and no choice or class empty. -/
structure Library.Assembles (library : Library) (rootPath? : Option String) (root : Grammar) :
    Prop where
  found : ∀ path, (library.sources rootPath? root).Reached root path →
    ∃ g, library.lookup path = some g
  acyclic : ∀ path, (library.sources rootPath? root).Reached root path →
    ¬ (library.sources rootPath? root).Cyclic path
  consistent : ∀ path g, (library.sources rootPath? root).Reached root path →
    library.sources rootPath? root path = some g → (library.sources rootPath? root).Consistent g
  root_consistent : (library.sources rootPath? root).Consistent root
  resolved : ∀ d, (library.sources rootPath? root).Closed root d → ∀ r ∈ d.body.references,
    (∃ d', (library.sources rootPath? root).Closed root d' ∧ d'.name = r.name) ∨
      isBuiltinName r.name = true
  filled : ∀ d, (library.sources rootPath? root).Closed root d → d.body.emptyChoices = []

end LabeledPeg
