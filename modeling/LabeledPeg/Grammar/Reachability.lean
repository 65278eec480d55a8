import LabeledPeg.Grammar.Usage

/-!
# Reachable rules

A rule reaches the rules whose names stand in its body. The closure of a set of names grows in
rounds; as every round but the last adds a rule, as many rounds as there are rules are enough.
-/

namespace LabeledPeg

namespace Grammar

/-- Whether the body of some rule in `found` refers to `name`. -/
def refersTo (g : Grammar) (found : List String) (name : String) : Bool :=
  g.definitions.any fun d =>
    found.contains d.name && d.body.references.any (·.name == name)

/-- One round of the closure: the defined names that were found before, or that a rule found before
refers to. -/
def expand (g : Grammar) (found : List String) : List String :=
  g.names.filter fun name => found.contains name || g.refersTo found name

/-- As many as `rounds` rounds of the closure, starting from `found`. -/
def expandBy (g : Grammar) : Nat → List String → List String
  | 0, found => found
  | rounds + 1, found => g.expandBy rounds (g.expand found)

/-- The names that can be reached from `roots`, the defined ones among `roots` included, in the
order of the definitions. Names without a definition lead nowhere. -/
def reachable (g : Grammar) (roots : List String) : List String :=
  g.expandBy g.definitions.length (g.names.filter roots.contains)

/-- What one round adds is exactly what a rule found before refers to. -/
theorem mem_expand {g : Grammar} {found : List String} {name : String} :
    name ∈ g.expand found ↔ name ∈ g.names ∧ (name ∈ found ∨
      ∃ d ∈ g.definitions, d.name ∈ found ∧ ∃ r ∈ d.body.references, r.name = name) := by
  simp [expand, refersTo]

end Grammar

end LabeledPeg
