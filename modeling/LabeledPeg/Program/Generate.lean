import LabeledPeg.Program.Compile
import LabeledPeg.Program.Go
import LabeledPeg.Program.Rust

/-!
# Generated parsers

The source of the parser of a grammar, in the language and with the names that are asked for. The
options are checked before the grammar is looked at.
-/

namespace LabeledPeg

/-- The source of the parser of a grammar that has no imports left. -/
def Grammar.generate (g : Grammar) (target : Target) (o : Options) : Except CompileError String :=
  match target with
  | .go => do
    let names ← (Go.Names.ofOptions o).mapError .refused
    return Go.write names (← g.compile)
  | .rust => do
    let names ← (Rust.Names.ofOptions o).mapError .refused
    return Rust.write names (← g.compile)

end LabeledPeg
