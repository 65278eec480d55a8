import LabeledPeg.Outcome
import LabeledPeg.Grammar.Reachability
import LabeledPeg.Grammar.Text
import LabeledPeg.Grammar.Validation

/-!
# Assembly

A grammar with imports is assembled into one without: its own definitions come first, then what its
imports take, in order. The grammar behind a path is closed in the same way, once per path. A path
that is met again while it is being closed is a cycle.
-/

namespace LabeledPeg

/-- A definition, with the path of the grammar that it comes from. -/
structure Sourced where
  definition : Definition
  origin : String

/-- The origin of the definitions of a root grammar that has no path. -/
def rootOrigin : String := "<root>"

/-- Adds a definition to a merged list. A name that is there already has to come with the same body
text; the list stays as it is then. -/
def mergeDefinition (merged : List Sourced) (s : Sourced) : Except GrammarError (List Sourced) :=
  match merged.find? (·.definition.name == s.definition.name) with
  | none => .ok (merged ++ [s])
  | some first =>
    if first.definition.body.text = s.definition.body.text then .ok merged
    else if first.origin = s.origin then
      .error (.duplicateDefinition s.definition.name first.definition.span s.definition.span)
    else
      .error (.conflictingDefinition s.definition.name first.origin s.origin s.definition.span)

/-- Adds definitions one by one. -/
def mergeDefinitions (merged : List Sourced) : List Sourced → Except GrammarError (List Sourced)
  | [] => .ok merged
  | s :: sources => do mergeDefinitions (← mergeDefinition merged s) sources

/-- What an import takes from the closed grammar behind its path: everything, or the names it asks
for and all they reach, in the order of the closed grammar. -/
def Import.select (i : Import) (closed : List Sourced) : Except GrammarError (List Sourced) :=
  if i.takesAll then .ok closed
  else do
    let view ← Grammar.build [] (closed.map (·.definition)) i.span
    match i.names.find? (fun name => !view.defines name) with
    | some name => .error (.missingImport name i.path i.span)
    | none =>
      let taken := view.reachable i.names
      .ok (closed.filter fun s => taken.contains s.definition.name)

/-- Finds the grammar behind an import path. -/
abbrev Resolver := String → Except GrammarError Grammar

/-- What assembly remembers: the grammars closed so far, by path, and for every path that the
resolver was asked for, latest first, the paths that were being closed then, that path last. -/
structure Walk where
  cache : List (String × List Sourced) := []
  visits : List (List String) := []

namespace Walk

/-- The closed grammar of a path, if it was closed before. -/
def closed? (w : Walk) (path : String) : Option (List Sourced) := w.cache.lookup path

/-- Remembers a closed grammar. -/
def remember (w : Walk) (path : String) (closed : List Sourced) : Walk :=
  { w with cache := (path, closed) :: w.cache }

/-- Notes that the last path of `inProgress` is asked for. -/
def visit (w : Walk) (inProgress : List String) : Walk :=
  { w with visits := inProgress :: w.visits }

end Walk

/-- Adds to `merged` what each import takes; `closedAt` closes the grammar behind a path. -/
def mergeImports (closedAt : String → Run GrammarError Walk (List Sourced))
    (merged : List Sourced) : List Import → Run GrammarError Walk (List Sourced)
  | [] => pure merged
  | i :: imports => do
    let closed ← closedAt i.path
    let taken ← Run.ofExcept (i.select closed)
    let next ← Run.ofExcept (mergeDefinitions merged taken)
    mergeImports closedAt next imports

/-- The closed grammar behind `path`, while the paths in `inProgress` are being closed: from the
cache, or resolved and closed by `close`. -/
def closedBehind (resolve : Resolver)
    (close : List String → String → Grammar → Run GrammarError Walk (List Sourced))
    (inProgress : List String) (path : String) : Run GrammarError Walk (List Sourced) := do
  if inProgress.contains path then Run.fail (.importCycle (inProgress ++ [path]))
  else
    match (← Run.current).closed? path with
    | some closed => pure closed
    | none =>
      Run.update (·.visit (inProgress ++ [path]))
      let g ← Run.ofExcept (resolve path)
      let closed ← close (inProgress ++ [path]) path g
      Run.update (·.remember path closed)
      pure closed

/-- The closed set of a grammar found at `origin`, while the paths in `inProgress` are being closed:
its own definitions, then what its imports take. At most `depth` grammars are closed inside one
another. -/
def closeGrammar (resolve : Resolver) :
    Nat → List String → String → Grammar → Run GrammarError Walk (List Sourced)
  | 0, _, _, _ => Run.cutOff
  | depth + 1, inProgress, origin, g => do
    let own ← Run.ofExcept (mergeDefinitions [] (g.definitions.map (⟨·, origin⟩)))
    mergeImports (closedBehind resolve (closeGrammar resolve depth) inProgress) own g.imports

/-- Makes one grammar of a closed set, and validates it. -/
def finishAssembly (root : Grammar) (closed : List Sourced) : Except GrammarError Grammar := do
  let g ← Grammar.build [] (closed.map (·.definition)) root.span
  g.validate
  return g

/-- Assembles a root grammar, found at `rootPath?` if it has a path, with at most `depth` grammars
closed inside one another. -/
def Resolver.assemble (resolve : Resolver) (depth : Nat) (rootPath? : Option String)
    (root : Grammar) : Run GrammarError Walk Grammar := do
  let closed ← closeGrammar resolve depth rootPath?.toList (rootPath?.getD rootOrigin) root
  Run.ofExcept (finishAssembly root closed)

/-- A finite collection of grammars, by path. -/
abbrev Library := List (String × Grammar)

namespace Library

/-- Looks a path up in the collection. -/
def resolve (library : Library) : Resolver := fun path =>
  match library.lookup path with
  | some g => .ok g
  | none => .error (.importNotFound path "no grammar registered under this path")

/-- Assembles a root grammar from the collection. The grammars being closed inside one another have
different paths, so a depth of one more than the collection has is enough. -/
def assemble (library : Library) (rootPath? : Option String) (root : Grammar) :
    Option (Except GrammarError Grammar) :=
  (library.resolve.assemble (library.length + 1) rootPath? root {}).result?

end Library

end LabeledPeg
