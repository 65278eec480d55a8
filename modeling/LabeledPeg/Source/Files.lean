import LabeledPeg.Grammar.Assembly
import LabeledPeg.Source.Document

/-!
# Grammar files

Grammars in a tree of files. An import path is the path of a file below the base directory; a
component `.` stays where it is, so different paths can lead to one file.
-/

namespace LabeledPeg

/-- Files below a base directory, each with its path and its bytes. -/
structure FileTree where
  files : List (String × ByteArray)

namespace FileTree

/-- The components of a path that lead somewhere. -/
def components (path : String) : List String :=
  (((path.toList.splitOn '/').map String.ofList)).filter fun c => c != "" && c != "."

/-- The text of the file at a path. -/
def readText (tree : FileTree) (path : String) : Except ReadFault String :=
  let place := components path
  match tree.files.find? (fun (name, _) => components name == place) with
  | some (_, bytes) =>
    match String.fromUTF8? bytes with
    | some text => .ok text
    | none => .error .notText
  | none =>
    if place.isEmpty || tree.files.any (fun (name, _) => place.isPrefixOf (components name)) then
      .error .isDirectory
    else .error .notFound

/-- The grammar in the file at a path. -/
def load (tree : FileTree) : Resolver := fun path =>
  match tree.readText path with
  | .ok text => Grammar.read text
  | .error fault => .error (.unreadable path fault)

/-- The import paths in all files that hold a grammar. -/
def mentions (tree : FileTree) : List String :=
  tree.files.flatMap fun (name, _) =>
    match tree.load name with
    | .ok g => g.imports.map Import.path
    | .error _ => []

/-- Assembles a root grammar from the files. The grammars being closed inside one another have
different paths, and each path stands in a file or in the root. -/
def assemble (tree : FileTree) (rootPath? : Option String) (root : Grammar) :
    Option (Except GrammarError Grammar) :=
  (tree.load.assemble (tree.mentions.length + root.imports.length + 1) rootPath? root {}).result?

/-- The assembled grammar of the file at a path. -/
def grammar (tree : FileTree) (path : String) : Option (Except GrammarError Grammar) :=
  match tree.load path with
  | .ok root => tree.assemble (some path) root
  | .error e => some (.error e)

end FileTree

end LabeledPeg
