import LabeledPeg.Span
import LabeledPeg.Text.Quoted

/-!
# What can be wrong with a grammar

One constructor for each cause, from the reading of a text to the options of the generated code,
with the message that reports it and the place it points at.
-/

namespace LabeledPeg

/-- Why a grammar file cannot be read. -/
inductive ReadFault where
  | notFound
  | isDirectory
  | notText
  | other (description : String)
deriving DecidableEq

/-- What the system says about a file that cannot be read. -/
def ReadFault.message : ReadFault → String
  | notFound => "No such file or directory (os error 2)"
  | isDirectory => "Is a directory (os error 21)"
  | notText => "stream did not contain valid UTF-8"
  | other description => description

/-- The options of a generated parser that can hold a bad value. -/
inductive OptionName where
  | moduleName
  | typeSuffix
  | runtimePath
deriving DecidableEq

/-- How an option is called in messages. -/
def OptionName.text : OptionName → String
  | moduleName => "module_name"
  | typeSuffix => "type_suffix"
  | runtimePath => "runtime_path"

/-- Why a grammar is refused. -/
inductive GrammarError where
  | badSyntax (message : String) (span : Span)
  | duplicateDefinition (name : String) (first second : Span)
  | unresolvedIdentifier (name : String) (span : Span)
  | missingImport (name path : String) (span : Span)
  | conflictingDefinition (name firstOrigin secondOrigin : String) (span : Span)
  | importCycle (chain : List String)
  | importNotFound (path reason : String)
  | unreadable (path : String) (fault : ReadFault)
  | emptyChoice (span : Span)
  | unassembledImport (path : String) (span : Span)
  | invalidOption (option : OptionName) (value : String)
deriving DecidableEq

namespace GrammarError

/-- The message that reports an error. -/
def message : GrammarError → String
  | badSyntax message span => "syntax error at " ++ span.text ++ ": " ++ message
  | duplicateDefinition name first second =>
    "duplicate definition of `" ++ name ++ "` at " ++ second.text ++
      " (first defined at " ++ first.text ++ ")"
  | unresolvedIdentifier name span => "unresolved identifier `" ++ name ++ "` at " ++ span.text
  | missingImport name path span =>
    "`" ++ name ++ "` is not defined in \"" ++ path ++ "\" (imported at " ++ span.text ++ ")"
  | conflictingDefinition name firstOrigin secondOrigin _ =>
    "conflicting definitions of `" ++ name ++ "` from " ++ firstOrigin ++ " and " ++ secondOrigin
  | importCycle chain => "import cycle: " ++ " -> ".intercalate chain
  | importNotFound path reason => "cannot resolve import \"" ++ path ++ "\": " ++ reason
  | unreadable path fault => "failed to read grammar file " ++ path ++ ": " ++ fault.message
  | emptyChoice span => "choice without alternatives at " ++ span.text
  | unassembledImport path span =>
    "import of \"" ++ path ++ "\" at " ++ span.text ++ " must be assembled before generation"
  | invalidOption option value =>
    "invalid value " ++ Text.quoted value ++ " for option `" ++ option.text ++ "`"

/-- The place in the grammar text that an error points at; a duplicate points at the second
definition. -/
def span? : GrammarError → Option Span
  | badSyntax _ span | unresolvedIdentifier _ span | missingImport _ _ span
  | conflictingDefinition _ _ _ span | emptyChoice span | unassembledImport _ span => some span
  | duplicateDefinition _ _ second => some second
  | importCycle _ | importNotFound _ _ | unreadable _ _ | invalidOption _ _ => none

end GrammarError

end LabeledPeg
