/-!
# Options of generated parsers

How a generated parser is called and which runtime it builds on.
-/

namespace LabeledPeg

/-- The languages a parser can be generated in. -/
inductive Target where
  | rust
  | go
deriving DecidableEq

/-- The names in a generated parser: the module or package it stands in, what is appended to the
name of its type, and the runtime if it is not the usual one of the target. -/
structure Options where
  moduleName : String := "parser"
  typeSuffix : String := ""
  runtimePath? : Option String := none
deriving DecidableEq

/-- The name of the parser type. -/
def Options.parserType (o : Options) : String := "Parser" ++ o.typeSuffix

end LabeledPeg
