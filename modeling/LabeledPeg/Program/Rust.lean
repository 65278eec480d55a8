import LabeledPeg.Grammar.Error
import LabeledPeg.Program.Code
import LabeledPeg.Program.Options
import LabeledPeg.Program.RustName
import LabeledPeg.Text.Quoted

/-!
# Rust parsers

Writes the code of a parser as a Rust module on one line, its tokens a space apart: no space stands
inside round and square brackets, and braces have one on each side. Every fragment is an expression
that gives an optional value or an error.
-/

namespace LabeledPeg.Rust

/-- The names that the source of a parser uses. `runtime` is written as its tokens. -/
structure Names where
  module : String
  parser : String
  runtime : String

/-- The path of the runtime that is used unless the options name another one. -/
def defaultRuntime : String := "::peg_kit"

/-- The names that the options ask for. -/
def Names.ofOptions (o : Options) : Except GrammarError Names :=
  match identifierOf? o.moduleName with
  | none => .error (.invalidOption .moduleName o.moduleName)
  | some module =>
    match identifierOf? o.parserType with
    | none => .error (.invalidOption .typeSuffix o.typeSuffix)
    | some parser =>
      let runtime := o.runtimePath?.getD defaultRuntime
      match pathOf? runtime with
      | none => .error (.invalidOption .runtimePath runtime)
      | some tokens => .ok ⟨module, parser, " ".intercalate tokens⟩

/-- The characters of a string literal. `NUL` is written out in full before an octal digit. -/
def stringChars : List Char → List Char
  | [] => []
  | '\x00' :: c :: rest =>
    (if decide ('0' ≤ c) && decide (c ≤ '7') then ['\\', 'x', '0', '0'] else ['\\', '0']) ++
      stringChars (c :: rest)
  | c :: rest => Text.quotedChar ['"'] c ++ stringChars rest

/-- A string literal. -/
def stringLiteral (value : String) : String :=
  String.ofList ('"' :: stringChars value.toList ++ ['"'])

/-- A group in braces. -/
def braces (inner : String) : String := "\x7b " ++ inner ++ " \x7d"

/-- The type of what a fragment gives. -/
def outputType (n : Names) : String :=
  n.runtime ++ " :: Result < :: core :: option :: Option < " ++ n.runtime ++ " :: Value >>"

/-- A function of the parser that gives what a fragment gives. -/
def closure (n : Names) (body : String) : String :=
  "| p : & mut Self | -> " ++ outputType n ++ " " ++ braces body

/-- The statement that notes where a fragment starts. -/
def noteStart : String := "let start = p . location () ;"

/-- The expression that succeeds with a value. -/
def succeedWith (value : String) : String :=
  ":: core :: result :: Result :: Ok (:: core :: option :: Option :: Some (" ++ value ++ "))"

/-- The expression that succeeds without a value. -/
def succeedEmpty : String :=
  ":: core :: result :: Result :: Ok (:: core :: option :: Option :: None)"

/-- The span from the noted start to where the parser is. -/
def spanSinceStart (n : Names) : String := n.runtime ++ " :: Span :: new (start , p . location ())"

/-- One step of a sequence. -/
def step (code : String) : String :=
  "if let :: core :: option :: Option :: Some (item) = (" ++ code ++ ") ? " ++
    braces "items . push (item) ;"

/-- Steps in order, whose values are collected. -/
def sequenceText (n : Names) (steps : List String) : String :=
  braces (" ".intercalate
    ([noteStart, "let mut items = :: std :: vec :: Vec :: new () ;"] ++ steps.map step ++
      [succeedWith (n.runtime ++ " :: Value :: sequence (items , " ++ spanSinceStart n ++ ")")]))

/-- Alternatives that are tried in order. -/
def choiceText (n : Names) (alternatives : List String) : String :=
  n.runtime ++ " :: choice :: < Self , :: core :: option :: Option < " ++ n.runtime ++
    " :: Value >> (p , & [" ++
    " , ".intercalate (alternatives.map fun code => "& " ++ closure n code) ++ "])"

/-- The runtime function of a repetition. -/
def repetitionName : Repetition → String
  | .zeroOrMore => "zero_or_more"
  | .oneOrMore => "one_or_more"

/-- A repetition, whose values are collected. -/
def repetitionText (n : Names) (kind : Repetition) (body : String) : String :=
  braces (" ".intercalate
    [noteStart,
      "let items = " ++ n.runtime ++ " :: " ++ repetitionName kind ++ " (p , " ++ closure n body ++
        ") ? ;",
      succeedWith (n.runtime ++
        " :: Value :: sequence (items . into_iter () . flatten () . collect () , " ++
        spanSinceStart n ++ " ,)")])

/-- The runtime function of a lookahead. -/
def lookaheadName : Lookahead → String
  | .positive => "and"
  | .negative => "not"

/-- A lookahead. -/
def lookaheadText (n : Names) (kind : Lookahead) (body : String) : String :=
  braces (n.runtime ++ " :: " ++ lookaheadName kind ++ " (p , " ++ closure n body ++ ") ? ; " ++
    succeedEmpty)

/-- The method of a rule, which runs inside a trace span. -/
def procedureText (n : Names) (name body : String) : String :=
  "# [doc = " ++ stringLiteral (" Parses `" ++ name ++ "` at the current position.") ++
    "] pub fn parse_" ++ name ++ " (& mut self) -> " ++ outputType n ++ " " ++
    braces (n.runtime ++ " :: Parser :: traced (self , " ++ stringLiteral name ++ " , " ++
      closure n body ++ ")")

/-- The whole module: the type with the methods of the rules, and its place in the runtime. -/
def sourceText (n : Names) (rules : List String) (procedures : List String) : String :=
  let stateType := n.runtime ++ " :: State"
  let constructors :=
    ["pub fn new (input : & str) -> Self " ++
        braces ("Self " ++ braces ("state : " ++ stateType ++ " :: new (input)")),
      "pub fn with_label_policy (mut self , policy : " ++ n.runtime ++
        " :: LabelPolicy) -> Self " ++ braces "self . state . set_label_policy (policy) ; self"]
  let accessors :=
    ["fn state (& self) -> & " ++ stateType ++ " " ++ braces "& self . state",
      "fn state_mut (& mut self) -> & mut " ++ stateType ++ " " ++ braces "& mut self . state"]
  "pub mod " ++ n.module ++ " " ++ braces (" ".intercalate
    ["# ! [allow (non_snake_case , unused_variables , unused_mut , unused_braces , dead_code)]",
      "use " ++ n.runtime ++ " :: Parser as _ ;",
      "# [doc = r\" Rules of the grammar, in definition order.\"]",
      "pub const GRAMMAR_RULES : & [& str] = & [" ++ " , ".intercalate (rules.map stringLiteral) ++
        "] ;",
      "pub struct " ++ n.parser ++ " " ++ braces ("state : " ++ stateType ++ " ,"),
      "impl " ++ n.parser ++ " " ++ braces (" ".intercalate (constructors ++ procedures)),
      "impl " ++ n.runtime ++ " :: Parser for " ++ n.parser ++ " " ++
        braces (" ".intercalate accessors)])

mutual

/-- The source of a fragment. -/
def fragment (n : Names) : Code → String
  | .sequence steps => sequenceText n (fragments n steps)
  | .choice alternatives => choiceText n (fragments n alternatives)
  | .empty => succeedEmpty
  | .repetition kind body => repetitionText n kind (fragment n body)
  | .lookahead kind body => lookaheadText n kind (fragment n body)
  | .labeled body => braces (noteStart ++ " " ++ fragment n body)
  | .throw label _ =>
    ":: core :: result :: Result :: Err (p . throw (" ++ stringLiteral label ++ " , start))"
  | .call rule _ => "p . parse_" ++ rule ++ " ()"
  | .builtin .spacing _ => "p . spacing ()"
  | .builtin .eof _ => "p . eof ()"
  | .literal value _ => "p . literal (" ++ stringLiteral value ++ ")"
  | .range lo hi _ =>
    "p . range (" ++ Text.quotedCharacter lo ++ " , " ++ Text.quotedCharacter hi ++ ")"
  | .any _ => "p . any ()"
  | .procedure name body => procedureText n name (fragment n body)
  | .program procedures =>
    sourceText n (procedures.map Procedure.name) (procedureFragments n procedures)

/-- The sources of a list of fragments. -/
def fragments (n : Names) : List Code → List String
  | [] => []
  | code :: codes => fragment n code :: fragments n codes

/-- The methods of a list of procedures. -/
def procedureFragments (n : Names) : List (Procedure Code) → List String
  | [] => []
  | ⟨name, body⟩ :: procedures =>
    procedureText n name (fragment n body) :: procedureFragments n procedures

end

/-- The source of a parser. -/
def write (n : Names) (p : Program) : String :=
  sourceText n p.names (procedureFragments n p.procedures)

end LabeledPeg.Rust
