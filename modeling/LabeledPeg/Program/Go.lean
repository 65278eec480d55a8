import LabeledPeg.Grammar.Error
import LabeledPeg.Program.Code
import LabeledPeg.Program.Options
import LabeledPeg.Text.Identifier

/-!
# Go parsers

Writes the code of a parser as Go source. Every fragment is an expression that gives a value and an
error. Fragments of several lines are written as if they stood at the left margin; each line but the
first is moved to the right where a fragment is put into another one.
-/

namespace LabeledPeg.Go

/-- The names that the source of a parser uses. -/
structure Names where
  package : String
  parser : String
  runtime : String

/-- The runtime package that is used unless the options name another one. -/
def defaultRuntime : String := "github.com/clarete/langlang/go"

/-- The names that the options ask for. Package and parser have to be plain identifiers. -/
def Names.ofOptions (o : Options) : Except GrammarError Names :=
  if !Text.isAsciiIdentifier o.moduleName then .error (.invalidOption .moduleName o.moduleName)
  else if !Text.isAsciiIdentifier o.parserType then .error (.invalidOption .typeSuffix o.typeSuffix)
  else .ok ⟨o.moduleName, o.parserType, o.runtimePath?.getD defaultRuntime⟩

/-- A character inside a literal that `quote` delimits. -/
def escapeChar (quote c : Char) : List Char :=
  match c with
  | '\\' => ['\\', '\\']
  | '\n' => ['\\', 'n']
  | '\r' => ['\\', 'r']
  | '\t' => ['\\', 't']
  | '\x00' => ['\\', 'x', '0', '0']
  | c => if c = quote then ['\\', c] else [c]

/-- A string literal. -/
def stringLiteral (value : String) : String :=
  String.ofList ('"' :: value.toList.flatMap (escapeChar '"') ++ ['"'])

/-- A rune literal. -/
def runeLiteral (c : Char) : String := String.ofList ('\'' :: escapeChar '\'' c ++ ['\''])

/-- Joins lines. -/
def lines (ls : List String) : String := "\n".intercalate ls

/-- So many tabs. -/
def tabs (levels : Nat) : String := String.ofList (List.replicate levels '\t')

/-- Moves every line but the first to the right. -/
def indent (levels : Nat) (code : String) : String :=
  String.ofList (code.toList.flatMap fun c =>
    if c = '\n' then '\n' :: List.replicate levels '\t' else [c])

/-- What a fragment has to be inside to become a function of the parser. -/
def closureHeader : String := "func(p parsing.Parser) (parsing.Value, error) \x7b"

/-- A function of the parser that returns a fragment, closed at `levels` tabs. -/
def closure (levels : Nat) (body : String) : String :=
  closureHeader ++ "\n" ++ tabs levels ++ "\treturn " ++ indent (levels + 1) body ++ "\n" ++
    tabs levels ++ "\x7d"

/-- A method call on the parser. Inside a closure the parser is known by its interface only and has
to be narrowed first. -/
def method (n : Names) (name args : String) : CallSite → String
  | .rule => "p." ++ name ++ "(" ++ args ++ ")"
  | .nested => "p.(*" ++ n.parser ++ ")." ++ name ++ "(" ++ args ++ ")"

/-- The statements that return an error. -/
def returnError : List String := ["\tif err != nil \x7b", "\t\treturn nil, err", "\t\x7d"]

/-- The statement that returns the collected items. -/
def returnItems : String :=
  "\treturn parsing.NewValueSequence(items, parsing.NewSpan(start, p.Location())), nil"

/-- One step of a sequence. -/
def step (code : String) : String :=
  lines (["\titem, err = " ++ indent 1 code] ++ returnError ++
    ["\tif item != nil \x7b", "\t\titems = append(items, item)", "\t\x7d"])

/-- Steps in order, whose values are collected. -/
def sequenceText (steps : List String) : String :=
  lines (["(" ++ closureHeader, "\tvar (", "\t\tstart = p.Location()", "\t\titems []parsing.Value",
    "\t\titem  parsing.Value", "\t\terr   error", "\t)"] ++ steps.map step ++
    [returnItems, "\x7d(p))"])

/-- Alternatives that are tried in order. -/
def choiceText (alternatives : List String) : String :=
  lines (["parsing.Choice(p, []parsing.ParserFn[parsing.Value]\x7b",
    lines (alternatives.map fun code => "\t" ++ closure 1 code ++ ","), "\x7d)"])

/-- The runtime function of a repetition. -/
def repetitionName : Repetition → String
  | .zeroOrMore => "ZeroOrMore"
  | .oneOrMore => "OneOrMore"

/-- A repetition, whose values are collected. -/
def repetitionText (kind : Repetition) (body : String) : String :=
  lines (["(" ++ closureHeader, "\tstart := p.Location()",
    "\titems, err := parsing." ++ repetitionName kind ++ "(p, " ++ closure 1 body ++ ")"] ++
    returnError ++ [returnItems, "\x7d(p))"])

/-- The runtime function of a lookahead. -/
def lookaheadName : Lookahead → String
  | .positive => "And"
  | .negative => "Not"

/-- A lookahead. -/
def lookaheadText (kind : Lookahead) (body : String) : String :=
  "parsing." ++ lookaheadName kind ++ "(p, " ++ closure 0 body ++ ")"

/-- A fragment that notes where it starts. -/
def labeledText (body : String) : String :=
  lines ["(" ++ closureHeader, "\tstart := p.Location()", "\treturn " ++ indent 1 body, "\x7d(p))"]

/-- A thrown label. The runtime knows no place of failure, so the span ends where the attempt that
was given up left the parser. -/
def throwText (label : String) : String :=
  "nil, p.Throw(" ++ stringLiteral label ++ ", parsing.NewSpan(start, p.Location()))"

/-- The head of a method of the parser. -/
def methodHead (n : Names) (name params : String) : String :=
  "func (p *" ++ n.parser ++ ") " ++ name ++ "(" ++ params ++ ") (parsing.Value, error) \x7b"

/-- The method of a rule, which runs inside a trace span. -/
def procedureText (n : Names) (name body : String) : String :=
  lines [methodHead n ("Parse" ++ name) "",
    "\tp.PushTraceSpan(parsing.TracerSpan\x7bName: " ++ stringLiteral name ++ "\x7d)",
    "\tdefer p.PopTraceSpan()", "\treturn " ++ indent 1 body, "\x7d"]

/-- The statement that returns a text as a value. -/
def returnText (text : String) : String :=
  "\treturn parsing.NewValueString(" ++ text ++ ", parsing.NewSpan(start, p.Location())), nil"

/-- A method that wraps a primitive of the runtime. -/
def primitiveText (n : Names) (name params primitive value : String) : List String :=
  [methodHead n name params, "\tstart := p.Location()", "\tr, err := p." ++ primitive] ++
    returnError ++ [returnText value, "\x7d"]

/-- The method of the built-in spacing rule. -/
def spacingText (n : Names) : List String :=
  [methodHead n ("Parse" ++ spacingName) "", "\tstart := p.Location()",
    "\tv, err := parsing.ZeroOrMore(p, func(p parsing.Parser) (rune, error) \x7b",
    "\t\treturn parsing.ChoiceRune(p, []rune\x7b' ', '\\t', '\\r', '\\n'\x7d)", "\t\x7d)",
    "\tif err != nil || len(v) == 0 \x7b", "\t\treturn nil, err", "\t\x7d",
    returnText "string(v)", "\x7d"]

/-- The method of the built-in end of input. -/
def endText (n : Names) : List String :=
  [methodHead n ("Parse" ++ endName) "",
    "\treturn parsing.Not(p, func(p parsing.Parser) (parsing.Value, error) \x7b",
    "\t\treturn p.(*" ++ n.parser ++ ").ParseAny()", "\t\x7d)", "\x7d"]

/-- What stands before the methods of the rules: the type, the primitives, and the built-in rules
that the grammar does not define. -/
def preamble (n : Names) (rules : List String) : String :=
  let blocks : List (List String) :=
    [["// Code generated by peg-grammar. DO NOT EDIT."],
      ["package " ++ n.package],
      ["import (", "\t\"" ++ n.runtime ++ "\"", ")"],
      ["type " ++ n.parser ++ " struct \x7b", "\tparsing.BaseParser", "\x7d"],
      ["func New" ++ n.parser ++ "(input string) *" ++ n.parser ++ " \x7b",
        "\tp := &" ++ n.parser ++ "\x7b\x7d", "\tp.SetInput([]rune(input))", "\treturn p", "\x7d"],
      primitiveText n "ParseAny" "" "Any()" "string(r)",
      primitiveText n "ParseRange" "left, right rune" "ExpectRange(left, right)" "string(r)",
      primitiveText n "ParseLiteral" "literal string" "ExpectLiteral(literal)" "r"] ++
    (if rules.contains spacingName then [] else [spacingText n]) ++
    (if rules.contains endName then [] else [endText n])
  "\n\n".intercalate (blocks.map lines) ++ "\n"

/-- The whole source: the preamble and the methods of the rules. -/
def sourceText (n : Names) (rules : List String) (procedures : List String) : String :=
  preamble n rules ++ String.join (procedures.map fun p => "\n" ++ p ++ "\n")

mutual

/-- The source of a fragment. -/
def fragment (n : Names) : Code → String
  | .sequence steps => sequenceText (fragments n steps)
  | .choice alternatives => choiceText (fragments n alternatives)
  | .empty => "nil, nil"
  | .repetition kind body => repetitionText kind (fragment n body)
  | .lookahead kind body => lookaheadText kind (fragment n body)
  | .labeled body => labeledText (fragment n body)
  | .throw label _ => throwText label
  | .call rule site => method n ("Parse" ++ rule) "" site
  | .builtin rule site => method n ("Parse" ++ rule.name) "" site
  | .literal value site => method n "ParseLiteral" (stringLiteral value) site
  | .range lo hi site => method n "ParseRange" (runeLiteral lo ++ ", " ++ runeLiteral hi) site
  | .any site => method n "ParseAny" "" site
  | .procedure name body => procedureText n name (fragment n body)
  | .program procedures =>
    sourceText n (procedures.map Procedure.name) (procedureFragments n procedures)

/-- The sources of a list of fragments. -/
def fragments (n : Names) : List Code → List String
  | [] => []
  | code :: codes => fragment n code :: fragments n codes

/-- The methods of a list of procedures. -/
def procedureFragments (n : Names) : List (Procedure Code) → List String
  | [] => []
  | ⟨name, body⟩ :: procedures =>
    procedureText n name (fragment n body) :: procedureFragments n procedures

end

/-- The source of a parser. -/
def write (n : Names) (p : Program) : String :=
  sourceText n p.names (procedureFragments n p.procedures)

end LabeledPeg.Go
