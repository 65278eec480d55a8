import LabeledPeg.Grammar.Validation
import LabeledPeg.Program.Generate
import LabeledPeg.Proofs.Outcome
import Mathlib.Data.List.Nodup
import Mathlib.Tactic.Lemma

/-!
# The methods of a Go parser

A line of a Go source declares a method of the parser if it begins with the receiver. The rules of a
grammar and the primitives that they call share one namespace of methods. The built-in rules make way
for rules of the same name; the primitives do not, so a rule called after one of them is declared a
second time.
-/

namespace LabeledPeg

open Text

namespace Go

lemma Names.ofOptions_eq_ok {o : Options} {n : Names} (h : Names.ofOptions o = .ok n) :
    isAsciiIdentifier o.moduleName = true ∧ isAsciiIdentifier o.parserType = true ∧
      n = ⟨o.moduleName, o.parserType, o.runtimePath?.getD defaultRuntime⟩ := by
  unfold Names.ofOptions at h
  split at h
  · cases h
  · next hmodule =>
    split at h
    · cases h
    · next hparser => exact ⟨by simpa using hmodule, by simpa using hparser, (Except.ok.inj h).symm⟩

/-- What a line begins with that declares a method of the type `parser`. -/
def receiver (parser : String) : List Char := ("func (p *" ++ parser ++ ") ").toList

/-- The method that a line declares. -/
def declared? (parser : String) (line : List Char) : Option String :=
  if receiver parser <+: line then
    some (String.ofList ((line.drop (receiver parser).length).takeWhile (· ≠ '(')))
  else none

/-- The methods of the type `parser` that a source declares, in order. -/
def declared (parser source : String) : List String :=
  (source.toList.splitOn '\n').filterMap (declared? parser)

variable {parser : String}

lemma declared_append_line (first others : String) :
    declared parser (first ++ "\n" ++ others) = declared parser first ++ declared parser others := by
  have hnewline : "\n".toList = ['\n'] := rfl
  rw [declared, String.toList_append, String.toList_append, hnewline, List.append_assoc,
    List.singleton_append, List.splitOn_append_cons_self, List.filterMap_append]
  rfl

lemma declared_empty : declared parser "" = [] := by
  have hreceiver : receiver parser ≠ [] := by simp [receiver]
  simp [declared, declared?, hreceiver]

lemma declared_lines (ls : List String) :
    declared parser (lines ls) = ls.flatMap (declared parser) := by
  unfold lines
  induction ls with
  | nil => exact declared_empty
  | cons first others ih =>
    cases others with
    | nil => simp
    | cons second others =>
      rw [String.intercalate_cons_cons, declared_append_line, ih]
      rfl

/-- Whether no line of a text declares a method of the parser. -/
def Inside (text : String) : Prop := ∀ line ∈ text.toList.splitOn '\n', line.head? ≠ some 'f'

instance (text : String) : Decidable (Inside text) :=
  inferInstanceAs (Decidable (∀ line ∈ text.toList.splitOn '\n', line.head? ≠ some 'f'))

lemma Inside.declared {text : String} (h : Inside text) : declared parser text = [] := by
  apply List.filterMap_eq_nil_iff.mpr
  intro line hline
  apply if_neg
  intro hreceiver
  obtain ⟨others, rfl⟩ := hreceiver
  exact h _ hline (by simp [receiver])

lemma declared_paragraphs (texts : List String) :
    declared parser ("\n\n".intercalate texts) = texts.flatMap (declared parser) := by
  have hblank : ∀ first others : String,
      first ++ "\n\n" ++ others = first ++ "\n" ++ "" ++ "\n" ++ others := by
    intro first others
    have hnewlines : "\n\n" = "\n" ++ "\n" := rfl
    simp only [hnewlines, String.append_empty, String.append_assoc]
  induction texts with
  | nil => exact declared_empty
  | cons first others ih =>
    cases others with
    | nil => simp
    | cons second others =>
      rw [String.intercalate_cons_cons, hblank, declared_append_line, declared_append_line,
        declared_empty, ih, List.append_nil]
      rfl

/-- Whether a text has no line break. -/
def Unbroken (text : String) : Prop := '\n' ∉ text.toList

instance (text : String) : Decidable (Unbroken text) :=
  inferInstanceAs (Decidable ('\n' ∉ text.toList))

lemma Unbroken.append {first second : String} (h : Unbroken first) (h' : Unbroken second) :
    Unbroken (first ++ second) := by
  rw [Unbroken, String.toList_append, List.mem_append, not_or]
  exact ⟨h, h'⟩

lemma isAsciiIdentifier_append {first second : String} (h : isAsciiIdentifier first = true)
    (h' : isAsciiIdentifier second = true) : isAsciiIdentifier (first ++ second) = true := by
  obtain ⟨c, cs, hfirst, hc, hcs⟩ := isAsciiIdentifier_iff.mp h
  have hlist : (first ++ second).toList = c :: (cs ++ second.toList) := by
    rw [String.toList_append, hfirst, List.cons_append]
  exact isAsciiIdentifier_iff.mpr ⟨c, cs ++ second.toList, hlist, hc,
    List.forall_mem_append.mpr ⟨hcs, isAsciiContinue_of_mem h'⟩⟩

lemma not_mem_of_isAsciiIdentifier {name : String} (h : isAsciiIdentifier name = true) {c : Char}
    (hc : isAsciiContinue c = false) : c ∉ name.toList := by
  intro hmem
  rw [isAsciiContinue_of_mem h c hmem] at hc
  cases hc

lemma unbroken_of_isAsciiIdentifier {name : String} (h : isAsciiIdentifier name = true) :
    Unbroken name := not_mem_of_isAsciiIdentifier h (by decide)

/-- Inside a literal, a line break is written by its letter. -/
lemma not_mem_escapeChar (quote c : Char) : '\n' ∉ escapeChar quote c := by
  unfold escapeChar
  split
  · decide
  · decide
  · decide
  · decide
  · decide
  · next hc _ _ _ =>
    split
    · simpa using fun h => hc h.symm
    · simpa using fun h => hc h.symm

lemma unbroken_stringLiteral (value : String) : Unbroken (stringLiteral value) := by
  simp [Unbroken, stringLiteral, not_mem_escapeChar]

lemma unbroken_runeLiteral (c : Char) : Unbroken (runeLiteral c) := by
  simp [Unbroken, runeLiteral, not_mem_escapeChar]

/-- A line of the text of a function does not stand at the margin. -/
lemma inside_of_unbroken {text : String} (h : Unbroken text)
    (hhead : text.toList.head? ≠ some 'f') : Inside text := by
  intro line hline
  rw [List.splitOn_eq_singleton h, List.mem_singleton] at hline
  rwa [hline]

lemma inside_append {before after : String} (hhead : before.toList.head?.any (· ≠ 'f') = true)
    (hbefore : Unbroken before) (hafter : Unbroken after) : Inside (before ++ after) := by
  apply inside_of_unbroken (hbefore.append hafter)
  cases hlist : before.toList with
  | nil => simp [hlist] at hhead
  | cons c others => simpa [hlist] using hhead

lemma inside_around {before middle after : String} (h : Unbroken middle)
    (hhead : before.toList.head?.any (· ≠ 'f') = true) (hbefore : Unbroken before)
    (hafter : Unbroken after) : Inside (before ++ middle ++ after) := by
  rw [String.append_assoc]
  exact inside_append hhead hbefore (h.append hafter)

lemma inside_returnText {value : String} (h : Unbroken value) : Inside (returnText value) :=
  inside_around h (by decide) (by decide) (by decide)

lemma head?_of_mem_splitOn {first : List Char} (hfirst : first.head? = some '\t')
    (h : '\n' ∉ first) (code : List Char) (levels : Nat) :
    ∀ line ∈ (first ++ code.flatMap fun c =>
      if c = '\n' then '\n' :: List.replicate (levels + 1) '\t' else [c]).splitOn '\n',
      line.head? = some '\t' := by
  induction code generalizing first with
  | nil =>
    simp only [List.flatMap_nil, List.append_nil, List.splitOn_eq_singleton h]
    simpa using hfirst
  | cons c code ih =>
    by_cases hc : c = '\n'
    · -- a line ends here, and the next one begins with tabs
      simp only [List.flatMap_cons, hc, if_true, List.cons_append, List.splitOn_append_cons_self,
        List.splitOn_eq_singleton h]
      refine List.forall_mem_cons.mpr ⟨hfirst, ih ?_ ?_⟩
      · rw [List.replicate_succ, List.head?_cons]
      · simp
    · simp only [List.flatMap_cons, hc, if_false]
      rw [← List.append_assoc]
      apply ih
      · rw [List.head?_append, hfirst, Option.some_or]
      · simpa [h] using fun heq => hc heq.symm

/-- What is moved to the right stays inside. -/
lemma inside_indent {first : String} (hfirst : first.toList.head? = some '\t') (h : Unbroken first)
    (code : String) (levels : Nat) : Inside (first ++ indent (levels + 1) code) := by
  intro line hline
  rw [String.toList_append, indent, String.toList_ofList] at hline
  rw [head?_of_mem_splitOn hfirst h code.toList levels line hline]
  decide

variable {n : Names}

lemma unbroken_methodHead (hparser : Unbroken n.parser) {name params : String}
    (hname : isAsciiIdentifier name = true) (hparams : Unbroken params) :
    Unbroken (methodHead n name params) :=
  ((((((by decide : Unbroken "func (p *").append hparser).append (by decide)).append
    (unbroken_of_isAsciiIdentifier hname)).append (by decide)).append hparams).append (by decide)

lemma declared_methodHead (hparser : Unbroken n.parser) {name params : String}
    (hname : isAsciiIdentifier name = true) (hparams : Unbroken params) :
    declared n.parser (methodHead n name params) = [name] := by
  have hunbroken := unbroken_methodHead hparser hname hparams
  have hlist : (methodHead n name params).toList = receiver n.parser ++
      (name.toList ++ '(' :: (params.toList ++ ") (parsing.Value, error) \x7b".toList)) := by
    have hopen : "(".toList = ['('] := rfl
    simp only [methodHead, receiver, String.toList_append, hopen, List.append_assoc,
      List.cons_append, List.nil_append]
  have hbefore : ∀ c ∈ name.toList, decide (c ≠ '(') = true := by
    intro c hc
    rw [decide_eq_true_eq]
    rintro rfl
    exact not_mem_of_isAsciiIdentifier hname (by decide) hc
  rw [declared, List.splitOn_eq_singleton hunbroken, List.filterMap_cons, List.filterMap_nil, hlist,
    declared?, if_pos (List.prefix_append _ _), List.drop_left, List.takeWhile_append_of_pos hbefore]
  simp

/-- A method whose head is followed by lines inside it. -/
lemma declared_method (hparser : Unbroken n.parser) {name params : String} {body : List String}
    (hname : isAsciiIdentifier name = true) (hparams : Unbroken params)
    (hbody : ∀ line ∈ body, Inside line) :
    declared n.parser (lines (methodHead n name params :: body)) = [name] := by
  rw [declared_lines, List.flatMap_cons, declared_methodHead hparser hname hparams]
  have hinside : body.flatMap (declared n.parser) = [] :=
    List.flatMap_eq_nil_iff.mpr fun line hline => (hbody line hline).declared
  rw [hinside, List.append_nil]

lemma declared_procedureText (hparser : Unbroken n.parser) {name : String}
    (hname : isAsciiIdentifier name = true) (body : String) :
    declared n.parser (procedureText n name body) = ["Parse" ++ name] := by
  apply declared_method hparser (isAsciiIdentifier_append (by decide) hname) (by decide)
  intro line hline
  simp only [List.mem_cons, List.not_mem_nil, or_false] at hline
  rcases hline with rfl | rfl | rfl | rfl
  · exact inside_around (unbroken_stringLiteral name) (by decide) (by decide) (by decide)
  · decide
  · exact inside_indent (by decide) (by decide) body 0
  · decide

lemma declared_primitiveText (hparser : Unbroken n.parser) {name params primitive value : String}
    (hname : isAsciiIdentifier name = true) (hparams : Unbroken params)
    (hprimitive : Unbroken primitive) (hvalue : Unbroken value) :
    declared n.parser (lines (primitiveText n name params primitive value)) = [name] := by
  simp only [primitiveText, returnError, List.cons_append, List.nil_append]
  apply declared_method hparser hname hparams
  intro line hline
  simp only [List.mem_cons, List.not_mem_nil, or_false] at hline
  rcases hline with rfl | rfl | rfl | rfl | rfl | rfl | rfl
  · decide
  · exact inside_append (by decide) (by decide) hprimitive
  · decide
  · decide
  · decide
  · exact inside_returnText hvalue
  · decide

lemma declared_spacingText (hparser : Unbroken n.parser) :
    declared n.parser (lines (spacingText n)) = ["ParseSpacing"] := by
  apply declared_method hparser (by decide) (by decide)
  have hvalue : Inside (returnText "string(v)") := inside_returnText (by decide)
  have hbefore : ∀ line ∈ ["\tstart := p.Location()",
      "\tv, err := parsing.ZeroOrMore(p, func(p parsing.Parser) (rune, error) \x7b",
      "\t\treturn parsing.ChoiceRune(p, []rune\x7b' ', '\\t', '\\r', '\\n'\x7d)", "\t\x7d)",
      "\tif err != nil || len(v) == 0 \x7b", "\t\treturn nil, err", "\t\x7d"], Inside line := by
    decide
  exact List.forall_mem_append.mpr ⟨hbefore, List.forall_mem_cons.mpr ⟨hvalue, by decide⟩⟩

lemma declared_endText (hparser : Unbroken n.parser) :
    declared n.parser (lines (endText n)) = ["ParseEOF"] := by
  apply declared_method hparser (by decide) (by decide)
  intro line hline
  simp only [List.mem_cons, List.not_mem_nil, or_false] at hline
  rcases hline with rfl | rfl | rfl | rfl
  · decide
  · exact inside_around hparser (by decide) (by decide) (by decide)
  · decide
  · decide

lemma declared_of_inside {body : List String} (h : ∀ line ∈ body, Inside line) :
    declared parser (lines body) = [] := by
  rw [declared_lines]
  exact List.flatMap_eq_nil_iff.mpr fun line hline => (h line hline).declared

/-- The constructor is a function, but no method of the parser. -/
lemma declared_constructor (hparser : Unbroken n.parser) :
    declared n.parser (lines ["func New" ++ n.parser ++ "(input string) *" ++ n.parser ++ " \x7b",
      "\tp := &" ++ n.parser ++ "\x7b\x7d", "\tp.SetInput([]rune(input))", "\treturn p",
      "\x7d"]) = [] := by
  have hhead : Unbroken ("func New" ++ n.parser ++ "(input string) *" ++ n.parser ++ " \x7b") :=
    ((((by decide : Unbroken _).append hparser).append (by decide)).append hparser).append
      (by decide)
  have hnew : declared n.parser
      ("func New" ++ n.parser ++ "(input string) *" ++ n.parser ++ " \x7b") = [] := by
    rw [declared, List.splitOn_eq_singleton hhead]
    simp [declared?, receiver]
  have hvalue : Inside ("\tp := &" ++ n.parser ++ "\x7b\x7d") :=
    inside_around hparser (by decide) (by decide) (by decide)
  have hothers : ∀ line ∈ ["\tp.SetInput([]rune(input))", "\treturn p", "\x7d"], Inside line := by
    decide
  rw [declared_lines, List.flatMap_cons, List.flatMap_cons, hnew, hvalue.declared, ← declared_lines,
    declared_of_inside hothers]
  rfl

lemma declared_type (hparser : Unbroken n.parser) :
    declared n.parser
      (lines ["type " ++ n.parser ++ " struct \x7b", "\tparsing.BaseParser", "\x7d"]) = [] :=
  declared_of_inside (List.forall_mem_cons.mpr
    ⟨inside_around hparser (by decide) (by decide) (by decide), by decide⟩)

lemma declared_imports (hruntime : Unbroken n.runtime) :
    declared parser (lines ["import (", "\t\"" ++ n.runtime ++ "\"", ")"]) = [] :=
  declared_of_inside (List.forall_mem_cons.mpr ⟨by decide, List.forall_mem_cons.mpr
    ⟨inside_around hruntime (by decide) (by decide) (by decide), by decide⟩⟩)

lemma declared_package (hpackage : Unbroken n.package) :
    declared parser (lines ["package " ++ n.package]) = [] := by
  apply declared_of_inside
  exact List.forall_mem_singleton.mpr (inside_append (by decide) (by decide) hpackage)

lemma declared_append_newline (text : String) :
    declared parser (text ++ "\n") = declared parser text := by
  rw [← String.append_empty (s := text ++ "\n"), declared_append_line, declared_empty,
    List.append_nil]

/-- The methods that the preamble declares: the primitives always, a built-in rule only where the
grammar does not define it. -/
lemma declared_preamble (hpackage : Unbroken n.package) (hparser : Unbroken n.parser)
    (hruntime : Unbroken n.runtime) (rules : List String) :
    declared n.parser (preamble n rules) = ["ParseAny", "ParseRange", "ParseLiteral"] ++
      (if rules.contains spacingName then [] else ["ParseSpacing"]) ++
      (if rules.contains endName then [] else ["ParseEOF"]) := by
  have hcomment :
      declared n.parser (lines ["// Code generated by peg-grammar. DO NOT EDIT."]) = [] :=
    declared_of_inside (by decide)
  have hany : declared n.parser (lines (primitiveText n "ParseAny" "" "Any()" "string(r)")) =
      ["ParseAny"] :=
    declared_primitiveText hparser (by decide) (by decide) (by decide) (by decide)
  have hrange : declared n.parser (lines (primitiveText n "ParseRange" "left, right rune"
      "ExpectRange(left, right)" "string(r)")) = ["ParseRange"] :=
    declared_primitiveText hparser (by decide) (by decide) (by decide) (by decide)
  have hliteral : declared n.parser (lines (primitiveText n "ParseLiteral" "literal string"
      "ExpectLiteral(literal)" "r")) = ["ParseLiteral"] :=
    declared_primitiveText hparser (by decide) (by decide) (by decide) (by decide)
  have hspacing : (if rules.contains spacingName then [] else [spacingText n]).flatMap
      (fun block => declared n.parser (lines block)) =
        if rules.contains spacingName then [] else ["ParseSpacing"] := by
    split
    · rfl
    · rw [List.flatMap_singleton, declared_spacingText hparser]
  have hend : (if rules.contains endName then [] else [endText n]).flatMap
      (fun block => declared n.parser (lines block)) =
        if rules.contains endName then [] else ["ParseEOF"] := by
    split
    · rfl
    · rw [List.flatMap_singleton, declared_endText hparser]
  simp only [preamble, declared_append_newline, declared_paragraphs, List.flatMap_map,
    List.flatMap_append, List.flatMap_cons, List.flatMap_nil, hcomment, declared_package hpackage,
    declared_imports hruntime, declared_type hparser, declared_constructor hparser, hany, hrange,
    hliteral, hspacing, hend]
  rfl

lemma declared_sourceText (rules procedures : List String) :
    declared parser (sourceText n rules procedures) =
      declared parser (preamble n rules) ++ procedures.flatMap (declared parser) := by
  have hprocedures : declared parser (String.join (procedures.map fun p => "\n" ++ p ++ "\n")) =
      procedures.flatMap (declared parser) := by
    induction procedures with
    | nil => exact declared_empty
    | cons p procedures ih =>
      have hline : ∀ others : String,
          "\n" ++ p ++ "\n" ++ others = "" ++ "\n" ++ (p ++ "\n" ++ others) := by
        intro others
        simp only [String.empty_append, String.append_assoc]
      rw [List.map_cons, String.join_cons, hline, declared_append_line, declared_append_line, ih,
        declared_empty, List.nil_append, List.flatMap_cons]
  rw [sourceText, preamble, declared_append_line, hprocedures, declared_append_newline]

/-- The methods of a parser, in order: the primitives, the built-in rules that no rule replaces, and
the rules. -/
theorem declared_write (hpackage : Unbroken n.package) (hparser : Unbroken n.parser)
    (hruntime : Unbroken n.runtime) {p : Program}
    (hnames : ∀ name ∈ p.names, isAsciiIdentifier name = true) :
    declared n.parser (write n p) = ["ParseAny", "ParseRange", "ParseLiteral"] ++
      (if p.names.contains spacingName then [] else ["ParseSpacing"]) ++
      (if p.names.contains endName then [] else ["ParseEOF"]) ++ p.names.map ("Parse" ++ ·) := by
  have hrules : ∀ procedures : List (Procedure Code),
      (∀ q ∈ procedures, isAsciiIdentifier q.name = true) →
      (procedureFragments n procedures).flatMap (declared n.parser) =
        procedures.map fun q => "Parse" ++ q.name := by
    intro procedures h
    induction procedures with
    | nil => rw [procedureFragments]; rfl
    | cons q procedures ih =>
      obtain ⟨name, body⟩ := q
      have hname : isAsciiIdentifier name = true := h ⟨name, body⟩ (by simp)
      rw [procedureFragments, List.flatMap_cons, declared_procedureText hparser hname,
        ih fun q hq => h q (by simp [hq])]
      rfl
  have hall : ∀ q ∈ p.procedures, isAsciiIdentifier q.name = true :=
    fun q hq => hnames q.name (List.mem_map_of_mem hq)
  rw [write, declared_sourceText, declared_preamble hpackage hparser hruntime,
    hrules p.procedures hall, Program.names, List.map_map]
  rfl

end Go

namespace Grammar

variable {g : Grammar}

lemma names_of_compileDefinitions {quiet : List String} {definitions : List Definition}
    {c c' : Counters} {procedures : List (Procedure Code)}
    (h : Expr.compileDefinitions g quiet definitions c = .success procedures c') :
    procedures.map Procedure.name = definitions.map Rule.name := by
  induction definitions generalizing c procedures with
  | nil =>
    rw [Expr.compileDefinitions] at h
    obtain ⟨rfl, rfl⟩ := Outcome.success.inj h
    rfl
  | cons d definitions ih =>
    obtain ⟨name, body, span⟩ := d
    rw [Expr.compileDefinitions] at h
    obtain ⟨code, c₁, -, hrest⟩ := Run.bind_eq_success_iff.mp h
    obtain ⟨others, c₂, hothers, hvalue⟩ := Run.bind_eq_success_iff.mp hrest
    obtain ⟨rfl, rfl⟩ := Outcome.success.inj hvalue
    rw [List.map_cons, List.map_cons, ih hothers]

lemma names_of_compile {p : Program} (h : g.compile = .ok p) : p.names = g.names := by
  obtain ⟨c, hrun⟩ := Compiler.result_eq_ok_iff.mp h
  unfold compiler at hrun
  cases himports : g.imports with
  | cons i imports =>
    rw [himports] at hrun
    cases hrun
  | nil =>
    rw [himports] at hrun
    obtain ⟨procedures, c₁, hprocedures, hvalue⟩ := Run.bind_eq_success_iff.mp hrun
    obtain ⟨rfl, rfl⟩ := Outcome.success.inj hvalue
    exact names_of_compileDefinitions hprocedures

/-- A Go parser is written exactly if the options name one and the compiler has code for the
grammar. -/
lemma generate_go_eq_ok_iff {o : Options} {source : String} : g.generate .go o = .ok source ↔
    ∃ n p, Go.Names.ofOptions o = .ok n ∧ g.compile = .ok p ∧ Go.write n p = source := by
  unfold generate
  cases Go.Names.ofOptions o with
  | error e => simp [Except.mapError, bind, Except.bind]
  | ok n =>
    cases g.compile with
    | error e => simp [Except.mapError, bind, Except.bind]
    | ok p => simp [Except.mapError, bind, Except.bind, pure, Except.pure]

/-- The methods that the Go parser of a grammar declares. The options may name any runtime whose path
stands on one line. -/
theorem declared_generate {o : Options} {source : String}
    (hnames : ∀ name ∈ g.names, isAsciiIdentifier name = true)
    (hruntime : Go.Unbroken (o.runtimePath?.getD Go.defaultRuntime))
    (h : g.generate .go o = .ok source) :
    Go.declared o.parserType source = ["ParseAny", "ParseRange", "ParseLiteral"] ++
      (if g.names.contains spacingName then [] else ["ParseSpacing"]) ++
      (if g.names.contains endName then [] else ["ParseEOF"]) ++ g.names.map ("Parse" ++ ·) := by
  obtain ⟨n, p, hoptions, hcompile, rfl⟩ := generate_go_eq_ok_iff.mp h
  obtain ⟨hpackage, hparser, rfl⟩ := Go.Names.ofOptions_eq_ok hoptions
  rw [← names_of_compile hcompile]
  rw [← names_of_compile hcompile] at hnames
  exact Go.declared_write (n := ⟨_, _, _⟩) (Go.unbroken_of_isAsciiIdentifier hpackage)
    (Go.unbroken_of_isAsciiIdentifier hparser) hruntime hnames

/-- The rules of a grammar and the methods that are there anyway are told apart, unless a rule is
called after one of the primitives. -/
theorem nodup_declared_iff {o : Options} {source : String}
    (hnames : ∀ name ∈ g.names, isAsciiIdentifier name = true)
    (hruntime : Go.Unbroken (o.runtimePath?.getD Go.defaultRuntime))
    (h : g.generate .go o = .ok source) :
    (Go.declared o.parserType source).Nodup ↔
      "Any" ∉ g.names ∧ "Range" ∉ g.names ∧ "Literal" ∉ g.names := by
  let others := (if g.names.contains spacingName then [] else [spacingName]) ++
    (if g.names.contains endName then [] else [endName]) ++ g.names
  have hmethods : Go.declared o.parserType source =
      (["Any", "Range", "Literal"] ++ others).map ("Parse" ++ ·) := by
    rw [declared_generate hnames hruntime h]
    simp only [others, List.map_append, List.append_assoc]
    split <;> split <;> rfl
  have hinjective : Function.Injective fun name : String => "Parse" ++ name := by
    intro name name' heq
    exact (String.append_right_inj "Parse").mp heq
  -- a built-in rule is among the methods only if no rule has its name
  have hothers : others.Nodup := by
    have hdistinct : g.names.Nodup := g.distinct
    have hne : spacingName ≠ endName := by decide
    by_cases hspacing : spacingName ∈ g.names <;> by_cases hend : endName ∈ g.names <;>
      simp [others, hspacing, hend, hdistinct, hne]
  have hmem : ∀ name, name ≠ spacingName → name ≠ endName → (name ∈ others ↔ name ∈ g.names) := by
    intro name hspacing hend
    simp only [others, List.mem_append]
    split <;> split <;> simp [hspacing, hend]
  rw [hmethods, List.nodup_map_iff hinjective]
  simp [hothers, hmem "Any" (by decide) (by decide), hmem "Range" (by decide) (by decide),
    hmem "Literal" (by decide) (by decide)]

/-- `Range <- 'a'` is accepted, and `ParseRange` is declared twice. -/
theorem exists_declared_twice : ∃ (g : Grammar) (source : String), g.validate = .ok () ∧
    g.generate .go {} = .ok source ∧ ¬ (Go.declared "Parser" source).Nodup := by
  let g : Grammar := ⟨[], [⟨"Range", .literal "a" ⟨9, 12⟩, ⟨0, 12⟩⟩], ⟨0, 12⟩, by decide⟩
  obtain ⟨source, hsource⟩ : ∃ source, g.generate .go {} = .ok source := ⟨_, rfl⟩
  have hnodup := nodup_declared_iff (by decide) (by decide) hsource
  refine ⟨g, source, rfl, hsource, fun h => ?_⟩
  exact (hnodup.mp h).2.1 (by decide)

end Grammar

end LabeledPeg
