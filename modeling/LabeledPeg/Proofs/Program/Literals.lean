import LabeledPeg.Proofs.Grammar.Equality
import LabeledPeg.Proofs.Program.Contract
import LabeledPeg.Proofs.Program.Lexis
import LabeledPeg.Proofs.Source.Value

/-!
# A Go parser keeps every string

The literals in the method of a rule are the name of the rule, and the labels, the texts and the ends
of ranges in its code, in the order in which they stand there. Fragments are put into each other and
moved to the right on the way, which changes nothing in them, for no literal has a line break.
-/

namespace LabeledPeg

namespace Code

open Go

mutual

/-- The strings and characters in a fragment, in order. -/
def literals : Code → List Literal
  | throw label _ => [.string label]
  | literal value _ => [.string value]
  | range lo hi _ => [.rune lo, .rune hi]
  | sequence items | choice items => allLiterals items
  | repetition _ body | lookahead _ body | labeled body => body.literals
  | procedure name body => .string name :: body.literals
  | program procedures => procedureLiterals procedures
  | empty | call _ _ | builtin _ _ | any _ => []

/-- The strings and characters in a list of fragments. -/
def allLiterals : List Code → List Literal
  | [] => []
  | code :: codes => code.literals ++ allLiterals codes

/-- The strings and characters in a list of procedures. -/
def procedureLiterals : List (Procedure Code) → List Literal
  | [] => []
  | ⟨name, body⟩ :: procedures => .string name :: body.literals ++ procedureLiterals procedures

end

lemma allLiterals_eq_flatten (codes : List Code) :
    allLiterals codes = (codes.map literals).flatten := by
  induction codes with
  | nil => simp only [allLiterals, List.map_nil, List.flatten_nil]
  | cons code codes ih => simp only [allLiterals, ih, List.map_cons, List.flatten_cons]

end Code

namespace Go

variable {n : Names}

lemma fragments_eq_map (codes : List Code) : fragments n codes = codes.map (fragment n) := by
  induction codes with
  | nil => simp only [fragments, List.map_nil]
  | cons code codes ih => simp only [fragments, ih, List.map_cons]

lemma Unquoted.append {first second : String} (h : Unquoted first) (h' : Unquoted second) :
    Unquoted (first ++ second) := by
  rw [Unquoted, String.toList_append]
  exact List.forall_mem_append.mpr ⟨h, h'⟩

lemma unquoted_of_isAsciiIdentifier {name : String} (h : Text.isAsciiIdentifier name = true) :
    Unquoted name := by
  intro c hc hquote
  have hletters : ∀ d ∈ ['"', '\'', '\x60', '/'], (!Text.isAsciiContinue d) = true :=
    List.all_eq_true.mp (by decide)
  have hcontinue : Text.isAsciiContinue c = false := by simpa using hletters c hquote
  exact not_mem_of_isAsciiIdentifier h hcontinue hc

lemma unquoted_tabs (levels : Nat) : Unquoted (tabs levels) := by
  intro c hc
  rw [tabs, String.toList_ofList] at hc
  rw [List.eq_of_mem_replicate hc]
  decide

lemma flatten_map_nil {α β : Type} (items : List α) :
    (items.map fun _ => ([] : List β)).flatten = [] := by simp

section Pieces

variable {first text last : String} {found : List Literal}

lemma Shows.behind (h : Shows text found) (hfirst : Unquoted first) :
    Shows (first ++ text) found := hfirst.shows.append h

lemma Shows.ahead (h : Shows text found) (hlast : Unquoted last) : Shows (text ++ last) found := by
  have happend := h.append hlast.shows
  rwa [List.append_nil] at happend

/-- A line begins the text of the lines from it on. -/
lemma Shows.line {line : String} {others : List String} {found' : List Literal} (h : Shows line found)
    (hne : others ≠ []) (h' : Shows (lines others) found') :
    Shows (lines (line :: others)) (found ++ found') := by
  obtain ⟨second, others, rfl⟩ := List.exists_cons_of_ne_nil hne
  have hlines : lines (line :: second :: others) = line ++ "\n" ++ lines (second :: others) :=
    String.intercalate_cons_cons
  rw [hlines]
  exact (h.ahead (by decide)).append h'

/-- Lines show what each of them shows. -/
lemma shows_lines {texts : List String} {found : List (List Literal)}
    (h : List.Forall₂ Shows texts found) : Shows (lines texts) found.flatten := by
  induction h with
  | nil => exact Unquoted.shows (by decide)
  | @cons text literals texts found htext hrest ih =>
    by_cases hne : texts = []
    · subst hne
      cases hrest
      simpa [lines] using htext
    · exact htext.line hne ih

lemma showsAll_of_unquoted {texts : List String} (h : ∀ text ∈ texts, Unquoted text) :
    List.Forall₂ Shows texts (texts.map fun _ => []) := by
  rw [List.forall₂_map_right_iff, List.forall₂_same]
  exact fun text htext => (h text htext).shows

/-- Lines that show something stand between others that do not. -/
lemma shows_lines_between (first last : List String) (hfirst : ∀ text ∈ first, Unquoted text)
    (hlast : ∀ text ∈ last, Unquoted text) {texts : List String} {found : List (List Literal)}
    (h : List.Forall₂ Shows texts found) : Shows (lines (first ++ texts ++ last)) found.flatten := by
  have hlines := shows_lines (List.rel_append (List.rel_append (showsAll_of_unquoted hfirst) h)
    (showsAll_of_unquoted hlast))
  rwa [List.flatten_append, List.flatten_append, flatten_map_nil, flatten_map_nil, List.nil_append,
    List.append_nil] at hlines

end Pieces

section Fragments

variable {body : String} {found : List Literal}

lemma shows_closure (levels : Nat) (h : Shows body found) : Shows (closure levels body) found := by
  have hhead : Unquoted (closureHeader ++ "\n" ++ tabs levels ++ "\treturn ") :=
    (Unquoted.append (by decide) (unquoted_tabs levels)).append (by decide)
  exact ((((h.indent (levels + 1)).behind hhead).ahead (by decide)).ahead
    (unquoted_tabs levels)).ahead (by decide)

lemma shows_method (hparser : Unquoted n.parser) {name args : String} (hname : Unquoted name)
    (h : Shows args found) (site : CallSite) : Shows (method n name args site) found := by
  cases site with
  | rule =>
    have hhead : Unquoted ("p." ++ name ++ "(") :=
      (Unquoted.append (by decide) hname).append (by decide)
    exact (h.behind hhead).ahead (by decide)
  | nested =>
    have hhead : Unquoted ("p.(*" ++ n.parser ++ ")." ++ name ++ "(") :=
      (((Unquoted.append (by decide) hparser).append (by decide)).append hname).append (by decide)
    exact (h.behind hhead).ahead (by decide)

lemma shows_step (h : Shows body found) : Shows (step body) found := by
  have hline : Shows ("\titem, err = " ++ indent 1 body) found := (h.indent 1).behind (by decide)
  have hlines := shows_lines_between [] (returnError ++
    ["\tif item != nil \x7b", "\t\titems = append(items, item)", "\t\x7d"]) (by simp) (by decide)
    (.cons hline .nil)
  simpa [step] using hlines

lemma shows_sequenceText {steps : List String} {found : List (List Literal)}
    (h : List.Forall₂ Shows steps found) : Shows (sequenceText steps) found.flatten := by
  have hsteps : List.Forall₂ Shows (steps.map step) found := by
    rw [List.forall₂_map_left_iff]
    exact h.imp fun _ _ => shows_step
  exact shows_lines_between _ _ (by decide) (by decide) hsteps

lemma shows_choiceText {alternatives : List String} {found : List (List Literal)}
    (h : List.Forall₂ Shows alternatives found) : Shows (choiceText alternatives) found.flatten := by
  have halternatives : List.Forall₂ Shows
      (alternatives.map fun code => "\t" ++ closure 1 code ++ ",") found := by
    rw [List.forall₂_map_left_iff]
    exact h.imp fun _ _ h => ((shows_closure 1 h).behind (by decide)).ahead (by decide)
  have hlines := shows_lines_between ["parsing.Choice(p, []parsing.ParserFn[parsing.Value]\x7b"]
    ["\x7d)"] (by decide) (by decide) (.cons (shows_lines halternatives) .nil)
  simpa [choiceText] using hlines

lemma shows_repetitionText (kind : Repetition) (h : Shows body found) :
    Shows (repetitionText kind body) found := by
  have hkind : Unquoted ("\titems, err := parsing." ++ repetitionName kind ++ "(p, ") := by
    cases kind <;> decide
  have hline := ((shows_closure 1 h).behind hkind).ahead (by decide : Unquoted ")")
  have hlines := shows_lines_between ["(" ++ closureHeader, "\tstart := p.Location()"]
    (returnError ++ [returnItems, "\x7d(p))"]) (by decide) (by decide) (.cons hline .nil)
  simpa [repetitionText] using hlines

lemma shows_lookaheadText (kind : Lookahead) (h : Shows body found) :
    Shows (lookaheadText kind body) found := by
  have hkind : Unquoted ("parsing." ++ lookaheadName kind ++ "(p, ") := by cases kind <;> decide
  exact ((shows_closure 0 h).behind hkind).ahead (by decide)

lemma shows_labeledText (h : Shows body found) : Shows (labeledText body) found := by
  have hline : Shows ("\treturn " ++ indent 1 body) found := (h.indent 1).behind (by decide)
  have hlines := shows_lines_between ["(" ++ closureHeader, "\tstart := p.Location()"]
    ["\x7d(p))"] (by decide) (by decide) (.cons hline .nil)
  simpa [labeledText] using hlines

lemma shows_throwText (label : String) : Shows (throwText label) [.string label] :=
  ((shows_stringLiteral label).behind (by decide)).ahead (by decide)

lemma shows_procedureText (hparser : Unquoted n.parser) {name : String} (hname : Unquoted name)
    (h : Shows body found) : Shows (procedureText n name body) (.string name :: found) := by
  have hhead : Unquoted (methodHead n ("Parse" ++ name) "") :=
    (((((Unquoted.append (by decide) hparser).append (by decide)).append
      ((by decide : Unquoted "Parse").append hname)).append (by decide)).append (by decide)).append
        (by decide)
  have hspan := ((shows_stringLiteral name).behind
    (by decide : Unquoted "\tp.PushTraceSpan(parsing.TracerSpan\x7bName: ")).ahead
      (by decide : Unquoted "\x7d)")
  have hreturn : Shows ("\treturn " ++ indent 1 body) found := (h.indent 1).behind (by decide)
  have hlines := shows_lines (.cons hhead.shows (.cons hspan (.cons
    (Unquoted.shows (by decide : Unquoted "\tdefer p.PopTraceSpan()")) (.cons hreturn (.cons
      (Unquoted.shows (by decide : Unquoted "\x7d")) .nil)))))
  simpa [procedureText] using hlines

end Fragments

/-- The literals of a fragment are the strings and characters in it. -/
theorem shows_fragment {g : Grammar} (hparser : Unquoted n.parser)
    (hnames : ∀ name ∈ g.names, Unquoted name) {code : Code} (h : code.Contract g) :
    Shows (fragment n code) code.literals := by
  have hcodes : ∀ codes : List Code, (∀ c ∈ codes, Shows (fragment n c) c.literals) →
      List.Forall₂ Shows (fragments n codes) (codes.map Code.literals) := by
    intro codes ih
    rw [fragments_eq_map, List.forall₂_map_left_iff, List.forall₂_map_right_iff, List.forall₂_same]
    exact ih
  have hnothing : Shows "" [] := Unquoted.shows (by decide)
  induction h with
  | @sequence steps _ ih =>
    simp only [fragment, Code.literals, Code.allLiterals_eq_flatten]
    exact shows_sequenceText (hcodes steps ih)
  | @choice alternatives _ _ ih =>
    simp only [fragment, Code.literals, Code.allLiterals_eq_flatten]
    exact shows_choiceText (hcodes alternatives ih)
  | @optional attempt _ ih =>
    have hempty : Shows (fragment n .empty) Code.empty.literals := by
      simp only [fragment, Code.literals]
      exact Unquoted.shows (by decide)
    simp only [fragment, Code.literals, Code.allLiterals_eq_flatten]
    exact shows_choiceText (hcodes _ (by simp [ih, hempty]))
  | repetition _ ih =>
    simp only [fragment, Code.literals]
    exact shows_repetitionText _ ih
  | lookahead _ ih =>
    simp only [fragment, Code.literals]
    exact shows_lookaheadText _ ih
  | @labeled attempt label site _ ih =>
    have hthrow : Shows (fragment n (.throw label site)) (Code.throw label site).literals := by
      simp only [fragment, Code.literals]
      exact shows_throwText label
    simp only [fragment, Code.literals, Code.allLiterals_eq_flatten]
    exact shows_labeledText (shows_choiceText (hcodes _ (by simp [ih, hthrow])))
  | @call rule site hrule =>
    simp only [fragment, Code.literals]
    exact shows_method hparser ((by decide : Unquoted "Parse").append (hnames rule hrule)) hnothing site
  | @builtin rule site _ =>
    have hname : Unquoted ("Parse" ++ rule.name) := by cases rule <;> decide
    simp only [fragment, Code.literals]
    exact shows_method hparser hname hnothing site
  | @literal value site =>
    simp only [fragment, Code.literals]
    exact shows_method hparser (by decide) (shows_stringLiteral value) site
  | @range lo hi site =>
    simp only [fragment, Code.literals]
    exact shows_method hparser (by decide)
      (((shows_runeLiteral lo).ahead (by decide)).append (shows_runeLiteral hi)) site
  | @any site =>
    simp only [fragment, Code.literals]
    exact shows_method hparser (by decide) hnothing site

/-! ## Methods -/

/-- The methods in a list of lines: each line that declares one, and the lines behind it up to the next
one that does. -/
def methodsIn (parser : String) : List (List Char) → List (String × List (List Char))
  | [] => []
  | line :: others =>
    match declared? parser line with
    | some name =>
      (name, line :: others.takeWhile fun line => (declared? parser line).isNone) ::
        methodsIn parser others
    | none => methodsIn parser others

/-- The methods of the type `parser` in a source, in order, with the literals in each. -/
def methodLiterals (parser source : String) : List (String × Option (List Literal)) :=
  (methodsIn parser (source.toList.splitOn '\n')).map fun method =>
    (method.1, literals (['\n'].intercalate method.2))

variable {parser : String}

lemma methodsIn_suffix (first others : List (List Char)) :
    methodsIn parser others <:+ methodsIn parser (first ++ others) := by
  induction first with
  | nil => exact List.suffix_rfl
  | cons line first ih =>
    rw [List.cons_append, methodsIn]
    cases declared? parser line with
    | none => exact ih
    | some name => exact ih.trans (List.suffix_cons _ _)

lemma methodsIn_append_line (first others : String) :
    methodsIn parser (others.toList.splitOn '\n') <:+
      methodsIn parser ((first ++ "\n" ++ others).toList.splitOn '\n') := by
  have hlines : (first ++ "\n" ++ others).toList.splitOn '\n' =
      first.toList.splitOn '\n' ++ others.toList.splitOn '\n' := by
    rw [String.toList_append, String.toList_append, List.append_assoc]
    exact List.splitOn_append_cons_self ..
  rw [hlines]
  exact methodsIn_suffix _ _

/-- Whether the first line of a text declares a method, and no other one does. -/
def IsMethod (parser name text : String) : Prop :=
  ∃ line others, text.toList.splitOn '\n' = line :: others ∧ declared? parser line = some name ∧
    ∀ line ∈ others, declared? parser line = none

lemma isMethod_procedureText (hparser : Unbroken n.parser) {name : String}
    (hname : Text.isAsciiIdentifier name = true) (body : String) :
    IsMethod n.parser ("Parse" ++ name) (procedureText n name body) := by
  let head := methodHead n ("Parse" ++ name) ""
  have hmethod : Text.isAsciiIdentifier ("Parse" ++ name) = true :=
    isAsciiIdentifier_append (by decide) hname
  have hunbroken : Unbroken head := unbroken_methodHead hparser hmethod (by decide)
  obtain ⟨others, htext⟩ : ∃ others, procedureText n name body = head ++ "\n" ++ others :=
    ⟨_, String.intercalate_cons_cons⟩
  have hlines : (procedureText n name body).toList.splitOn '\n' =
      head.toList :: others.toList.splitOn '\n' := by
    rw [htext, String.toList_append, String.toList_append, List.append_assoc,
      ← List.singleton_append, ← List.splitOn_eq_singleton hunbroken]
    exact List.splitOn_append_cons_self ..
  have hdeclared := declared_procedureText hparser hname body
  have hhead : declared n.parser head = ["Parse" ++ name] :=
    declared_methodHead hparser hmethod (by decide)
  have hdeclares : declared? n.parser head.toList = some ("Parse" ++ name) := by
    rw [declared, List.splitOn_eq_singleton hunbroken] at hhead
    cases hline : declared? n.parser head.toList with
    | none => simp [hline] at hhead
    | some found => simpa [hline] using hhead
  refine ⟨_, _, hlines, hdeclares, fun line hline => ?_⟩
  rw [declared, hlines, List.filterMap_cons, hdeclares] at hdeclared
  exact List.filterMap_eq_nil_iff.mp (List.cons.inj hdeclared).2 line hline

lemma splitOn_ended (text : String) :
    (text ++ "\n").toList.splitOn '\n' = text.toList.splitOn '\n' ++ [[]] := by
  rw [String.toList_append]
  exact List.splitOn_append_cons_self ..

/-- What stands behind a method, with a blank line in front, is another method or nothing. -/
lemma methodsIn_cons {name text : String} (h : IsMethod parser name text) {others : List (List Char)}
    (hothers : others.takeWhile (fun line => (declared? parser line).isNone) = [[]]) :
    methodsIn parser (text.toList.splitOn '\n' ++ others) =
      (name, (text ++ "\n").toList.splitOn '\n') :: methodsIn parser others := by
  obtain ⟨line, inner, htext, hline, hinner⟩ := h
  have hnone : ∀ line ∈ inner, (declared? parser line).isNone = true := by
    intro line hmem
    rw [hinner line hmem]
    rfl
  have hbehind : ∀ inner : List (List Char), (∀ line ∈ inner, declared? parser line = none) →
      methodsIn parser (inner ++ others) = methodsIn parser others := by
    intro inner hinner
    induction inner with
    | nil => rfl
    | cons line inner ih =>
      rw [List.cons_append, methodsIn, hinner line List.mem_cons_self]
      exact ih fun line' hmem => hinner line' (List.mem_cons_of_mem line hmem)
  rw [splitOn_ended, htext, List.cons_append, methodsIn, hline]
  simp only [hbehind inner hinner, List.takeWhile_append_of_pos hnone, hothers, List.cons_append]

lemma procedureFragments_eq_map (procedures : List (Procedure Code)) :
    procedureFragments n procedures =
      procedures.map fun q => procedureText n q.name (fragment n q.body) := by
  induction procedures with
  | nil => simp only [procedureFragments, List.map_nil]
  | cons q procedures ih => simp only [procedureFragments, ih, List.map_cons]

/-- The methods of rules, as they stand behind the preamble. -/
def rulesText (texts : List String) : String :=
  String.join (texts.map fun text => "\n" ++ text ++ "\n")

lemma splitOn_rulesText_cons (text : String) (texts : List String) :
    (rulesText (text :: texts)).toList.splitOn '\n' =
      [] :: (text.toList.splitOn '\n' ++ (rulesText texts).toList.splitOn '\n') := by
  have hlist : (rulesText (text :: texts)).toList =
      [] ++ '\n' :: (text.toList ++ '\n' :: (rulesText texts).toList) := by
    simp [rulesText]
  rw [hlist, List.splitOn_append_cons_self, List.splitOn_append_cons_self, List.splitOn_nil,
    List.singleton_append]

lemma declared?_nil : declared? parser [] = none := by
  have hreceiver : receiver parser ≠ [] := by simp [receiver]
  simp [declared?, hreceiver]

/-- Behind the preamble there is one method for each rule. -/
lemma methodsIn_rulesText {texts names : List String} (h : List.Forall₂ (IsMethod parser) names texts) :
    methodsIn parser ((rulesText texts).toList.splitOn '\n') =
      List.zipWith (fun name text => (name, (text ++ "\n").toList.splitOn '\n')) names texts := by
  have hblank : ∀ {texts names : List String}, List.Forall₂ (IsMethod parser) names texts →
      ((rulesText texts).toList.splitOn '\n').takeWhile
        (fun line => (declared? parser line).isNone) = [[]] := by
    intro texts names h
    cases h with
    | nil => simp [rulesText, declared?_nil]
    | cons hmethod _ =>
      obtain ⟨line, inner, htext, hline, -⟩ := hmethod
      simp [splitOn_rulesText_cons, htext, declared?_nil, hline]
  induction h with
  | nil => simp [rulesText, methodsIn, declared?_nil]
  | cons hmethod hrest ih =>
    rw [splitOn_rulesText_cons, methodsIn, declared?_nil]
    simp only [methodsIn_cons hmethod (hblank hrest), ih, List.zipWith_cons_cons]

variable {g : Grammar} {p : Program}

/-- The last methods of a parser are those of its rules, in order. -/
theorem methodsIn_write (hparser : Text.isAsciiIdentifier n.parser = true)
    (hnames : ∀ q ∈ p.procedures, Text.isAsciiIdentifier q.name = true) :
    (p.procedures.map fun q => ("Parse" ++ q.name,
      (procedureText n q.name (fragment n q.body) ++ "\n").toList.splitOn '\n')) <:+
        methodsIn n.parser ((write n p).toList.splitOn '\n') := by
  have hmethods : List.Forall₂ (IsMethod n.parser) (p.procedures.map fun q => "Parse" ++ q.name)
      (procedureFragments n p.procedures) := by
    rw [procedureFragments_eq_map, List.forall₂_map_left_iff, List.forall₂_map_right_iff,
      List.forall₂_same]
    exact fun q hq => isMethod_procedureText (unbroken_of_isAsciiIdentifier hparser) (hnames q hq) _
  have hrules := methodsIn_rulesText hmethods
  rw [procedureFragments_eq_map, List.zipWith_map, List.zipWith_self] at hrules
  obtain ⟨blocks, hpreamble⟩ : ∃ blocks, preamble n p.names = blocks ++ "\n" := ⟨_, rfl⟩
  have hwrite : write n p = blocks ++ "\n" ++ rulesText
      (p.procedures.map fun q => procedureText n q.name (fragment n q.body)) := by
    rw [← hpreamble, ← procedureFragments_eq_map]
    rfl
  rw [← hrules, hwrite]
  exact methodsIn_append_line _ _

/-- The literals of the last methods of a parser are the strings and characters of the rules. -/
theorem methodLiterals_write (hparser : Text.isAsciiIdentifier n.parser = true)
    (hnames : ∀ name ∈ g.names, Text.isAsciiIdentifier name = true)
    (h : ∀ q ∈ p.procedures, q.name ∈ g.names ∧ q.body.Contract g) :
    (p.procedures.map fun q => ("Parse" ++ q.name, some (.string q.name :: q.body.literals))) <:+
      methodLiterals n.parser (write n p) := by
  have hunquoted : ∀ name ∈ g.names, Unquoted name :=
    fun name hname => unquoted_of_isAsciiIdentifier (hnames name hname)
  have hmethods := (methodsIn_write hparser fun q hq => hnames q.name (h q hq).1).map
    fun method => (method.1, literals (['\n'].intercalate method.2))
  rw [List.map_map] at hmethods
  rw [methodLiterals]
  convert hmethods using 1
  refine List.map_congr_left fun q hq => Prod.ext rfl ?_
  have htext := shows_procedureText (unquoted_of_isAsciiIdentifier hparser)
    (hunquoted q.name (h q hq).1) (shows_fragment (unquoted_of_isAsciiIdentifier hparser) hunquoted
      (h q hq).2)
  have hliterals := htext.literals_eq ['\n']
  have hend : literals ['\n'] = some [] := rfl
  rw [hend, Option.map_some, List.append_nil] at hliterals
  simp only [Function.comp, List.intercalate_splitOn, String.toList_append]
  exact hliterals.symm

end Go

namespace Grammar

variable {g : Grammar}

/-- A Go parser keeps every string. The methods of the rules stand last in the source, in order, and
the literals in each of them are the name of the rule and the strings and characters of its code. -/
theorem generate_keeps_literals (hg : g.FromTexts) (hvalid : g.validate = .ok ()) {o : Options}
    {n : Go.Names} (hoptions : Go.Names.ofOptions o = .ok n) :
    ∃ p source, g.compile = .ok p ∧ g.generate .go o = .ok source ∧
      (p.procedures.map fun q => ("Parse" ++ q.name, some (.string q.name :: q.body.literals))) <:+
        Go.methodLiterals o.parserType source := by
  have hplain : g.isPlain = true := List.all_eq_true.mpr <|
    hg.forall_definitions fun _ _ _ _ hbody => hbody.wellFormed.isPlain
  have hnames : ∀ name ∈ g.names, Text.isAsciiIdentifier name = true :=
    List.forall_mem_map.mpr <| hg.forall_definitions fun _ _ _ hname _ => hname
  have hcompile := compile_eq_program hplain hvalid
  have hgenerate : g.generate .go o = .ok (Go.write n g.program) :=
    generate_go_eq_ok_iff.mpr ⟨n, g.program, hoptions, hcompile, rfl⟩
  obtain ⟨-, hparser, rfl⟩ := Go.Names.ofOptions_eq_ok hoptions
  exact ⟨g.program, _, hcompile, hgenerate,
    Go.methodLiterals_write (n := ⟨_, _, _⟩) hparser hnames (contract_program hplain hvalid)⟩

end Grammar

/-- What `Line <- ('"\n' [\]-\\\\'])^quoted` and `Tab <- '\t' Line*` say: a quote and a line break, a range
from a bracket to a backslash, the other quote, a label, and a tab. -/
def escapes : Grammar where
  imports := []
  definitions := [
    ⟨"Line", .labeled "quoted" (.sequence [.literal "\"\n" ⟨9, 14⟩, .oneOrMore (.charClass
      [.range ']' '\\' ⟨16, 21⟩, .literal "'" ⟨21, 22⟩] ⟨15, 23⟩) ⟨15, 24⟩] ⟨9, 24⟩) ⟨8, 32⟩, ⟨0, 33⟩⟩,
    ⟨"Tab", .sequence [.literal "\t" ⟨40, 44⟩, .zeroOrMore (.identifier "Line" ⟨45, 49⟩) ⟨45, 50⟩]
      ⟨40, 50⟩, ⟨33, 50⟩⟩]
  span := ⟨0, 50⟩
  distinct := by decide

/-- A text that is read as `escapes`. -/
def escapesText : {text : String // Grammar.read text = .ok escapes} :=
  ⟨"Line <- ('\"\\n' [\\]-\\\\']+)^quoted\nTab <- '\\t' Line*", by decide +kernel⟩

/-- Each character is escaped where it has to be, and its literal stands some closures deep. -/
theorem generate_keeps_literals_escapes : escapes.validate = .ok () ∧ ∃ source,
    escapes.generate .go {} = .ok source ∧
      [("ParseLine", some [.string "Line", .string "\"\n", .rune ']', .rune '\\', .string "'",
        .string "quoted"]), ("ParseTab", some [.string "Tab", .string "\t"])] <:+
          Go.methodLiterals "Parser" source := by
  have hvalid : escapes.validate = .ok () := rfl
  obtain ⟨p, source, hcompile, hgenerate, hsuffix⟩ := Grammar.generate_keeps_literals
    (.inl ⟨_, escapesText.2⟩) hvalid (o := {}) rfl
  obtain rfl : escapes.program = p := Except.ok.inj (by rw [← hcompile]; rfl)
  exact ⟨hvalid, source, hgenerate, hsuffix⟩

end LabeledPeg
