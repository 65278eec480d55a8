import LabeledPeg.Proofs.Program.Tokens

/-!
# Calls in Go texts

A reader of the calls on the parser in a Go text: which method is called, which type the parser is
narrowed to before, and whether the call stands inside a function of the parser, where the parser is
known by its interface only. The texts that the writer puts around fragments make no calls of their
own and close all blocks that they open.
-/

namespace LabeledPeg

open Text

namespace Go

/-- A call of a rule or of a primitive on the parser: the type that the parser is narrowed to, and
whether the call stands inside a function of the parser. -/
structure Call where
  method : String
  narrowed? : Option String
  inside : Bool
deriving DecidableEq

/-- The method that is selected behind a value, and the type that the value is narrowed to first. -/
def selected? : List Token → Option (List Char × Option (List Char))
  | .mark '.' :: .word name :: .mark '(' :: _ => some (name, none)
  | .mark '.' :: .mark '(' :: .mark '*' :: .word type :: .mark ')' :: .mark '.' :: .word name ::
      .mark '(' :: _ => some (name, some type)
  | _ => none

/-- The call that begins here. The methods of rules and primitives begin with `Parse`. -/
def callAt? (inside : Bool) : List Token → Option Call
  | .word value :: others =>
    if value = ['p'] then
      (selected? others).bind fun selected =>
        if "Parse".toList <+: selected.1 then
          some ⟨String.ofList selected.1, selected.2.map String.ofList, inside⟩
        else none
    else none
  | _ => none

/-- Whether the head of a function of the parser begins here. -/
def beginsClosure : List Token → Bool
  | .word keyword :: others =>
    decide (keyword = "func".toList) &&
      [.mark '(', .word ['p'], .word "parsing".toList, .mark '.', .word "Parser".toList,
        .mark ')'].isPrefixOf others
  | _ => false

/-- The calls from a place on. `opened` tells of each block around it whether it is the body of a
function of the parser, and `closure` whether the next block is one. -/
def callsFrom (closure : Bool) (opened : List Bool) : List Token → List Call
  | [] => []
  | .mark '\x7b' :: others => callsFrom false (closure :: opened) others
  | .mark '\x7d' :: others => callsFrom closure opened.tail others
  | token :: others =>
    (callAt? (opened.any id) (token :: others)).toList ++
      callsFrom (closure || beginsClosure (token :: others)) opened others

/-- The calls in a text, from left to right. -/
def calls? (text : List Char) : Option (List Call) :=
  (tokens? text).map (callsFrom false [])

example : calls? "{ p.ParseA(func(p parsing.Parser) { p.Location(p.(*T).ParseB()) }) }".toList =
    some [⟨"ParseA", none, false⟩, ⟨"ParseB", some "T", true⟩] := by decide +kernel

/-- Whether the calls in a text, at whose end `opened'` are the blocks around, are `found`. -/
def Leads (text : String) (opened opened' : List Bool) (found : List Call) : Prop :=
  ∃ tokens, Tokenizes text tokens ∧ ∀ more,
    callsFrom false opened (tokens ++ more) = found ++ callsFrom false opened' more

variable {text text' : String} {opened opened' opened'' : List Bool} {found found' : List Call}

lemma Leads.append (h : Leads text opened opened' found) (h' : Leads text' opened' opened'' found') :
    Leads (text ++ text') opened opened'' (found ++ found') := by
  obtain ⟨tokens, htext, hcalls⟩ := h
  obtain ⟨tokens', htext', hcalls'⟩ := h'
  refine ⟨_, htext.append htext', fun more => ?_⟩
  rw [List.append_assoc, hcalls, hcalls', List.append_assoc]

lemma Leads.indent (h : Leads (text ++ "\n") opened opened' found) (levels : Nat) :
    Leads (indent levels text ++ "\n") opened opened' found := by
  obtain ⟨tokens, htext, hcalls⟩ := h
  exact ⟨tokens, htext.indent levels, hcalls⟩

section Lines

lemma lines_cons_cons (first second : String) (others : List String) :
    lines (first :: second :: others) = first ++ "\n" ++ lines (second :: others) :=
  String.intercalate_cons_cons

/-- Lines, each with its line break. -/
def ended (ls : List String) : String := String.join (ls.map (· ++ "\n"))

lemma ended_append (ls ls' : List String) : ended (ls ++ ls') = ended ls ++ ended ls' := by
  simp [ended, String.join_append]

lemma ended_lines {ls : List String} (hne : ls ≠ []) : lines ls ++ "\n" = ended ls := by
  induction ls with
  | nil => exact absurd rfl hne
  | cons first others ih =>
    cases others with
    | nil => simp [lines, ended]
    | cons second others =>
      rw [lines_cons_cons, String.append_assoc, ih (by simp)]
      simp [ended]

/-- The calls in lines are those in each line, if the blocks around them are the same. -/
lemma leads_ended {ls : List String} {found : List (List Call)}
    (h : List.Forall₂ (fun line found => Leads (line ++ "\n") opened opened found) ls found) :
    Leads (ended ls) opened opened found.flatten := by
  induction h with
  | nil => exact ⟨[], rfl, fun _ => rfl⟩
  | @cons line _ ls found hline _ ih =>
    have happend : ended (line :: ls) = line ++ "\n" ++ ended ls := by simp [ended]
    rw [happend, List.flatten_cons]
    exact hline.append ih

end Lines

section Fragments

variable {n : Names} {body : String}

lemma leads_tabs (levels : Nat) : Leads (tabs levels) opened opened [] := by
  have htabs : Tokenizes (tabs levels) [] := by
    rw [Tokenizes, tabs, String.toList_ofList]
    exact Scanner.scan_tabs levels
  exact ⟨[], htabs, fun _ => rfl⟩

lemma leads_closure (levels : Nat)
    (h : Leads (body ++ "\n") (true :: opened) (true :: opened) found) :
    Leads (closure levels body) opened opened found := by
  have hhead : Leads (closureHeader ++ "\n") opened (true :: opened) [] := ⟨_, rfl, fun _ => rfl⟩
  have hreturn : Leads "\treturn " (true :: opened) (true :: opened) [] := ⟨_, rfl, fun _ => rfl⟩
  have hclose : Leads "\x7d" (true :: opened) opened [] := ⟨_, rfl, fun _ => rfl⟩
  have hclosure := (((hhead.append (leads_tabs levels)).append hreturn).append
    (h.indent (levels + 1))).append ((leads_tabs levels).append hclose)
  simpa only [closure, String.append_assoc, List.nil_append, List.append_nil] using hclosure

lemma leads_returnError : Leads (ended returnError) opened opened [] := ⟨_, rfl, fun _ => rfl⟩

/-- Lines with a line between them whose calls are known. -/
lemma Leads.between (first last : List String) {line : String} {opened₁ opened₂ : List Bool}
    (h : Leads (line ++ "\n") opened₁ opened₂ found) (hfirst : Leads (ended first) opened opened₁ [])
    (hlast : Leads (ended last) opened₂ opened' []) :
    Leads (lines (first ++ [line] ++ last) ++ "\n") opened opened' found := by
  have hline : ended [line] = line ++ "\n" := by simp [ended]
  rw [ended_lines (by simp), ended_append, ended_append, hline]
  simpa using (hfirst.append h).append hlast

lemma leads_step (h : Leads (body ++ "\n") opened opened found) :
    Leads (step body ++ "\n") opened opened found := by
  have hhead : Leads "\titem, err = " opened opened [] := ⟨_, rfl, fun _ => rfl⟩
  have hline : Leads ("\titem, err = " ++ indent 1 body ++ "\n") opened opened found := by
    rw [String.append_assoc]
    exact hhead.append (h.indent 1)
  rw [step, List.append_assoc]
  exact hline.between [] _ ⟨_, rfl, fun _ => rfl⟩ ⟨_, rfl, fun _ => rfl⟩

lemma leads_sequenceText {steps : List String} {found : List (List Call)}
    (h : List.Forall₂ (fun text found => Leads (text ++ "\n") (true :: opened) (true :: opened) found)
      steps found) : Leads (sequenceText steps ++ "\n") opened opened found.flatten := by
  have hopen : Leads (ended ["(" ++ closureHeader, "\tvar ("]) opened (true :: opened) [] :=
    ⟨_, rfl, fun _ => rfl⟩
  have hvalues : Leads (ended ["\t\tstart = p.Location()", "\t\titems []parsing.Value"])
      (true :: opened) (true :: opened) [] := ⟨_, rfl, fun _ => rfl⟩
  have hothers : Leads (ended ["\t\titem  parsing.Value", "\t\terr   error", "\t)"])
      (true :: opened) (true :: opened) [] := ⟨_, rfl, fun _ => rfl⟩
  have hsteps : List.Forall₂ (fun line found => Leads (line ++ "\n") (true :: opened)
      (true :: opened) found) (steps.map step) found := by
    rw [List.forall₂_map_left_iff]
    exact h.imp fun _ _ => leads_step
  have hlast : Leads (ended [returnItems, "\x7d(p))"]) (true :: opened) opened [] :=
    ⟨_, rfl, fun _ => rfl⟩
  have hhead := (hopen.append hvalues).append hothers
  rw [← ended_append, ← ended_append] at hhead
  rw [sequenceText, ended_lines (by simp), ended_append, ended_append]
  simpa using (hhead.append (leads_ended hsteps)).append hlast

lemma leads_choiceText {alternatives : List String} (hne : alternatives ≠ []) {found : List (List Call)}
    (h : List.Forall₂ (fun text found => Leads (text ++ "\n") (true :: false :: opened)
      (true :: false :: opened) found) alternatives found) :
    Leads (choiceText alternatives ++ "\n") opened opened found.flatten := by
  have halternatives : List.Forall₂ (fun line found => Leads (line ++ "\n") (false :: opened)
      (false :: opened) found) (alternatives.map fun code => "\t" ++ closure 1 code ++ ",") found := by
    have htab : Leads "\t" (false :: opened) (false :: opened) [] := ⟨_, rfl, fun _ => rfl⟩
    have hcomma : Leads ",\n" (false :: opened) (false :: opened) [] := ⟨_, rfl, fun _ => rfl⟩
    rw [List.forall₂_map_left_iff]
    refine h.imp fun code found hcode => ?_
    have hline := (htab.append (leads_closure 1 hcode)).append hcomma
    simpa [String.append_assoc] using hline
  have hmiddle : Leads (lines (alternatives.map fun code => "\t" ++ closure 1 code ++ ",") ++ "\n")
      (false :: opened) (false :: opened) found.flatten := by
    rw [ended_lines (by simpa using hne)]
    exact leads_ended halternatives
  exact hmiddle.between ["parsing.Choice(p, []parsing.ParserFn[parsing.Value]\x7b"] ["\x7d)"]
    ⟨_, rfl, fun _ => rfl⟩ ⟨_, rfl, fun _ => rfl⟩

lemma leads_repetitionText (kind : Repetition)
    (h : Leads (body ++ "\n") (true :: true :: opened) (true :: true :: opened) found) :
    Leads (repetitionText kind body ++ "\n") opened opened found := by
  have hhead : Leads ("\titems, err := parsing." ++ repetitionName kind ++ "(p, ") (true :: opened)
      (true :: opened) [] := by
    cases kind <;> exact ⟨_, rfl, fun _ => rfl⟩
  have hclose : Leads ")\n" (true :: opened) (true :: opened) [] := ⟨_, rfl, fun _ => rfl⟩
  have hline : Leads ("\titems, err := parsing." ++ repetitionName kind ++ "(p, " ++ closure 1 body ++
      ")" ++ "\n") (true :: opened) (true :: opened) found := by
    simpa [String.append_assoc] using (hhead.append (leads_closure 1 h)).append hclose
  have hfirst : Leads (ended ["(" ++ closureHeader, "\tstart := p.Location()"]) opened (true :: opened) [] :=
    ⟨_, rfl, fun _ => rfl⟩
  have hlast : Leads (ended (returnError ++ [returnItems, "\x7d(p))"])) (true :: opened) opened [] := by
    rw [ended_append]
    exact Leads.append (leads_returnError) ⟨_, rfl, fun _ => rfl⟩
  simpa [repetitionText] using hline.between _ _ hfirst hlast

lemma leads_lookaheadText (kind : Lookahead)
    (h : Leads (body ++ "\n") (true :: opened) (true :: opened) found) :
    Leads (lookaheadText kind body ++ "\n") opened opened found := by
  have hhead : Leads ("parsing." ++ lookaheadName kind ++ "(p, ") opened opened [] := by
    cases kind <;> exact ⟨_, rfl, fun _ => rfl⟩
  have hclose : Leads ")\n" opened opened [] := ⟨_, rfl, fun _ => rfl⟩
  simpa [lookaheadText, String.append_assoc] using (hhead.append (leads_closure 0 h)).append hclose

lemma leads_labeledText (h : Leads (body ++ "\n") (true :: opened) (true :: opened) found) :
    Leads (labeledText body ++ "\n") opened opened found := by
  have hhead : Leads "\treturn " (true :: opened) (true :: opened) [] := ⟨_, rfl, fun _ => rfl⟩
  have hline : Leads ("\treturn " ++ indent 1 body ++ "\n") (true :: opened) (true :: opened) found := by
    rw [String.append_assoc]
    exact hhead.append (h.indent 1)
  exact hline.between ["(" ++ closureHeader, "\tstart := p.Location()"] ["\x7d(p))"]
    ⟨_, rfl, fun _ => rfl⟩ ⟨_, rfl, fun _ => rfl⟩

lemma leads_stringLiteral (value : String) : Leads (stringLiteral value) opened opened [] :=
  ⟨_, tokenizes_stringLiteral value, fun _ => rfl⟩

lemma leads_runeLiteral (c : Char) : Leads (runeLiteral c) opened opened [] :=
  ⟨_, tokenizes_runeLiteral c, fun _ => rfl⟩

lemma leads_throwText (label : String) : Leads (throwText label ++ "\n") opened opened [] := by
  have hhead : Leads "nil, p.Throw(" opened opened [] := ⟨_, rfl, fun _ => rfl⟩
  have hlast : Leads ", parsing.NewSpan(start, p.Location()))\n" opened opened [] :=
    ⟨_, rfl, fun _ => rfl⟩
  simpa [throwText, String.append_assoc] using (hhead.append (leads_stringLiteral label)).append hlast

/-! ## Calls of methods -/

lemma callsFrom_quiet {closure : Bool} {word : List Char} {others : List Token}
    (hcall : callAt? (opened.any id) (.word word :: others) = none)
    (hclosure : beginsClosure (.word word :: others) = false) :
    callsFrom closure opened (.word word :: others) = callsFrom closure opened others := by
  have hword : callsFrom closure opened (.word word :: others) =
      (callAt? (opened.any id) (.word word :: others)).toList ++
        callsFrom (closure || beginsClosure (.word word :: others)) opened others := rfl
  rw [hword, hcall, hclosure, Bool.or_false]
  rfl

lemma callsFrom_word {closure : Bool} {word : List Char} (hvalue : word ≠ ['p'])
    (hkeyword : word ≠ "func".toList) (others : List Token) :
    callsFrom closure opened (.word word :: others) = callsFrom closure opened others := by
  refine callsFrom_quiet ?_ ?_
  · rw [callAt?, if_neg hvalue]
  · rw [beginsClosure, decide_eq_false hkeyword, Bool.false_and]

/-- A name before a closing parenthesis is no call, whatever name it is. -/
lemma callsFrom_word_closing {closure : Bool} (word : List Char) (others : List Token) :
    callsFrom closure opened (.word word :: .mark ')' :: others) =
      callsFrom closure opened (.mark ')' :: others) := by
  refine callsFrom_quiet ?_ ?_
  · rw [callAt?]
    split <;> rfl
  · rw [beginsClosure]
    exact Bool.and_false _

lemma ne_of_parse_prefix {name word : List Char} (hname : "Parse".toList <+: name)
    (hword : word.head? ≠ some 'P') : name ≠ word := by
  obtain ⟨others, rfl⟩ := hname
  rintro rfl
  exact hword rfl

lemma callsFrom_direct {name : String} (hparse : "Parse".toList <+: name.toList)
    (others : List Token) :
    callsFrom false opened
        (.word ['p'] :: .mark '.' :: .word name.toList :: .mark '(' :: others) =
      ⟨name, none, opened.any id⟩ :: callsFrom false opened (.word name.toList :: .mark '(' :: others) := by
  have hcall : callAt? (opened.any id)
      (.word ['p'] :: .mark '.' :: .word name.toList :: .mark '(' :: others) =
        some ⟨name, none, opened.any id⟩ := by
    rw [callAt?, if_pos rfl, selected?, Option.bind_some, if_pos hparse]
    simp
  calc
    _ = (callAt? (opened.any id)
        (.word ['p'] :: .mark '.' :: .word name.toList :: .mark '(' :: others)).toList ++
          callsFrom false opened (.word name.toList :: .mark '(' :: others) := rfl
    _ = _ := by rw [hcall]; rfl

lemma callsFrom_narrowed {name : String} (hparse : "Parse".toList <+: name.toList) (parser : String)
    (others : List Token) :
    callsFrom false opened (.word ['p'] :: .mark '.' :: .mark '(' :: .mark '*' :: .word parser.toList ::
        .mark ')' :: .mark '.' :: .word name.toList :: .mark '(' :: others) =
      ⟨name, some parser, opened.any id⟩ ::
        callsFrom false opened (.word name.toList :: .mark '(' :: others) := by
  have hcall : callAt? (opened.any id) (.word ['p'] :: .mark '.' :: .mark '(' :: .mark '*' ::
      .word parser.toList :: .mark ')' :: .mark '.' :: .word name.toList :: .mark '(' :: others) =
        some ⟨name, some parser, opened.any id⟩ := by
    rw [callAt?, if_pos rfl, selected?, Option.bind_some, if_pos hparse]
    simp
  calc
    _ = (callAt? (opened.any id) (.word ['p'] :: .mark '.' :: .mark '(' :: .mark '*' ::
        .word parser.toList :: .mark ')' :: .mark '.' :: .word name.toList :: .mark '(' :: others)).toList ++
          callsFrom false opened (.word parser.toList :: .mark ')' :: .mark '.' ::
            .word name.toList :: .mark '(' :: others) := rfl
    _ = _ := by rw [hcall, callsFrom_word_closing]; rfl

lemma leads_method (hparser : isAsciiIdentifier n.parser = true) {name args : String}
    (hname : isAsciiIdentifier name = true) (hparse : "Parse".toList <+: name.toList)
    (hargs : Leads args opened opened []) (site : CallSite) :
    Leads (method n name args site ++ "\n") opened opened
      [⟨name, if site = .nested then some n.parser else none, opened.any id⟩] := by
  obtain ⟨tokens, htokens, hquiet⟩ := hargs
  have hopen : Tokenizes "(" [.mark '('] := rfl
  have hclose : Tokenizes ")\n" [.mark ')'] := rfl
  have hbehind := (hopen.append htokens).append hclose
  have hlist : ("(" ++ args ++ ")\n").toList = '(' :: (args ++ ")\n").toList := by simp
  have hcall := hbehind.behind_name hlist (by decide) hname
  have hvalue : name.toList ≠ ['p'] := ne_of_parse_prefix hparse (by decide)
  have hkeyword : name.toList ≠ "func".toList := ne_of_parse_prefix hparse (by decide)
  have hmore : ∀ more, callsFrom false opened
      (.word name.toList :: .mark '(' :: (tokens ++ .mark ')' :: more)) = callsFrom false opened more := by
    intro more
    rw [callsFrom_word hvalue hkeyword]
    exact hquiet (.mark ')' :: more)
  cases site with
  | rule =>
    have htokens : Tokenizes "p." [.word ['p'], .mark '.'] := rfl
    refine ⟨_, by simpa [method, String.append_assoc] using htokens.append hcall, fun more => ?_⟩
    simp [callsFrom_direct hparse, hmore]
  | nested =>
    have htokens : Tokenizes "p.(*" [.word ['p'], .mark '.', .mark '(', .mark '*'] := rfl
    have hdot : Tokenizes ")." [.mark ')', .mark '.'] := rfl
    have hdotted : (")." ++ (name ++ ("(" ++ args ++ ")\n"))).toList =
        ')' :: ("." ++ (name ++ ("(" ++ args ++ ")\n"))).toList := by simp
    have hnarrowed := htokens.append ((hdot.append hcall).behind_name hdotted (by decide) hparser)
    refine ⟨_, by simpa [method, String.append_assoc] using hnarrowed, fun more => ?_⟩
    simp [callsFrom_narrowed hparse, hmore]

lemma leads_methodHead (hparser : isAsciiIdentifier n.parser = true) {name : String}
    (hname : isAsciiIdentifier name = true) (hparse : "Parse".toList <+: name.toList) :
    Leads (methodHead n name "" ++ "\n") opened (false :: opened) [] := by
  have hreceiver : Tokenizes "func (p *" [.word "func".toList, .mark '(', .word ['p'], .mark '*'] := rfl
  have hspace : Tokenizes ") " [.mark ')'] := rfl
  have hlast : Tokenizes "() (parsing.Value, error) \x7b\n" [.mark '(', .mark ')', .mark '(',
      .word "parsing".toList, .mark '.', .word "Value".toList, .mark ',', .word "error".toList,
      .mark ')', .mark '\x7b'] := rfl
  have hlist : "() (parsing.Value, error) \x7b\n".toList =
      '(' :: ") (parsing.Value, error) \x7b\n".toList := rfl
  have hnamed := hlast.behind_name hlist (by decide) hname
  have hspaced : (") " ++ (name ++ "() (parsing.Value, error) \x7b\n")).toList =
      ')' :: (" " ++ (name ++ "() (parsing.Value, error) \x7b\n")).toList := by simp
  have htext := hreceiver.append ((hspace.append hnamed).behind_name hspaced (by decide) hparser)
  have hhead : methodHead n name "" ++ "\n" =
      "func (p *" ++ (n.parser ++ (") " ++ (name ++ "() (parsing.Value, error) \x7b\n"))) := by
    apply String.toList_injective
    simp [methodHead]
  refine ⟨_, hhead ▸ htext, fun more => ?_⟩
  have hvalue : name.toList ≠ ['p'] := ne_of_parse_prefix hparse (by decide)
  have hkeyword : name.toList ≠ "func".toList := ne_of_parse_prefix hparse (by decide)
  calc
    _ = callsFrom false opened (.word n.parser.toList :: .mark ')' :: .word name.toList ::
        .mark '(' :: .mark ')' :: .mark '(' :: .word "parsing".toList :: .mark '.' ::
          .word "Value".toList :: .mark ',' :: .word "error".toList :: .mark ')' :: .mark '\x7b' ::
            more) := rfl
    _ = callsFrom false opened (.word name.toList ::
        .mark '(' :: .mark ')' :: .mark '(' :: .word "parsing".toList :: .mark '.' ::
          .word "Value".toList :: .mark ',' :: .word "error".toList :: .mark ')' :: .mark '\x7b' ::
            more) := callsFrom_word_closing _ _
    _ = callsFrom false (false :: opened) more := callsFrom_word hvalue hkeyword _

/-- The calls in the method of a rule are those in the code of the rule. -/
lemma leads_procedureText (hparser : isAsciiIdentifier n.parser = true) {name : String}
    (hname : isAsciiIdentifier name = true)
    (h : Leads (body ++ "\n") (false :: opened) (false :: opened) found) :
    Leads (procedureText n name body ++ "\n") opened opened found := by
  have hmethod : isAsciiIdentifier ("Parse" ++ name) = true :=
    isAsciiIdentifier_append (by decide) hname
  have hparse : "Parse".toList <+: ("Parse" ++ name).toList := by simp
  have hhead : Leads (methodHead n ("Parse" ++ name) "" ++ "\n") opened (false :: opened) [] :=
    leads_methodHead hparser hmethod hparse
  have hpush : Leads "\tp.PushTraceSpan(parsing.TracerSpan\x7bName: " (false :: opened)
      (false :: false :: opened) [] := ⟨_, rfl, fun _ => rfl⟩
  have hpop : Leads "\x7d)\n\tdefer p.PopTraceSpan()\n\treturn " (false :: false :: opened)
      (false :: opened) [] := ⟨_, rfl, fun _ => rfl⟩
  have hlast : Leads "\x7d\n" (false :: opened) opened [] := ⟨_, rfl, fun _ => rfl⟩
  have hspan := (hhead.append hpush).append ((leads_stringLiteral name).append hpop)
  have htext : procedureText n name body ++ "\n" = methodHead n ("Parse" ++ name) "" ++ "\n" ++
      "\tp.PushTraceSpan(parsing.TracerSpan\x7bName: " ++ (stringLiteral name ++
        "\x7d)\n\tdefer p.PopTraceSpan()\n\treturn ") ++ (indent 1 body ++ "\n") ++ "\x7d\n" := by
    rw [procedureText, ended_lines (by simp)]
    apply String.toList_injective
    simp [ended]
  rw [htext]
  simpa using (hspan.append (h.indent 1)).append hlast

end Fragments

end Go

end LabeledPeg
