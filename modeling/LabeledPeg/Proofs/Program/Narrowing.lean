import LabeledPeg.Proofs.Program.Literals
import LabeledPeg.Proofs.Program.Receivers
import LabeledPeg.Proofs.Program.Sites

/-!
# Calls are narrowed where they have to be

Every call in the method of a rule stems from a leaf of its code. It stands inside a function of the
parser exactly if the leaf lies below a fragment with a function of its own, and the mark of the leaf
tells the same, so the parser is narrowed in the functions and nowhere else.
-/

namespace LabeledPeg

open Text

namespace Code

/-- The method of the parser that a leaf calls. Labels are thrown by the runtime itself. -/
def method? : Code → Option String
  | call rule _ => some ("Parse" ++ rule)
  | builtin rule _ => some ("Parse" ++ rule.name)
  | literal _ _ => some "ParseLiteral"
  | range _ _ _ => some "ParseRange"
  | any _ => some "ParseAny"
  | sequence _ | choice _ | empty | repetition _ _ | lookahead _ _ | labeled _ | throw _ _
  | procedure _ _ | program _ => none

/-- The call of a leaf, in a parser of the type `parser`. It is narrowed if the leaf is marked so. -/
def Leaf.call? (parser : String) (leaf : Leaf) : Option Go.Call :=
  leaf.code.method?.map fun method =>
    ⟨method, if leaf.code.site? = some .nested then some parser else none, leaf.below⟩

/-- The calls of the leaves of a fragment. -/
def leafCalls (parser : String) (below : Bool) (code : Code) : List Go.Call :=
  (code.leaves below).filterMap (Leaf.call? parser)

lemma leaves_of_site? {leaf : Code} {site : CallSite} (h : leaf.site? = some site) (below : Bool) :
    leaf.leaves below = [⟨leaf, below⟩] := by
  cases leaf <;> simp_all [site?, leaves]

lemma leafCalls_of_site? {leaf : Code} {method : String} {site : CallSite}
    (hmethod : leaf.method? = some method) (hsite : leaf.site? = some site) (parser : String)
    (below : Bool) : leaf.leafCalls parser below =
      [⟨method, if site = .nested then some parser else none, below⟩] := by
  simp [leafCalls, leaves_of_site? hsite, Leaf.call?, hmethod, hsite]

lemma filterMap_allLeaves (parser : String) (below : Bool) (codes : List Code) :
    (allLeaves below codes).filterMap (Leaf.call? parser) = (codes.map (leafCalls parser below)).flatten := by
  rw [allLeaves_eq_flatMap, List.filterMap_flatMap, ← List.flatMap_def]
  rfl

end Code

namespace Go

variable {n : Names} {g : Grammar}

lemma leads_leaf (hparser : isAsciiIdentifier n.parser = true) {leaf : Code} {name args : String}
    {site : CallSite} {opened : List Bool} (htext : fragment n leaf = method n name args site)
    (hmethod : leaf.method? = some name) (hsite : leaf.site? = some site)
    (hname : isAsciiIdentifier name = true) (hparse : "Parse".toList <+: name.toList)
    (hargs : Leads args opened opened []) : Leads (fragment n leaf ++ "\n") opened opened
      (leaf.leafCalls n.parser (opened.any id)) := by
  rw [Code.leafCalls_of_site? hmethod hsite, htext]
  exact leads_method hparser hname hparse hargs site

/-- The calls in a fragment are those of its leaves. -/
theorem leads_fragment (hparser : isAsciiIdentifier n.parser = true)
    (hnames : ∀ name ∈ g.names, isAsciiIdentifier name = true) {code : Code} (h : code.Contract g)
    (opened : List Bool) : Leads (fragment n code ++ "\n") opened opened
      (code.leafCalls n.parser (opened.any id)) := by
  have hcodes : ∀ (codes : List Code) (opened : List Bool), (∀ c ∈ codes, ∀ opened,
      Leads (fragment n c ++ "\n") opened opened (c.leafCalls n.parser (opened.any id))) →
      List.Forall₂ (fun text found => Leads (text ++ "\n") opened opened found) (fragments n codes)
        (codes.map (Code.leafCalls n.parser (opened.any id))) := by
    intro codes opened ih
    rw [fragments_eq_map, List.forall₂_map_left_iff, List.forall₂_map_right_iff, List.forall₂_same]
    exact fun c hc => ih c hc opened
  have hparse : ∀ rule : String, "Parse".toList <+: ("Parse" ++ rule).toList := by simp
  have hnothing : ∀ {opened : List Bool}, Leads "" opened opened [] := ⟨[], rfl, fun _ => rfl⟩
  induction h generalizing opened with
  | @sequence steps _ ih =>
    simp only [fragment, Code.leafCalls, Code.leaves, Code.filterMap_allLeaves]
    exact leads_sequenceText (hcodes steps (true :: opened) ih)
  | @choice alternatives hlength _ ih =>
    have hne : fragments n alternatives ≠ [] := by
      rw [fragments_eq_map]
      simpa using List.ne_nil_of_length_pos (by omega)
    simp only [fragment, Code.leafCalls, Code.leaves, Code.filterMap_allLeaves]
    exact leads_choiceText hne (hcodes alternatives (true :: false :: opened) ih)
  | @optional attempt _ ih =>
    have hempty : ∀ opened, Leads (fragment n .empty ++ "\n") opened opened
        (Code.empty.leafCalls n.parser (opened.any id)) := by
      intro opened
      simp only [fragment, Code.leafCalls, Code.leaves]
      exact ⟨_, rfl, fun _ => rfl⟩
    have hchoice := hcodes [attempt, .empty] (true :: false :: opened) (by simpa [hempty] using ih)
    simp only [fragment, Code.leafCalls, Code.leaves, Code.filterMap_allLeaves]
    exact leads_choiceText (by simp [fragments]) hchoice
  | @repetition kind body _ ih =>
    simp only [fragment, Code.leafCalls, Code.leaves]
    exact leads_repetitionText kind (ih (true :: true :: opened))
  | @lookahead kind body _ ih =>
    simp only [fragment, Code.leafCalls, Code.leaves]
    exact leads_lookaheadText kind (ih (true :: opened))
  | @labeled attempt label site _ ih =>
    have hthrow : ∀ opened, Leads (fragment n (.throw label site) ++ "\n") opened opened
        ((Code.throw label site).leafCalls n.parser (opened.any id)) := by
      intro opened
      simp only [fragment, Code.leafCalls, Code.leaves]
      exact leads_throwText label
    have hchoice := hcodes [attempt, .throw label site] (true :: false :: true :: opened)
      (by simpa [hthrow] using ih)
    simp only [fragment, Code.leafCalls, Code.leaves, Code.filterMap_allLeaves]
    exact leads_labeledText (leads_choiceText (by simp [fragments]) hchoice)
  | @call rule site hrule =>
    have hname := isAsciiIdentifier_append (by decide : isAsciiIdentifier "Parse" = true)
      (hnames rule hrule)
    exact leads_leaf hparser (by simp only [fragment]) rfl rfl hname (hparse rule) hnothing
  | @builtin rule site _ =>
    have hname : isAsciiIdentifier ("Parse" ++ rule.name) = true := by cases rule <;> decide
    exact leads_leaf hparser (by simp only [fragment]) rfl rfl hname (hparse rule.name) hnothing
  | @literal value site =>
    exact leads_leaf hparser (by simp only [fragment]) rfl rfl (by decide) (by decide)
      (leads_stringLiteral value)
  | @range lo hi site =>
    have hcomma : Leads ", " opened opened [] := ⟨_, rfl, fun _ => rfl⟩
    have htext := ((leads_runeLiteral lo).append hcomma).append (leads_runeLiteral hi)
    exact leads_leaf hparser (by simp only [fragment]) rfl rfl (by decide) (by decide) htext
  | @any site =>
    exact leads_leaf hparser (by simp only [fragment]) rfl rfl (by decide) (by decide) hnothing

/-- The methods of the type `parser` in a source, in order, with the calls in each. -/
def methodCalls (parser source : String) : List (String × Option (List Call)) :=
  (methodsIn parser (source.toList.splitOn '\n')).map fun method =>
    (method.1, calls? (['\n'].intercalate method.2))

lemma Leads.calls?_eq {text : String} {found : List Call} (h : Leads text [] [] found) :
    calls? text.toList = some found := by
  obtain ⟨tokens, htext, hcalls⟩ := h
  have hbreak : Scanner.scan {} ['\n'] = some ({}, []) := rfl
  have htokens : tokens? text.toList = some (tokens ++ []) := by
    rw [tokens?, Scanner.scan_append htext hbreak, Option.map_some]
  rw [calls?, htokens, Option.map_some, hcalls]
  simp [callsFrom]

/-- The calls of the last methods of a parser are those of the leaves of the rules. -/
theorem methodCalls_write {p : Program} (hparser : isAsciiIdentifier n.parser = true)
    (hnames : ∀ name ∈ g.names, isAsciiIdentifier name = true)
    (h : ∀ q ∈ p.procedures, q.name ∈ g.names ∧ q.body.Contract g) :
    (p.procedures.map fun q => ("Parse" ++ q.name, some (q.body.leafCalls n.parser false))) <:+
      methodCalls n.parser (write n p) := by
  have hmethods := (methodsIn_write hparser fun q hq => hnames q.name (h q hq).1).map
    fun method => (method.1, calls? (['\n'].intercalate method.2))
  rw [List.map_map] at hmethods
  rw [methodCalls]
  convert hmethods using 1
  refine List.map_congr_left fun q hq => Prod.ext rfl ?_
  have hbody := leads_fragment hparser hnames (h q hq).2 [false]
  have htext := leads_procedureText hparser (hnames q.name (h q hq).1) hbody
  simp only [Function.comp, List.intercalate_splitOn, htext.calls?_eq]
  rfl

end Go

/-- A call is narrowed if the mark of its leaf says so, which it does if the leaf lies below a
fragment with a function of its own. -/
lemma Code.AllMarked.narrowed?_eq {code : Code} {below : Bool} (h : code.AllMarked below)
    {parser : String} {call : Go.Call} (hcall : call ∈ code.leafCalls parser below) :
    call.narrowed? = if call.inside then some parser else none := by
  obtain ⟨leaf, hleaf, hmade⟩ := List.mem_filterMap.mp hcall
  obtain ⟨method, -, rfl⟩ := Option.map_eq_some_iff.mp hmade
  have hsite : leaf.code.site? = some (.of leaf.below) := h leaf hleaf
  cases hbelow : leaf.below <;> simp [hsite, hbelow, CallSite.of]

namespace Grammar

/-- In the parser of a grammar from texts a leaf is marked as nested exactly if it lies below a
sequence, choice, repetition, lookahead or labeled fragment of its rule. In a Go source the methods of
the rules stand last and make the calls of the leaves, and the parser is narrowed in a call exactly if
it stands inside a function of the parser. -/
theorem nested_iff_narrowed {g : Grammar} (hg : g.FromTexts) {p : Program} (hp : g.compile = .ok p) :
    (∀ q ∈ p.procedures, ∀ leaf ∈ q.body.leaves false,
      leaf.code.site? = some (if leaf.below then .nested else .rule)) ∧
    ∀ (o : Options) (source : String), g.generate .go o = .ok source →
      (p.procedures.map fun q => ("Parse" ++ q.name, some (q.body.leafCalls o.parserType false))) <:+
        Go.methodCalls o.parserType source ∧
      ∀ q ∈ p.procedures, ∀ call ∈ q.body.leafCalls o.parserType false,
        call.narrowed? = if call.inside then some o.parserType else none := by
  have hmarked := allMarked_of_compile hg.isPlain hp
  refine ⟨hmarked, fun o source hsource => ⟨?_, fun q hq call => (hmarked q hq).narrowed?_eq⟩⟩
  have hvalid := validate_of_compile hg.isPlain hp
  have hprogram := compile_eq_program hg.isPlain hvalid
  obtain rfl : g.program = p := Except.ok.inj (hprogram.symm.trans hp)
  have hnames : ∀ name ∈ g.names, isAsciiIdentifier name = true :=
    List.forall_mem_map.mpr <| hg.forall_definitions fun _ _ _ hname _ => hname
  obtain ⟨n, p, hoptions, hp', rfl⟩ := generate_go_eq_ok_iff.mp hsource
  obtain rfl := Except.ok.inj (hprogram.symm.trans hp')
  obtain ⟨-, hparser, rfl⟩ := Go.Names.ofOptions_eq_ok hoptions
  exact Go.methodCalls_write (n := ⟨_, _, _⟩) hparser hnames (contract_program hg.isPlain hvalid)

end Grammar

/-- `Sum <- Num ('+' Num^num)* !.`, `Num <- #Digit` and `Digit <- [0-9]`, each in a line. -/
def sums : Grammar where
  imports := []
  definitions := [
    ⟨"Sum", .sequence [.identifier "Num" ⟨7, 10⟩, .zeroOrMore (.sequence [.literal "+" ⟨12, 15⟩,
      .labeled "num" (.identifier "Num" ⟨16, 19⟩) ⟨16, 23⟩] ⟨12, 23⟩) ⟨11, 25⟩,
      .notPredicate (.any ⟨27, 28⟩) ⟨26, 29⟩] ⟨7, 29⟩, ⟨0, 29⟩⟩,
    ⟨"Num", .lexical (.identifier "Digit" ⟨37, 42⟩) ⟨36, 43⟩, ⟨29, 43⟩⟩,
    ⟨"Digit", .charClass [.range '0' '9' ⟨53, 56⟩] ⟨52, 57⟩, ⟨43, 57⟩⟩]
  span := ⟨0, 57⟩
  distinct := by decide

/-- A text that is read as `sums`. -/
def sumsText : {text : String // Grammar.read text = .ok sums} :=
  ⟨"Sum <- Num ('+' Num^num)* !.\nNum <- #Digit\nDigit <- [0-9]", by decide +kernel⟩

/-- Neither `lexical` nor a class of one member is a function of its own; everything else in these
rules is. -/
theorem nested_iff_narrowed_sums : sums.compile = .ok sums.program ∧ ∃ source,
    sums.generate .go {} = .ok source ∧
      [("ParseSum", some [⟨"ParseSpacing", some "Parser", true⟩, ⟨"ParseNum", some "Parser", true⟩,
          ⟨"ParseSpacing", some "Parser", true⟩, ⟨"ParseSpacing", some "Parser", true⟩,
          ⟨"ParseLiteral", some "Parser", true⟩, ⟨"ParseSpacing", some "Parser", true⟩,
          ⟨"ParseNum", some "Parser", true⟩, ⟨"ParseSpacing", some "Parser", true⟩,
          ⟨"ParseAny", some "Parser", true⟩]),
        ("ParseNum", some [⟨"ParseDigit", none, false⟩]),
        ("ParseDigit", some [⟨"ParseRange", none, false⟩])] <:+ Go.methodCalls "Parser" source := by
  have hcompile : sums.compile = .ok sums.program := by rfl
  have hgenerate : sums.generate .go {} = .ok (Go.write ⟨"parser", "Parser", Go.defaultRuntime⟩
      sums.program) := by
    rfl
  obtain ⟨-, hwritten⟩ := Grammar.nested_iff_narrowed (.inl ⟨_, sumsText.2⟩) hcompile
  exact ⟨hcompile, _, hgenerate, (hwritten {} _ hgenerate).1⟩

end LabeledPeg
