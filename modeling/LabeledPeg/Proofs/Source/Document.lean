import LabeledPeg.Proofs.Source.RoundTrip

/-!
# Grammar texts are read back

A grammar is written as its imports and its definitions, a line each, and line breaks mean nothing.
An import ends with its path. The body of a definition ends where a name stands before an arrow. The
words of an import are no keywords elsewhere, so that definitions and imported names may be called
after them.
-/

namespace LabeledPeg

open Text Source

/-- Whether an import was read for one that was written: the same, but for its span. -/
def Import.ReadFor (i i' : Import) : Prop :=
  i'.path = i.path ∧ i'.names = i.names ∧ i'.takesAll = i.takesAll

/-- Whether a definition was read for one that was written: the same name and, up to spans, the
normal form of the body. -/
def Rule.ReadFor (d d' : Definition) : Prop :=
  d'.name = d.name ∧ d'.body.unspanned = d.body.normal.unspanned

namespace Source.Reader

variable {source rest : List Char} {term : Term}

lemma refuses_absent_token {text : List Char} (h : ¬ text <+: source) :
    Refuses (token text) source := by
  have hafter : ∀ offset, Cursor.after? text ⟨offset, source⟩ = none := by
    induction text generalizing source with
    | nil => exact absurd List.nil_prefix h
    | cons c text ih =>
      intro offset
      cases source with
      | nil => rfl
      | cons c' source =>
        rw [Cursor.after?]
        split
        · next heq =>
          rw [heq, List.prefix_cons_inj] at h
          exact ih h _
        · rfl
  intro offset
  rw [token, result_ofCursor, hafter offset]
  rfl

/-!
### Imports
-/

lemma takes_keyword (word : List Char) (hrest : ∀ c ∈ rest.head?, isAsciiContinue c = false) :
    Takes (keyword term word) (fun _ => True) (word ++ rest) rest := by
  refine ((takes_token word).bind fun _ _ => takes_require fun offset => ?_).named _
  cases rest with
  | nil => rfl
  | cons c rest => simp [Cursor.next?, hrest c rfl]

lemma dropWhile_word {word : List Char} (hword : ∀ c ∈ word, isAsciiContinue c = true)
    (hrest : ∀ c ∈ rest.head?, isAsciiContinue c = false) :
    (word ++ rest).dropWhile isAsciiContinue = rest := by
  rw [List.dropWhile_append_of_pos hword]
  cases rest with
  | nil => rfl
  | cons c rest => rw [List.dropWhile_cons_of_neg (by simp [hrest c rfl])]

lemma refuses_importNames (hstart : ∀ c ∈ source.head?, isAsciiStart c = false)
    (hstar : ∀ c ∈ source.head?, c ≠ '*') : Refuses importNames source :=
  ((refuses_token hstar).named _ |>.bind.orElse (refuses_identifier hstart).bind).named _

/-- A keyword is refused where another name stands. -/
lemma refuses_keyword {word : List Char} {name : String} (hname : isAsciiIdentifier name = true)
    (hne : name.toList ≠ word) (hletters : ∀ c ∈ word, isAsciiContinue c = true)
    (hrest : ∀ c ∈ rest.head?, isAsciiContinue c = false) :
    Refuses (keyword term word) (name.toList ++ rest) := by
  by_cases hbegins : word <+: name.toList ++ rest
  · obtain ⟨tail, htail⟩ := hbegins
    -- the name goes on behind the word, since else the word would be the whole name
    have hgoes : ∃ c ∈ tail.head?, isAsciiContinue c = true := by
      by_contra hend
      have htail' : ∀ c ∈ tail.head?, isAsciiContinue c = false := by simpa using hend
      have hdrop := dropWhile_word (isAsciiContinue_of_mem hname) hrest
      rw [← htail, dropWhile_word hletters htail'] at hdrop
      rw [hdrop] at htail
      exact hne (List.append_cancel_right htail).symm
    obtain ⟨c, hc, hcontinue⟩ := hgoes
    rw [← htail]
    refine Refuses.named ((takes_token word).bind_refuses fun _ _ offset => ?_) _
    cases tail with
    | nil => simp at hc
    | cons c' tail =>
      obtain rfl : c' = c := by simpa using hc
      simp [require, Cursor.next?, hcontinue]
  · exact (refuses_absent_token hbegins).bind.named _

/-- A definition is no import, even if it is called after the word that an import begins with:
behind the word an arrow stands where the names would. -/
lemma refuses_importClause (h : BeginsDefinition source) : Refuses importClause source := by
  obtain ⟨name, behind, after, hname, rfl, hword, hskip⟩ := h
  by_cases hwhole : name.toList = ['i', 'm', 'p', 'o', 'r', 't']
  · rw [hwhole]
    exact Refuses.node ((takes_keyword _ hword).bind_refuses fun _ _ =>
      (takes_blanks_of_skip hskip).bind_refuses fun _ _ =>
        (refuses_importNames (by simp; decide) (by simp)).bind) _
  · exact Refuses.node (refuses_keyword hname hwhole (List.all_eq_true.mp (by decide)) hword).bind _

lemma separated_furtherName {name : String} (hname : isAsciiIdentifier name = true) :
    Separated furtherName (fun rest => ∀ c ∈ rest.head?, isAsciiContinue c = false) []
      (fun name => ',' :: ' ' :: name.toList) (fun name value => value = name) name := by
  have hskip : ∀ rest,
      skip (',' :: ' ' :: name.toList ++ rest) = ',' :: ' ' :: name.toList ++ rest :=
    fun rest => skip_cons (by decide) (by decide)
  refine ⟨fun rest hrest => ⟨rest, ?_, rfl⟩, hskip, fun rest => by simp; decide, by simp⟩
  exact (takes_symbol ',').bind fun _ _ =>
    (takes_space (skip_identifier hname rest)).bind fun _ _ => takes_identifier hname hrest

/-- The names of an import as they are written. -/
def namesText (names : List String) : String :=
  if names.isEmpty then "*" else ", ".intercalate names

lemma skip_namesText {names : List String} (h : ∀ name ∈ names, isAsciiIdentifier name = true)
    (rest : List Char) :
    skip ((namesText names).toList ++ rest) = (namesText names).toList ++ rest := by
  cases names with
  | nil => exact skip_cons (by decide) (by decide)
  | cons first others =>
    have htext : (namesText (first :: others)).toList ++ rest =
        first.toList ++ (others.flatMap (fun name => ", ".toList ++ name.toList) ++ rest) := by
      rw [namesText, if_neg (by simp), toList_intercalate_cons, List.append_assoc]
    rw [htext]
    exact skip_identifier (h first (by simp)) _

lemma takes_importNames {names : List String} (h : ∀ name ∈ names, isAsciiIdentifier name = true)
    (rest : List Char) (hword : ∀ c ∈ rest.head?, isAsciiContinue c = false)
    (hcomma : ∀ c ∈ (skip rest).head?, c ≠ ',') : ∃ rest', Takes importNames
      (fun values => values = names) ((namesText names).toList ++ rest) rest' ∧
        skip rest' = skip rest := by
  cases names with
  | nil =>
    have hstar : Takes importAll (fun _ => True) ('*' :: rest) rest := (takes_symbol '*').named _
    refine ⟨rest, Takes.named (Takes.orElse ?_) _, rfl⟩
    exact hstar.bind fun _ _ => takes_pure rfl
  | cons first others =>
    have hothers : ∀ name ∈ others, Separated furtherName
        (fun rest => ∀ c ∈ rest.head?, isAsciiContinue c = false) []
        (fun name => ',' :: ' ' :: name.toList) (fun name value => value = name) name :=
      fun name hname => separated_furtherName (h name (by simp [hname]))
    have hstop : Refuses furtherName (skip rest) := (refuses_token hcomma).bind
    obtain ⟨rest', hmany, hrest'⟩ := takes_many_separated hothers hword hstop
    have hfirst := takes_identifier (h first (by simp)) (follows_separated hothers hword)
    have htext : (namesText (first :: others)).toList ++ rest =
        first.toList ++ (others.flatMap (fun name => [] ++ ',' :: ' ' :: name.toList) ++ rest) := by
      rw [namesText, if_neg (by simp), toList_intercalate_cons, List.append_assoc]
      rfl
    have hstar : Refuses importAll (first.toList ++
        (others.flatMap (fun name => [] ++ ',' :: ' ' :: name.toList) ++ rest)) := by
      obtain ⟨c, cs, hchars, hc⟩ := Precedence.begins_identifier (h first (by simp))
      refine (refuses_token ?_).named _
      simpa [hchars] using Precedence.ne_of_begins hc (by decide)
    rw [htext]
    refine ⟨rest', (hstar.bind.orElse_takes (hfirst.bind fun value hvalue =>
      takes_blanks.bind fun _ _ => hmany.bind fun values hvalues => takes_pure ?_)).named _, hrest'⟩
    have hvalues' : values.map id = others.map id := hvalues.map_eq
    rw [hvalue, ← List.map_id values, hvalues', List.map_id]

lemma takes_importClause {i : Import} (h : ∀ name ∈ i.names, isAsciiIdentifier name = true) :
    Takes importClause i.ReadFor (i.text.toList ++ rest) rest := by
  let quoted := '"' :: (pathStyle.encode i.path).toList ++ '"' :: rest
  let behind := ' ' :: (['f', 'r', 'o', 'm'] ++ ' ' :: quoted)
  have htext : i.text.toList ++ rest =
      ['i', 'm', 'p', 'o', 'r', 't'] ++ ' ' :: ((namesText i.names).toList ++ behind) := by
    simp [Import.text, namesText, quoted, behind]
  have hnames := takes_space (skip_namesText h behind)
  have hquoted : Takes blanks (fun _ => True) (' ' :: quoted) quoted :=
    takes_space (skip_cons (by decide) (by decide))
  have hfrom : skip behind = ['f', 'r', 'o', 'm'] ++ ' ' :: quoted := by
    rw [skip_blank (by decide)]
    exact skip_cons (by decide) (by decide)
  obtain ⟨rest', hread, hrest'⟩ := takes_importNames h behind (by simp [behind]; decide)
    (by simp [hfrom])
  have hbehind := takes_blanks_of_skip (hrest'.trans hfrom)
  rw [htext]
  refine Takes.node (p := fun read => read.1 = i.names ∧ read.2 = i.path) ?_
    (fun read hread => takes_pure ⟨hread.2, hread.1, congrArg List.isEmpty hread.1⟩) _
  exact (takes_keyword _ (by simp; decide)).bind fun _ _ => hnames.bind fun _ _ =>
    hread.bind fun names hnames => hbehind.bind fun _ _ =>
      (takes_keyword _ (by simp; decide)).bind fun _ _ => hquoted.bind fun _ _ =>
        (takes_path i.path).bind fun path hpath => takes_pure ⟨hnames, hpath⟩

lemma separated_importClause {i : Import} (h : ∀ name ∈ i.names, isAsciiIdentifier name = true) :
    Separated importClause (fun _ => True) ['\n'] (fun i => i.text.toList) Import.ReadFor i := by
  obtain ⟨others, htext⟩ : ∃ others, i.text.toList = 'i' :: others := by
    simp only [Import.text, String.append_assoc, String.toList_append]
    exact ⟨_, rfl⟩
  refine ⟨fun rest _ => ⟨rest, takes_importClause h, rfl⟩, fun rest => ?_, fun _ => trivial, ?_⟩
  · rw [htext, List.singleton_append, List.cons_append, skip_blank (by decide)]
    exact skip_cons (by decide) (by decide)
  · simp [htext]

/-!
### Definitions
-/

variable {d : Definition}

lemma beginsDefinition_text (hname : isAsciiIdentifier d.name = true) (rest : List Char) :
    BeginsDefinition (d.text.toList ++ rest) := by
  refine ⟨d.name, ' ' :: '<' :: '-' :: ' ' :: (d.body.text.toList ++ rest),
    ' ' :: (d.body.text.toList ++ rest), hname, ?_, by simp; decide, ?_⟩
  · simp [Rule.text]
  · rw [skip_blank (by decide)]
    exact skip_cons (by decide) (by decide)

lemma takes_definition (hname : isAsciiIdentifier d.name = true) (hbody : d.body.WellFormed)
    (hrest : Follows .choice rest) : ∃ rest',
      Takes definition (Rule.ReadFor d) (d.text.toList ++ rest) rest' ∧ skip rest' = skip rest := by
  obtain ⟨rest', hread, hskip⟩ := takes_expression hbody hrest
  have htext : d.text.toList ++ rest =
      d.name.toList ++ ' ' :: (['<', '-'] ++ ' ' :: (d.body.text.toList ++ rest)) := by
    simp [Rule.text]
  have harrow := takes_space (skip_cons (by decide) (by decide) :
    skip (['<', '-'] ++ ' ' :: (d.body.text.toList ++ rest)) = _)
  have hbehind := takes_space (skip_text hbody rest)
  rw [htext]
  refine ⟨rest', Takes.node
    (p := fun read => read.1 = d.name ∧ read.2.unspanned = d.body.normal.unspanned) ?_
    (fun read hread => takes_pure hread) _, hskip⟩
  exact (takes_identifier hname (by simp; decide)).bind fun name hname' => harrow.bind fun _ _ =>
    (takes_token ['<', '-']).bind fun _ _ => hbehind.bind fun _ _ =>
      hread.bind fun body hbody' => takes_pure ⟨hname', hbody'⟩

lemma separated_definition (hname : isAsciiIdentifier d.name = true) (hbody : d.body.WellFormed) :
    Separated definition (Follows .choice) ['\n'] (fun d => d.text.toList) Rule.ReadFor d := by
  have hskip : ∀ rest, skip (['\n'] ++ d.text.toList ++ rest) = d.text.toList ++ rest := by
    intro rest
    have htext : d.text.toList = d.name.toList ++ (" <- ".toList ++ d.body.text.toList) := by
      simp [Rule.text]
    rw [List.singleton_append, List.cons_append, skip_blank (by decide), htext, List.append_assoc]
    exact skip_identifier hname _
  refine ⟨fun rest => takes_definition hname hbody, hskip, fun rest => ⟨by simp; decide, ?_⟩, ?_⟩
  · rw [hskip]
    exact .inr (beginsDefinition_text hname rest)
  · simp [Rule.text]

lemma refuses_definition_nil : Refuses definition [] :=
  Refuses.node (refuses_identifier (by simp)).bind _

/-!
### Whole grammars
-/

lemma cons_intercalate {texts : List String} (h : texts ≠ []) :
    '\n' :: ("\n".intercalate texts).toList = texts.flatMap fun text => ['\n'] ++ text.toList := by
  obtain ⟨first, others, rfl⟩ := List.exists_cons_of_ne_nil h
  rw [toList_intercalate_cons]
  rfl

/-- Behind a line break, a grammar is one line after the other. -/
lemma skip_grammarText {g : Grammar} (hne : g.definitions ≠ []) : skip g.text.toList =
    skip (g.imports.flatMap (fun i => ['\n'] ++ i.text.toList) ++
      g.definitions.flatMap fun d => ['\n'] ++ d.text.toList) := by
  have hlines : g.imports.map Import.text ++ g.definitions.map Rule.text ≠ [] := by simp [hne]
  rw [← skip_blank (by decide : isBlank '\n' = true), Grammar.text, cons_intercalate hlines,
    List.flatMap_append, List.flatMap_map, List.flatMap_map]

/-- The end of the text ends the last definition. -/
lemma takes_definitions {definitions : List Definition} (hne : definitions ≠ [])
    (hnames : ∀ d ∈ definitions, isAsciiIdentifier d.name = true)
    (hbodies : ∀ d ∈ definitions, d.body.WellFormed) (imports : List Import) :
    Takes (do
        let first ← definition
        blanks
        let others ← many blanks definition
        blanks
        endOfText
        return (imports, first :: others))
      (fun read => read.1 = imports ∧ List.Forall₂ Rule.ReadFor definitions read.2)
      (skip (definitions.flatMap fun d => ['\n'] ++ d.text.toList)) [] := by
  obtain ⟨first, others, rfl⟩ := List.exists_cons_of_ne_nil hne
  have hseparated : ∀ d ∈ first :: others,
      Separated definition (Follows .choice) ['\n'] (fun d => d.text.toList) Rule.ReadFor d :=
    fun d hd => separated_definition (hnames d hd) (hbodies d hd)
  obtain ⟨hfirst, hothers⟩ := List.forall_mem_cons.mp hseparated
  have hnone : Refuses definition (skip []) := by
    rw [skip_nil]
    exact refuses_definition_nil
  obtain ⟨rest, hread, hrest⟩ := hfirst.takes _ (follows_separated hothers follows_nil)
  obtain ⟨rest', hmany, hrest'⟩ := takes_many_separated hothers follows_nil hnone
  have hblanks := takes_blanks_of_skip (hrest'.trans skip_nil)
  rw [List.flatMap_cons, hfirst.skip_eq, ← List.append_nil (others.flatMap _)]
  exact hread.bind fun d hd => (takes_blanks_of_skip hrest).bind fun _ _ =>
    hmany.bind fun values hvalues => hblanks.bind fun _ _ => takes_endOfText.bind fun _ _ =>
      takes_pure ⟨rfl, .cons hd (fit_map_iff.mp hvalues)⟩

lemma takes_wholeGrammar {g : Grammar} (hne : g.definitions ≠ [])
    (himports : ∀ i ∈ g.imports, ∀ name ∈ i.names, isAsciiIdentifier name = true)
    (hnames : ∀ d ∈ g.definitions, isAsciiIdentifier d.name = true)
    (hbodies : ∀ d ∈ g.definitions, d.body.WellFormed) :
    Takes wholeGrammar (fun read => List.Forall₂ Import.ReadFor g.imports read.1 ∧
      List.Forall₂ Rule.ReadFor g.definitions read.2) g.text.toList [] := by
  have hnoImport : Refuses importClause
      (skip (g.definitions.flatMap fun d => ['\n'] ++ d.text.toList)) := by
    obtain ⟨first, others, hdefinitions⟩ := List.exists_cons_of_ne_nil hne
    have hfirst : first ∈ g.definitions := by simp [hdefinitions]
    have hseparated := separated_definition (hnames first hfirst) (hbodies first hfirst)
    rw [hdefinitions, List.flatMap_cons, hseparated.skip_eq]
    exact refuses_importClause (beginsDefinition_text (hnames first hfirst) _)
  obtain ⟨rest, hread, hrest⟩ := takes_many_separated
    (fun i hi => separated_importClause (himports i hi)) trivial hnoImport
  have hblanks := takes_blanks_of_skip (skip_grammarText hne)
  refine Takes.named (hblanks.bind fun _ _ => hread.bind fun imports hsame =>
    (takes_blanks_of_skip hrest).bind fun _ _ => ?_) _
  refine (takes_definitions hne hnames hbodies imports).mono fun read hdefinitions => ?_
  rw [hdefinitions.1]
  exact ⟨fit_map_iff.mp hsame, hdefinitions.2⟩

end Source.Reader

namespace Grammar

/-- Writing and then reading a grammar is the identity up to the normal forms of bodies: the text of
every grammar with definitions is read as a grammar with the same imports and definitions, in the
same order. -/
theorem exists_read_text {g : Grammar} (hne : g.definitions ≠ [])
    (himports : ∀ i ∈ g.imports, ∀ name ∈ i.names, isAsciiIdentifier name = true)
    (hnames : ∀ d ∈ g.definitions, isAsciiIdentifier d.name = true)
    (hbodies : ∀ d ∈ g.definitions, d.body.WellFormed) :
    ∃ g', Grammar.read g.text = .ok g' ∧
      List.Forall₂ Import.ReadFor g.imports g'.imports ∧
      List.Forall₂ Rule.ReadFor g.definitions g'.definitions := by
  obtain ⟨⟨imports, definitions⟩, offset, hresult, hread⟩ :=
    Source.Reader.takes_wholeGrammar hne himports hnames hbodies 0
  obtain ⟨hsame, hdefinitions⟩ := hread
  have heq : definitions.map Rule.name = g.definitions.map Rule.name := by
    apply Source.Reader.Fit.map_eq
    exact Source.Reader.fit_map_iff.mpr (hdefinitions.imp fun d d' h => h.1)
  obtain ⟨g', hbuild, himports', hdefinitions'⟩ :=
    exists_build imports ⟨0, g.text.utf8ByteSize⟩ (heq ▸ g.distinct)
  refine ⟨g', ?_, himports'.symm ▸ hsame, hdefinitions'.symm ▸ hdefinitions⟩
  rw [Grammar.read, Source.Reader.readText, Source.Cursor.ofString]
  simp only [hresult]
  exact hbuild

/-- Definitions and imported names that are called after the words of an import, and paths that hold
quotes, backslashes and line breaks. -/
def importing : Grammar where
  imports := [⟨"from \"a\\\n", ["from", "import"], {}⟩, ⟨"", [], {}⟩]
  definitions := [⟨"import", .sequence [.identifier "from" {}, .identifier "imports" {}] {}, {}⟩,
    ⟨"from", .literal "// <-" {}, {}⟩, ⟨"imports", .labeled "import" (.any {}) {}, {}⟩]
  span := {}
  distinct := by decide

theorem exists_read_text_importing : importing.definitions ≠ [] ∧
    (∀ i ∈ importing.imports, ∀ name ∈ i.names, isAsciiIdentifier name = true) ∧
    (∀ d ∈ importing.definitions, isAsciiIdentifier d.name = true) ∧
    (∀ d ∈ importing.definitions, d.body.WellFormed) ∧
    ∃ g', Grammar.read importing.text = .ok g' ∧
      List.Forall₂ Import.ReadFor importing.imports g'.imports ∧
      List.Forall₂ Rule.ReadFor importing.definitions g'.definitions := by
  have hne : importing.definitions ≠ [] := by simp [importing]
  have himports : ∀ i ∈ importing.imports, ∀ name ∈ i.names, isAsciiIdentifier name = true := by
    decide
  have hnames : ∀ d ∈ importing.definitions, isAsciiIdentifier d.name = true := by
    simp only [importing, List.forall_mem_cons, List.not_mem_nil, false_implies, implies_true]
    decide
  have hbodies : ∀ d ∈ importing.definitions, d.body.WellFormed := by
    refine List.forall_mem_cons.mpr ⟨.sequence (by simp) ?_, List.forall_mem_cons.mpr
      ⟨.literal, List.forall_mem_cons.mpr ⟨.labeled (by decide) .any, List.forall_mem_nil _⟩⟩⟩
    exact List.forall_mem_cons.mpr ⟨.identifier (by decide), List.forall_mem_cons.mpr
      ⟨.identifier (by decide), List.forall_mem_nil _⟩⟩
  exact ⟨hne, himports, hnames, hbodies, exists_read_text hne himports hnames hbodies⟩

end Grammar

end LabeledPeg
