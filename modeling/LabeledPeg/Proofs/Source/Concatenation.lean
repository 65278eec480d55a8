import LabeledPeg.Proofs.Source.Continuation
import LabeledPeg.Proofs.Source.Spans

/-!
# Grammar texts one behind the other

The body of a definition is over where the next definition begins, so that a grammar text can be put
behind another one, on a new line: the definitions of both are read, in order.
-/

namespace LabeledPeg

open Text Source

namespace Source.Reader

open Cursor

variable {more : List Char} {follows follows' : List Char → Prop} {nested nested' : Reader Expr}

/-! ## Expressions -/

lemma continues_reference (hmore : Joins more) : Continues more Is follows reference reference := by
  refine (continues_identifier hmore).spanned.bind_free hmore fun read read' hread => ?_
  refine (continues_noArrow hmore).map fun _ _ _ => ?_
  simp only [Is, Expr.unspanned, hread]

lemma continues_group (hmore : Joins more)
    (hnested : Continues more Is Precedence.choice.Stops nested nested') :
    Continues more Is follows (group nested) (group nested') := by
  refine (continues_symbol hmore (by decide)).bind_free hmore fun _ _ _ => ?_
  refine hnested.bind hmore (fun e cursor value last _ hresult _ => ?_)
    fun e e' he => (continues_symbol hmore (by decide)).map fun _ _ _ => he
  -- the closing parenthesis ends what is inside
  obtain ⟨c, hc, rfl⟩ := exists_head_of_refuses (fun _ hne => (refuses_token hne).bind) hresult
  exact .inl (by simp [hc, Precedence.ends])

lemma oneToken_enclosed : OneToken Is (orElse literal (orElse charClass any)) :=
  oneToken_literal.orElse (oneToken_charClass.orElse oneToken_any)

/-- The first character tells which primary expression it is. -/
lemma continues_primary (hmore : Joins more)
    (hnested : Continues more Is Precedence.choice.Stops nested nested') :
    Continues more Is follows (primary nested) (primary nested') := by
  refine ((continues_reference hmore).orElse ((continues_group hmore hnested).orElse
    (continues_of_token hmore oneToken_enclosed) ?_) ?_).named _
  · intro cursor cursor' value behind hready _ hresult _
    refine refuses_of_head hmore hready hresult (fun _ => refuses_enclosed)
      (fun _ => refuses_group) ?_
    rintro c hc rfl
    exact absurd hc (by decide)
  · have hletters : ∀ c ∈ ['(', '\'', '"', '[', '.'], (!isAsciiStart c) = true :=
      List.all_eq_true.mp (by decide)
    intro cursor cursor' value behind hready _ hresult _
    refine refuses_of_head hmore hready hresult (fun _ => refuses_unnamed)
      (fun _ hletter => refuses_reference fun c hc => Bool.eq_false_iff.mpr (hletter c hc)) ?_
    exact fun c hc => by simpa using hletters c hc

/-- An operand with an operator behind it, if one follows. -/
lemma continues_postfixed {α : Type} (hmore : Joins more) {inner inner' : Reader Expr}
    {op : Reader α} (hinner : Continues more Is (fun _ => True) inner inner')
    (hop : Continues more Eq follows (optional op) (optional op)) :
    Continues more (fun read read' => Is read.1 read'.1 ∧ read.2 = read'.2) follows
      (do
        let body ← inner
        blanks
        let op? ← Reader.optional op
        return (body, op?))
      (do
        let body ← inner'
        blanks
        let op? ← Reader.optional op
        return (body, op?)) :=
  hinner.bind_free hmore fun _ _ hbody => hop.map fun _ _ hvalue => ⟨hbody, hvalue⟩

lemma continues_suffixOp (hmore : Joins more) :
    Continues more Eq follows (optional suffixOp) (optional suffixOp) := by
  refine continues_optional_op hmore oneToken_suffixOp fun c hc => ?_
  have hne := ne_of_isAsciiStart hc
  simp [hne '?' (by decide), hne '*' (by decide), hne '+' (by decide)]

lemma continues_predicateOp (hmore : Joins more) :
    Continues more Eq follows (optional predicateOp) (optional predicateOp) := by
  refine continues_optional_op hmore oneToken_predicateOp fun c hc => ?_
  have hne := ne_of_isAsciiStart hc
  simp [hne '&' (by decide), hne '!' (by decide), hne '#' (by decide)]

/-- Whether no label follows. -/
def Unlabeled (rest : List Char) : Prop := ∀ c ∈ rest.head?, c ≠ '^'

/-- Without a name behind it the sign of a label is left, and then no text may follow that begins with
a name. -/
lemma continues_label (hmore : Joins more) :
    Continues more Eq Unlabeled (optional label) (optional label) := by
  have hlabel : Continues more Eq Unlabeled label label :=
    (continues_symbol hmore (by decide)).bind_free hmore fun _ _ _ => continues_identifier hmore
  refine hlabel.optional fun cursor cursor' hready _ hrest => (refuses_token fun c hc => ?_).bind
  rcases hready.head hmore c hc with hsame | hstart
  · exact hrest c hsame
  · exact ne_of_isAsciiStart hstart '^' (by decide)

lemma continues_suffixed (hmore : Joins more)
    (hnested : Continues more Is Precedence.choice.Stops nested nested') :
    Continues more Is follows (suffixed nested) (suffixed nested') := by
  refine (continues_postfixed hmore (continues_primary hmore hnested)
    (continues_suffixOp hmore)).node (fun read read' hread => ?_) _
  rw [hread.2]
  exact is_applySuffix hread.1

lemma continues_labeled (hmore : Joins more)
    (hnested : Continues more Is Precedence.choice.Stops nested nested') :
    Continues more Is Unlabeled (labeled nested) (labeled nested') := by
  refine (continues_postfixed hmore (continues_suffixed hmore hnested)
    (continues_label hmore)).node (fun read read' hread => ?_) _
  rw [hread.2]
  exact is_applyLabel hread.1

lemma continues_predicate (hmore : Joins more)
    (hnested : Continues more Is Precedence.choice.Stops nested nested') :
    Continues more Is Unlabeled (predicate nested) (predicate nested') := by
  refine Continues.node (q := fun read read' => read.1 = read'.1 ∧ Is read.2 read'.2)
    ?_ (fun read read' hread => ?_) _
  · exact (continues_predicateOp hmore).bind_free hmore fun op? op?' hop =>
      (continues_labeled hmore hnested).map fun body body' hbody => ⟨hop, hbody⟩
  · rw [hread.1]
    exact is_applyPredicate hread.2

/-- A group of items, or the only one of them, up to where no item follows. -/
lemma continues_collapsed {head head' item item' : Reader Expr} {group : List Expr → Span → Expr}
    (hmore : Joins more) (hhead : Continues more Is follows head head')
    (hitem : Continues more Is follows item item')
    (hbegins : ∀ cursor value behind, skip cursor.rest = cursor.rest →
      (item cursor).result = some (value, behind) → follows cursor.rest)
    (hfollows : ∀ rest, follows' rest → follows rest)
    (happend : ∀ rest, follows' (skip rest) → follows' (skip (rest ++ more)))
    (hstop : ∀ rest, skip rest = rest → follows' rest → Refuses item' rest)
    (hgroup : ∀ {items items' span span'}, items'.map Expr.unspanned = items.map Expr.unspanned →
      Is (group items span) (group items' span')) (term : Term) :
    Continues more Is follows'
      (named term do
        let (items, span) ← spanned do
          let first ← head
          blanks
          return first :: (← many blanks item)
        return collapse group items span)
      (named term do
        let (items, span) ← spanned do
          let first ← head'
          blanks
          return first :: (← many blanks item')
        return collapse group items span) := by
  refine Continues.node (q := List.Forall₂ Is) ?_ (fun read read' hread =>
    is_collapse hread (hgroup (map_unspanned_of_forall₂ hread))) _
  refine hhead.bind hmore (fun first cursor values last hskip hresult hlast => ?_)
    fun first first' hfirst => ?_
  · obtain ⟨others, behind, hothers, hpure⟩ := result_bind_eq_some.mp hresult
    obtain ⟨rfl, rfl⟩ := Prod.mk.inj (Option.some.inj hpure)
    have hstart := (repeats_of_many hskip hothers).1.start hbegins (hfollows _ hlast)
    rwa [hskip] at hstart
  · exact (continues_many hmore hitem hbegins hfollows happend hstop).map
      fun others others' hothers => .cons hfirst hothers

lemma unlabeled_of_stops {rest : List Char} (h : Precedence.sequence.Stops rest) :
    Unlabeled rest := by
  intro c hc
  have hends := (h.mono (by decide : Precedence.sequence.rank ≤ Precedence.predicate.rank)).ends
    (Nat.le_refl _) c hc
  rintro rfl
  cases hends

/-- No expression begins with a label. -/
lemma unlabeled_of_predicate {cursor : Cursor} {found : Expr × Cursor}
    (hskip : skip cursor.rest = cursor.rest) (h : (predicate nested cursor).result = some found) :
    Unlabeled cursor.rest := by
  rintro c hc rfl
  have hhead : ∀ d ∈ cursor.rest.head?, d = '^' := fun d hd => Option.some.inj (hd.symm.trans hc)
  have hrefuses : Refuses (predicate nested) cursor.rest := by
    refine refuses_predicate_of_reference hskip (refuses_reference fun d hd => ?_) fun d hd => ?_
    · rw [hhead d hd]
      decide
    · rw [hhead d hd]
      decide
  cases (hrefuses cursor.offset).symm.trans h

lemma continues_sequence (hmore : Joins more)
    (hnested : Continues more Is Precedence.choice.Stops nested nested') :
    Continues more Is Precedence.sequence.Stops (sequence nested) (sequence nested') :=
  continues_collapsed hmore (continues_predicate hmore hnested) (continues_predicate hmore hnested)
    (fun _ _ _ hskip hresult => unlabeled_of_predicate hskip hresult)
    (fun _ hstops => unlabeled_of_stops hstops) (fun _ hstops => hstops.append hmore)
    (fun _ hskip hstops => refuses_predicate hskip hstops)
    (fun hitems => by simp only [Is, Expr.unspanned, Expr.allUnspanned_eq_map, hitems]) _

lemma continues_expressionWith (hmore : Joins more)
    (hnested : Continues more Is Precedence.choice.Stops nested nested') :
    Continues more Is Precedence.choice.Stops (expressionWith nested) (expressionWith nested') := by
  have halternative : Continues more Is Precedence.sequence.Stops (alternative nested)
      (alternative nested') :=
    (continues_symbol hmore (by decide)).bind_free hmore fun _ _ _ =>
      continues_sequence hmore hnested
  refine continues_collapsed hmore (continues_sequence hmore hnested) halternative
    (fun cursor value behind _ hresult => ?_) (fun _ hstops => hstops.mono (by decide))
    (fun _ hstops => hstops.append hmore) (fun _ _ hstops => refuses_alternative hstops)
    (fun hitems => by simp only [Is, Expr.unspanned, Expr.allUnspanned_eq_map, hitems]) _
  obtain ⟨c, hc, rfl⟩ := exists_head_of_refuses (fun _ hne => (refuses_token hne).bind) hresult
  exact .inl (by simp [hc, Precedence.ends])

/-- A longer text leaves more room for parentheses. -/
lemma continues_expressionTo (hmore : Joins more) {depth depth' : Nat} (h : depth ≤ depth') :
    Continues more Is Precedence.choice.Stops (expressionTo depth) (expressionTo depth') := by
  induction depth generalizing depth' with
  | zero =>
    intro cursor cursor' value behind _ hresult
    cases hresult
  | succ depth ih =>
    obtain ⟨depth', rfl⟩ : ∃ k, depth' = k + 1 := ⟨depth' - 1, by omega⟩
    exact continues_expressionWith hmore (ih (by omega))

lemma continues_expression (hmore : Joins more) :
    Continues more Is Precedence.choice.Stops expression expression := by
  intro cursor cursor' value behind hready hresult hrest
  have hlength := hready.length_le hmore
  exact continues_expressionTo hmore (Nat.succ_le_succ hlength) cursor cursor' value behind hready
    hresult hrest

/-! ## Imports and definitions -/

/-- The names of an import go on behind a comma only. -/
lemma continues_importNames (hmore : Joins more) :
    Continues more Eq (fun rest => ∀ c ∈ rest.head?, c ≠ ',') importNames importNames := by
  have hfurther : Continues more Eq (fun _ => True) furtherName furtherName :=
    (continues_symbol hmore (by decide)).bind_free hmore fun _ _ _ => continues_identifier hmore
  have hnames : Continues more (List.Forall₂ Eq) (fun rest => ∀ c ∈ rest.head?, c ≠ ',')
      (many blanks furtherName) (many blanks furtherName) := by
    refine continues_many hmore hfurther (fun _ _ _ _ _ => trivial)
      (fun _ _ => trivial) (fun rest hrest c hc => ?_) fun rest _ hrest => (refuses_token hrest).bind
    rcases hmore.head rest c hc with hsame | hstart
    · exact hrest c hsame
    · exact ne_of_isAsciiStart hstart ',' (by decide)
  have hlist : Continues more Eq (fun rest => ∀ c ∈ rest.head?, c ≠ ',')
      (do
        let first ← identifier
        blanks
        return first :: (← many blanks furtherName))
      (do
        let first ← identifier
        blanks
        return first :: (← many blanks furtherName)) :=
    (continues_identifier hmore).bind_free hmore fun first first' hfirst =>
      hnames.map fun others others' hothers => by
        have hsame : others = others' := List.forall₂_eq_eq_eq ▸ hothers
        rw [hfirst, hsame]
  have hstar : Continues more (fun _ _ => True) (fun rest => ∀ c ∈ rest.head?, c ≠ ',')
      importAll importAll := (continues_symbol hmore (by decide)).named _
  refine ((hstar.map fun _ _ _ => rfl).orElse hlist ?_).named _
  intro cursor cursor' value behind hready _ hresult _
  have hrefuses : Refuses importAll cursor'.rest := by
    refine refuses_of_head hmore hready hresult
      (fun _ hletter => (refuses_identifier fun c hc => Bool.eq_false_iff.mpr (hletter c hc)).bind)
      (fun _ hne => (refuses_token hne).named _) ?_
    rintro c hc rfl
    exact absurd hc (by decide)
  exact hrefuses.bind

lemma continues_importClause (hmore : Joins more) :
    Continues more Import.Is follows importClause importClause := by
  have hkeyword : ∀ {word term follows}, isAsciiIdentifier (String.ofList word) = true →
      Continues more (fun _ _ => True) follows (keyword term word) (keyword term word) :=
    fun hword => continues_of_token hmore (oneToken_keyword hword _)
  refine Continues.node (q := fun read read' => read.1 = read'.1 ∧ read.2 = read'.2) ?_
    (fun read read' hread => ⟨hread.2.symm, hread.1.symm⟩) _
  refine (hkeyword (by decide)).bind_free hmore fun _ _ _ => ?_
  refine (continues_importNames hmore).bind hmore (fun names cursor value last _ hresult _ => ?_)
    fun names names' hnames => ?_
  · -- the word behind the names is no comma
    obtain ⟨c, hc, rfl⟩ := exists_head_of_refuses
      (fun _ hne => (refuses_token hne).bind.named _ |>.bind) hresult
    simp [hc]
  · refine (hkeyword (by decide)).bind_free hmore fun _ _ _ => ?_
    exact (continues_of_token hmore oneToken_path).map fun path path' hpath => ⟨hnames, hpath⟩

lemma continues_definition (hmore : Joins more) :
    Continues more Rule.Is Precedence.choice.Stops definition definition := by
  refine Continues.node (q := fun read read' => read.1 = read'.1 ∧ Is read.2 read'.2) ?_
    (fun read read' hread => ⟨hread.1.symm, hread.2⟩) _
  refine (continues_identifier hmore).bind_free hmore fun name name' hname => ?_
  refine (continues_of_token hmore oneToken_arrow).bind_free hmore fun _ _ _ => ?_
  exact (continues_expression hmore).map fun body body' hbody => ⟨hname, hbody⟩

/-! ## Whole texts -/

/-- A definition is refused where no name stands before an arrow. -/
lemma refuses_definition {source : List Char} (hskip : skip source = source)
    (h : ¬ BeginsDefinition source) : Refuses definition source := by
  rcases hskip ▸ exists_token source with hnil | ⟨piece, behind, rfl, hends, -⟩
  · rw [hnil]
    exact refuses_definition_nil
  · obtain ⟨c, tail, rfl⟩ := List.exists_cons_of_ne_nil hends.ne_nil
    cases hc : isAsciiStart c with
    | false => exact Refuses.node (refuses_identifier (by simpa using hc)).bind _
    | true =>
      have hname := isAsciiIdentifier_of_ends hends hc
      have hword := (hends.of_isAsciiStart hc).2
      rw [← String.toList_ofList (l := c :: tail)] at h ⊢
      have harrow : ¬ ['<', '-'] <+: skip behind := by
        rintro ⟨after, hafter⟩
        exact h ⟨_, behind, after, hname, rfl, hword, hafter.symm⟩
      exact Refuses.node ((takes_identifier hname hword).bind_refuses fun _ _ =>
        takes_blanks.bind_refuses fun _ _ => (refuses_absent_token harrow).bind) _

lemma beginsDefinition_of_result {cursor : Cursor} {found : Definition × Cursor}
    (hskip : skip cursor.rest = cursor.rest) (h : (definition cursor).result = some found) :
    BeginsDefinition cursor.rest := by
  by_contra hnone
  cases (refuses_definition hskip hnone cursor.offset).symm.trans h

lemma endOfText_eq_some_iff {cursor behind : Cursor} :
    (endOfText cursor).result = some ((), behind) ↔ cursor.rest = [] ∧ cursor = behind := by
  simp [endOfText, require]

variable {cursor cursor' middle last : Cursor} {imports : List Import} {definitions : List Definition}

/-- A text is read as its imports and, up to its end, its definitions. -/
lemma wholeGrammar_eq_some_iff :
    (∃ behind, (wholeGrammar cursor).result = some ((imports, definitions), behind)) ↔
      definitions ≠ [] ∧ ∃ middle last,
        (many blanks importClause cursor.skipBlanks).result = some (imports, middle) ∧
          Repeats definition middle definitions last ∧ skip last.rest = [] := by
  constructor
  · rintro ⟨behind, h⟩
    rw [wholeGrammar, result_named, result_blanks_bind] at h
    obtain ⟨imports', middle, himports, h⟩ := result_bind_eq_some.mp h
    rw [result_blanks_bind] at h
    obtain ⟨first, next, hfirst, h⟩ := result_bind_eq_some.mp h
    rw [result_blanks_bind] at h
    obtain ⟨others, last, hothers, h⟩ := result_bind_eq_some.mp h
    rw [result_blanks_bind] at h
    obtain ⟨_, _, hend, hpure⟩ := result_bind_eq_some.mp h
    obtain ⟨hread, -⟩ := Prod.mk.inj (Option.some.inj hpure)
    obtain ⟨rfl, rfl⟩ := Prod.mk.inj hread
    obtain ⟨last', hrest, hlast⟩ := (repeats_of_many next.skip_skipBlanks hothers).1.of_skipBlanks
      next.skipBlanks_skipBlanks.symm
    refine ⟨List.cons_ne_nil _ _, middle, last', himports, .cons hfirst hrest, ?_⟩
    rw [hlast, ← last.rest_skipBlanks]
    exact (endOfText_eq_some_iff.mp hend).1
  · rintro ⟨hne, middle, last, himports, hrepeats, hlast⟩
    cases hrepeats with
    | nil => exact absurd rfl hne
    | @cons _ next _ first others hfirst hrest =>
      obtain ⟨last', hrest', hlast'⟩ := hrest.of_skipBlanks next.skipBlanks_skipBlanks
      rw [hlast] at hlast'
      have hlength := hrest'.length_le fun _ _ => alike_definition
      have htokens := length_tokens_le next.skipBlanks.rest
      have hothers : (many blanks definition next.skipBlanks).result = some (others, last') :=
        hrest'.many next.skip_skipBlanks (by omega) (hlast' ▸ refuses_definition_nil)
      have hend : (endOfText last'.skipBlanks).result = some ((), last'.skipBlanks) :=
        endOfText_eq_some_iff.mpr ⟨last'.rest_skipBlanks.trans hlast', rfl⟩
      refine ⟨last'.skipBlanks, ?_⟩
      rw [wholeGrammar, result_named, result_blanks_bind]
      refine result_bind_eq_some.mpr ⟨imports, middle, himports, ?_⟩
      rw [result_blanks_bind]
      refine result_bind_eq_some.mpr ⟨first, next, hfirst, ?_⟩
      rw [result_blanks_bind]
      refine result_bind_eq_some.mpr ⟨others, last', hothers, ?_⟩
      rw [result_blanks_bind]
      exact result_bind_eq_some.mpr ⟨(), last'.skipBlanks, hend, rfl⟩

lemma Repeats.beginsDefinition (h : Repeats definition cursor definitions last)
    (hne : definitions ≠ []) : BeginsDefinition (skip cursor.rest) := by
  cases h with
  | nil => exact absurd rfl hne
  | cons hfirst =>
    rw [← cursor.rest_skipBlanks]
    exact beginsDefinition_of_result cursor.skip_skipBlanks hfirst

/-- Definitions that are read up to the end of a text are read where more text is behind it. -/
lemma Repeats.continues_definitions (h : Repeats definition cursor definitions last)
    (hmore : Joins more) (hlast : skip last.rest = []) (hcursor : Continued more cursor cursor') :
    ∃ definitions' last', Repeats definition cursor' definitions' last' ∧
      List.Forall₂ Rule.Is definitions definitions' ∧ skip last'.rest = skip more := by
  have hend : Precedence.choice.Stops (skip last.rest) := by
    rw [hlast]
    exact .inl (by simp)
  obtain ⟨definitions', last', hrepeats, hsame, hlast'⟩ :=
    h.continues hmore (continues_definition hmore)
      (fun _ _ _ hskip hresult => .inr (beginsDefinition_of_result hskip hresult)) hend hcursor
  refine ⟨definitions', last', hrepeats, hsame, ?_⟩
  calc skip last'.rest = skip (last.rest ++ more) := hlast'
    _ = skip (skip last.rest ++ more) := (skip_skip_append hmore.line last.rest).symm
    _ = skip more := by rw [hlast, List.nil_append]

/-- Of two texts that are read, the second one without imports, all is read where the second one is
put behind the first one on a new line. -/
lemma exists_wholeGrammar_append {source source' : List Char} {imports : List Import}
    {definitions definitions' : List Definition} {behind behind' : Cursor}
    (h : (wholeGrammar ⟨0, source⟩).result = some ((imports, definitions), behind))
    (h' : (wholeGrammar ⟨0, source'⟩).result = some (([], definitions'), behind'))
    (hline : ∀ c ∈ more.head?, isLineEnd c = true) (hmore : skip more = skip source') :
    ∃ joined behind, (wholeGrammar ⟨0, source ++ more⟩).result = some (joined, behind) ∧
      List.Forall₂ Import.Is imports joined.1 ∧
      List.Forall₂ Rule.Is (definitions ++ definitions') joined.2 := by
  obtain ⟨hne, middle, last, himports, hread, hlast⟩ := wholeGrammar_eq_some_iff.mp ⟨behind, h⟩
  obtain ⟨hne', middle', last', himports', hread', hlast'⟩ :=
    wholeGrammar_eq_some_iff.mp ⟨behind', h'⟩
  -- without imports the definitions of the second text begin where the text does
  have hstart := (repeats_of_many (Cursor.skip_skipBlanks _) himports').1
  cases hstart
  have hbegins := hread'.beginsDefinition hne'
  rw [Cursor.rest_skipBlanks, skip_skip] at hbegins
  have hjoins : Joins more := ⟨hline, .inr (hmore ▸ hbegins)⟩
  have hcontinued : Continued more ⟨0, source⟩ ⟨0, source ++ more⟩ := rfl
  obtain ⟨imports', next, hreadImports, hsame, hnext⟩ := continues_many hjoins
    (continues_importClause hjoins) (fun _ _ _ _ _ => trivial) (fun _ _ => trivial)
    (fun _ hrest => hrest.skip_append hjoins) (fun _ _ hrest => refuses_importClause hrest) _ _ _ _
    (hcontinued.skipBlanks hjoins) himports (hread.beginsDefinition hne)
  obtain ⟨first, seam, hreadFirst, hfirst, hseam⟩ :=
    hread.continues_definitions hjoins hlast hnext
  -- behind the second text there is nothing more
  have hnil : Joins [] := ⟨by simp, .inl skip_nil⟩
  have hrest : Continued [] (Cursor.skipBlanks ⟨0, source'⟩) seam := by
    rw [Continued, List.append_nil, Cursor.rest_skipBlanks, skip_skip, hseam, hmore]
  obtain ⟨second, final, hreadSecond, hsecond, hfinal⟩ :=
    hread'.continues_definitions hnil hlast' hrest
  have hboth : List.Forall₂ Rule.Is (definitions ++ definitions') (first ++ second) :=
    List.rel_append hfirst hsecond
  have hneBoth : first ++ second ≠ [] := by
    have hlength := hboth.length_eq
    have hpos := List.length_pos_of_ne_nil hne
    rw [List.length_append] at hlength
    exact List.ne_nil_of_length_pos (by omega)
  obtain ⟨final', hresult⟩ := wholeGrammar_eq_some_iff.mpr
    ⟨hneBoth, next, final, hreadImports, hreadFirst.append hreadSecond, hfinal.trans skip_nil⟩
  exact ⟨(imports', first ++ second), final', hresult, hsame, hboth⟩

end Source.Reader

open Source.Reader

variable {source source' lineBreak : String} {g g' : Grammar}

lemma Grammar.exists_result_of_read (h : Grammar.read source = .ok g) : ∃ behind,
    (wholeGrammar (.ofString source)).result = some ((g.imports, g.definitions), behind) := by
  obtain ⟨read, hread, hbuild⟩ := Grammar.read_eq_ok h
  obtain ⟨himports, hdefinitions, -⟩ := Grammar.build_eq_ok hbuild
  obtain ⟨behind, hresult⟩ := readText_eq_ok hread
  exact ⟨behind, by rw [hresult, himports, hdefinitions]⟩

lemma Grammar.read_eq_build {read : List Import × List Definition} {behind : Cursor}
    (h : (wholeGrammar (.ofString source)).result = some (read, behind)) :
    Grammar.read source = Grammar.build read.1 read.2 ⟨0, source.utf8ByteSize⟩ := by
  rw [Grammar.read, readText]
  simp only [h]
  rfl

lemma skip_lineBreak (h : lineBreak ∈ ["\n", "\r\n", "\r"]) (rest : List Char) :
    (∀ c ∈ (lineBreak.toList ++ rest).head?, isLineEnd c = true) ∧
      skip (lineBreak.toList ++ rest) = skip rest := by
  simp only [List.mem_cons, List.not_mem_nil, or_false] at h
  rcases h with rfl | rfl | rfl
  · exact ⟨by simp [isLineEnd], skip_blank (by decide)⟩
  · exact ⟨by simp [isLineEnd], (skip_blank (by decide)).trans (skip_blank (by decide))⟩
  · exact ⟨by simp [isLineEnd], skip_blank (by decide)⟩

/-- Of definitions that are named as those of a grammar and then some more, the one is reported whose
name is the first that the grammar defines, together with the definition of that name in front. -/
lemma Grammar.build_again {before after definitions : List Definition} {d : Definition} {i : Nat}
    (imports : List Import) (span : Span)
    (hnames : definitions.map Rule.name = (g.definitions ++ (before ++ d :: after)).map Rule.name)
    (hdistinct : ((before ++ d :: after).map Rule.name).Nodup)
    (hbefore : ∀ e ∈ before, (!g.defines e.name) = true) (hi : g.names[i]? = some d.name) :
    ∃ first second, definitions[i]? = some first ∧
      definitions[g.definitions.length + before.length]? = some second ∧
      Grammar.build imports definitions span =
        .error (.duplicateDefinition d.name first.span second.span) := by
  -- up to the definition that is reported no name occurs twice
  have hnodup : ((g.definitions ++ before).map Rule.name).Nodup := by
    rw [List.map_append] at hdistinct ⊢
    refine List.nodup_append'.mpr ⟨g.distinct, hdistinct.of_append_left, ?_⟩
    intro name hname hagain
    obtain ⟨e, he, rfl⟩ := List.mem_map.mp hagain
    have hnew := hbefore e he
    rw [Grammar.defines_iff.mpr hname] at hnew
    cases hnew
  rw [← List.append_assoc, List.map_append, List.map_cons] at hnames
  obtain ⟨earlier, others, rfl, hearlier, hothers⟩ := List.map_eq_append_iff.mp hnames
  obtain ⟨second, later, rfl, hsecond, -⟩ := List.map_eq_cons_iff.mp hothers
  have hlength : earlier.length = g.definitions.length + before.length := by
    rw [← List.length_map Rule.name, hearlier, List.length_map, List.length_append]
  have hnamed : (earlier.map Rule.name)[i]? = some d.name := by
    rw [hearlier, List.map_append]
    exact (List.getElem?_append_left (List.getElem?_eq_some_iff.mp hi).1).trans hi
  rw [List.getElem?_map, Option.map_eq_some_iff] at hnamed
  obtain ⟨first, hfirst, hfirstName⟩ := hnamed
  refine ⟨first, second, ?_, ?_, ?_⟩
  · rwa [List.getElem?_append_left (List.getElem?_eq_some_iff.mp hfirst).1]
  · rw [← hlength]
    simp
  · rw [← hsecond]
    exact Grammar.build_duplicate imports span (hearlier ▸ hnodup) (List.mem_of_getElem? hfirst)
      (hfirstName.trans hsecond.symm)

/-- Grammar texts can be put one behind the other, on a new line, if the second one has no imports.
The imports of the first one are read, and the definitions of both, in order, unless a name is defined
in both: then the first definition of the second text is reported that defines a name again, with the
places of the two definitions of the name in the whole text. -/
theorem Grammar.read_append (h : Grammar.read source = .ok g) (h' : Grammar.read source' = .ok g')
    (himports : g'.imports = []) (hbreak : lineBreak ∈ ["\n", "\r\n", "\r"]) :
    (List.Disjoint g.names g'.names →
      ∃ joined, Grammar.read (source ++ lineBreak ++ source') = .ok joined ∧
        List.Forall₂ Import.Is g.imports joined.imports ∧
        List.Forall₂ Rule.Is (g.definitions ++ g'.definitions) joined.definitions) ∧
    (¬ List.Disjoint g.names g'.names →
      ∃ (d : Definition) (i j : Nat) (imports : List Import) (definitions : List Definition)
        (first second : Definition),
        g'.definitions.find? (fun d => g.defines d.name) = some d ∧
        g.names[i]? = some d.name ∧ g'.definitions[j]? = some d ∧
        readText wholeGrammar (source ++ lineBreak ++ source') = .ok (imports, definitions) ∧
        List.Forall₂ Import.Is g.imports imports ∧
        List.Forall₂ Rule.Is (g.definitions ++ g'.definitions) definitions ∧
        definitions[i]? = some first ∧ definitions[g.definitions.length + j]? = some second ∧
        Grammar.read (source ++ lineBreak ++ source') =
          .error (.duplicateDefinition d.name first.span second.span)) := by
  obtain ⟨behind, hresult⟩ := Grammar.exists_result_of_read h
  obtain ⟨behind', hresult'⟩ := Grammar.exists_result_of_read h'
  rw [himports] at hresult'
  obtain ⟨hline, hmore⟩ := skip_lineBreak hbreak source'.toList
  obtain ⟨⟨imports, definitions⟩, last, hread, hsame, hrules⟩ :=
    exists_wholeGrammar_append hresult hresult' hline hmore
  have hjoined : (wholeGrammar (.ofString (source ++ lineBreak ++ source'))).result =
      some ((imports, definitions), last) := by
    rw [← hread, Cursor.ofString, String.toList_append, String.toList_append, List.append_assoc]
  have hnames : definitions.map Rule.name = (g.definitions ++ g'.definitions).map Rule.name :=
    Fit.map_eq (fit_map_iff.mpr (hrules.imp fun d d' h => h.1))
  rw [Grammar.read_eq_build hjoined]
  refine ⟨fun hdisjoint => ?_, fun hshared => ?_⟩
  · have hnodup : (definitions.map Rule.name).Nodup := by
      rw [hnames, List.map_append]
      exact List.nodup_append'.mpr ⟨g.distinct, g'.distinct, hdisjoint⟩
    obtain ⟨joined, hbuild, hjoinedImports, hjoinedRules⟩ :=
      Grammar.exists_build imports ⟨0, (source ++ lineBreak ++ source').utf8ByteSize⟩ hnodup
    exact ⟨joined, hbuild, hjoinedImports ▸ hsame, hjoinedRules ▸ hrules⟩
  · obtain ⟨d, hd⟩ : ∃ d, g'.definitions.find? (fun d => g.defines d.name) = some d := by
      obtain ⟨name, hname, hagain⟩ : ∃ name ∈ g.names, name ∈ g'.names := by
        simpa [List.Disjoint] using hshared
      obtain ⟨d, hmem, rfl⟩ := List.mem_map.mp hagain
      rw [← Option.isSome_iff_exists, List.find?_isSome]
      exact ⟨d, hmem, Grammar.defines_iff.mpr hname⟩
    obtain ⟨hdefined, before, after, hdefinitions, hbefore⟩ :=
      List.find?_eq_some_iff_append.mp hd
    obtain ⟨i, hi⟩ := List.getElem?_of_mem (Grammar.defines_iff.mp hdefined)
    obtain ⟨first, second, hfirst, hsecond, herror⟩ := Grammar.build_again imports
      ⟨0, (source ++ lineBreak ++ source').utf8ByteSize⟩ (hdefinitions ▸ hnames)
      (hdefinitions ▸ g'.distinct) hbefore hi
    refine ⟨d, i, before.length, imports, definitions, first, second, hd, hi, ?_, ?_, hsame, hrules,
      hfirst, hsecond, herror⟩
    · simp [hdefinitions]
    · simp only [readText, hjoined]

/-- An import and `A <- B?^l / import // A <- .`, where the comment goes up to the end. -/
def front : Grammar :=
  ⟨[⟨"m", [], ⟨0, 17⟩⟩], [⟨"A", .choice [.labeled "l" (.optional (.identifier "B" ⟨23, 24⟩) ⟨23, 25⟩)
    ⟨23, 27⟩, .identifier "import" ⟨30, 36⟩] ⟨23, 46⟩, ⟨18, 46⟩⟩], ⟨0, 46⟩, by decide⟩

/-- A text that is read as `front`. -/
def frontText : {text : String // Grammar.read text = .ok front} :=
  ⟨"import * from \"m\" A <- B?^l / import // A <- .", by decide +kernel⟩

/-- `B <- A` and `import <- [a-c]+` in one line. -/
def back : Grammar :=
  ⟨[], [⟨"B", .identifier "A" ⟨5, 6⟩, ⟨0, 7⟩⟩, ⟨"import", .oneOrMore (.charClass [.range 'a' 'c'
    ⟨18, 21⟩] ⟨17, 22⟩) ⟨17, 23⟩, ⟨7, 23⟩⟩], ⟨0, 23⟩, by decide⟩

/-- A text that is read as `back`. -/
def backText : {text : String // Grammar.read text = .ok back} :=
  ⟨"B <- A import <- [a-c]+", by decide +kernel⟩

/-- `C <- A` and `A <- .` in one line. -/
def again : Grammar :=
  ⟨[], [⟨"C", .identifier "A" ⟨5, 6⟩, ⟨0, 7⟩⟩, ⟨"A", .any ⟨12, 13⟩, ⟨7, 13⟩⟩], ⟨0, 13⟩, by decide⟩

/-- A text that is read as `again`. -/
def againText : {text : String // Grammar.read text = .ok again} :=
  ⟨"C <- A A <- .", by decide +kernel⟩

/-- Behind an open alternative, a comment and the end of the line. -/
theorem Grammar.read_append_front :
    (∃ joined, Grammar.read ("import * from \"m\" A <- B?^l / import // A <- ." ++ "\r\n" ++
        "B <- A import <- [a-c]+") = .ok joined ∧
      List.Forall₂ Import.Is front.imports joined.imports ∧
      List.Forall₂ Rule.Is (front.definitions ++ back.definitions) joined.definitions) ∧
    ∃ (i j : Nat) (imports : List Import) (definitions : List Definition)
        (first second : Definition),
      front.names[i]? = some "A" ∧ again.definitions[j]? = some ⟨"A", .any ⟨12, 13⟩, ⟨7, 13⟩⟩ ∧
      readText wholeGrammar ("import * from \"m\" A <- B?^l / import // A <- ." ++ "\n" ++
        "C <- A A <- .") = .ok (imports, definitions) ∧
      definitions[i]? = some first ∧ definitions[front.definitions.length + j]? = some second ∧
      Grammar.read ("import * from \"m\" A <- B?^l / import // A <- ." ++ "\n" ++
        "C <- A A <- .") = .error (.duplicateDefinition "A" first.span second.span) ∧
      first.span = ⟨18, 47⟩ ∧ second.span = ⟨54, 60⟩ := by
  have hdisjoint : List.Disjoint front.names back.names := by simp [Grammar.names, front, back]
  have hshared : ¬ List.Disjoint front.names again.names := by simp [Grammar.names, front, again]
  have hfind : again.definitions.find? (fun d => front.defines d.name) =
      some ⟨"A", .any ⟨12, 13⟩, ⟨7, 13⟩⟩ := rfl
  have hread : Grammar.read ("import * from \"m\" A <- B?^l / import // A <- ." ++ "\n" ++
      "C <- A A <- .") = .error (.duplicateDefinition "A" ⟨18, 47⟩ ⟨54, 60⟩) := by decide +kernel
  have hbreak : "\n" ∈ ["\n", "\r\n", "\r"] := by simp
  obtain ⟨d, i, j, imports, definitions, first, second, hd, hi, hj, hjoined, -, -, hfirst, hsecond,
    herror⟩ := (Grammar.read_append frontText.2 againText.2 rfl hbreak).2 hshared
  obtain rfl := Option.some.inj (hfind.symm.trans hd)
  obtain ⟨-, hfirstSpan, hsecondSpan⟩ :=
    GrammarError.duplicateDefinition.inj (Except.error.inj (herror.symm.trans hread))
  exact ⟨(Grammar.read_append frontText.2 backText.2 rfl (by simp)).1 hdisjoint,
    i, j, imports, definitions, first, second, hi, hj, hjoined, hfirst, hsecond, herror, hfirstSpan,
    hsecondSpan⟩

end LabeledPeg
