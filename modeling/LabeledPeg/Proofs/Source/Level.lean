import LabeledPeg.Proofs.Source.Token
import LabeledPeg.Source.Expression

/-!
# Levels of binding strength

There is one reader for each binding strength. A text that the reader of one strength takes for an
expression is taken for it by the readers of all weaker strengths, if its first character is no
operator of theirs and what follows does not go on with the expression.
-/

namespace LabeledPeg

open Text Source

namespace Precedence

lemma eq_of_rank_eq {level level' : Precedence} (h : level.rank = level'.rank) :
    level = level' := by
  cases level <;> cases level' <;> first | rfl | cases h

lemma rank_le (level : Precedence) : level.rank ≤ 5 := by
  cases level <;> decide

lemma exists_rank_eq {n : Nat} (h : n ≤ 5) : ∃ level : Precedence, level.rank = n := by
  match n with
  | 0 => exact ⟨choice, rfl⟩
  | 1 => exact ⟨sequence, rfl⟩
  | 2 => exact ⟨predicate, rfl⟩
  | 3 => exact ⟨labeled, rfl⟩
  | 4 => exact ⟨suffix, rfl⟩
  | 5 => exact ⟨primary, rfl⟩
  | n + 6 => omega

/-- Whether a character can begin an expression that binds at least as strongly as a level. -/
def begins (level : Precedence) (c : Char) : Bool :=
  isAsciiStart c || ['(', '\'', '"', '[', '.'].contains c ||
    (decide (level.rank ≤ predicate.rank) && ['&', '!', '#'].contains c)

/-- Whether a character, blanks left out, cannot go on with an expression at a level. -/
def ends : Precedence → Char → Bool
  | choice, c => c == ')'
  | sequence, c => c == ')' || c == '/'
  | predicate, c | labeled, c => !(['<', '?', '*', '+', '^'].contains c)
  | suffix, c => !(['<', '?', '*', '+'].contains c)
  | primary, c => c != '<'

lemma ends_mono {level level' : Precedence} (h : level.rank ≤ level'.rank) {c : Char}
    (hc : level.ends c = true) : level'.ends c = true := by
  cases level <;> cases level' <;> simp_all [rank, ends]
  all_goals rcases hc with rfl | rfl <;> decide

lemma begins_mono {level level' : Precedence} (h : level.rank ≤ level'.rank) {c : Char}
    (hc : level'.begins c = true) : level.begins c = true := by
  cases level <;> cases level' <;> simp_all [rank, begins]

/-- A character that begins an expression is none that cannot. -/
lemma ne_of_begins {level : Precedence} {c d : Char} (hc : level.begins c = true)
    (hd : level.begins d = false) : c ≠ d := by
  rintro rfl
  simp [hc] at hd

lemma begins_identifier {name : String} (hname : isAsciiIdentifier name = true) :
    ∃ c cs, name.toList = c :: cs ∧ primary.begins c = true := by
  obtain ⟨c, cs, hchars, hc, -⟩ := isAsciiIdentifier_iff.mp hname
  exact ⟨c, cs, hchars, by simp [begins, hc]⟩

/-- What begins an expression is no operator behind an operand. -/
lemma ends_of_begins {c : Char} (hc : choice.begins c = true) : predicate.ends c = true := by
  have hne : ∀ d, choice.begins d = false → c ≠ d := fun d => ne_of_begins hc
  simp [ends, hne '<' (by decide), hne '?' (by decide), hne '*' (by decide),
    hne '+' (by decide), hne '^' (by decide)]

lemma begins_choice_of_begins {level : Precedence} {c : Char} (hc : level.begins c = true) :
    choice.begins c = true := begins_mono (Nat.zero_le _) hc

end Precedence

/-- Whether a definition begins: a name, and the arrow behind it. -/
def BeginsDefinition (source : List Char) : Prop :=
  ∃ (name : String) (behind after : List Char), isAsciiIdentifier name = true ∧
    source = name.toList ++ behind ∧ (∀ c ∈ behind.head?, isAsciiContinue c = false) ∧
      skip behind = '<' :: '-' :: after

lemma BeginsDefinition.isAsciiStart {source : List Char} (h : BeginsDefinition source) :
    ∀ c ∈ source.head?, isAsciiStart c = true := by
  obtain ⟨name, behind, after, hname, rfl, -, -⟩ := h
  obtain ⟨c, cs, hchars, hc, -⟩ := isAsciiIdentifier_iff.mp hname
  simpa [hchars] using hc

/-- Whether a text, with no blanks before it, cannot go on with an expression at a level: it begins
with no operator of the level, or a definition begins there. -/
def Precedence.Stops (level : Precedence) (rest : List Char) : Prop :=
  (∀ c ∈ rest.head?, level.ends c = true) ∨ BeginsDefinition rest

lemma Precedence.Stops.mono {level level' : Precedence} {rest : List Char} (h : level.Stops rest)
    (hlevel : level.rank ≤ level'.rank) : level'.Stops rest :=
  Or.imp_left (fun hends c hc => ends_mono hlevel (hends c hc)) h

/-- The name of a definition does not go on with an operand. -/
lemma Precedence.Stops.ends {level : Precedence} {rest : List Char} (h : level.Stops rest)
    (hlevel : predicate.rank ≤ level.rank) : ∀ c ∈ rest.head?, level.ends c = true := by
  rcases h with hends | hdefinition
  · exact hends
  · intro c hc
    have hstart := hdefinition.isAsciiStart c hc
    have hbegins : choice.begins c = true := by simp [begins, hstart]
    exact ends_mono hlevel (ends_of_begins hbegins)

/-- Whether what follows a text cannot go on with an expression at a level. -/
structure Follows (level : Precedence) (rest : List Char) : Prop where
  word : ∀ c ∈ rest.head?, isAsciiContinue c = false
  operator : level.Stops (skip rest)

lemma Follows.mono {level level' : Precedence} {rest : List Char} (h : Follows level rest)
    (hlevel : level.rank ≤ level'.rank) : Follows level' rest :=
  ⟨h.word, h.operator.mono hlevel⟩

lemma Follows.ends {level : Precedence} {rest : List Char} (h : Follows level rest)
    (hlevel : Precedence.predicate.rank ≤ level.rank) :
    ∀ c ∈ (skip rest).head?, level.ends c = true := h.operator.ends hlevel

/-- Blanks and comments do not begin where an expression does. -/
lemma skip_of_begins {level : Precedence} {c : Char} (hc : level.begins c = true)
    (rest : List Char) : skip (c :: rest) = c :: rest := by
  have hchoice := Precedence.begins_choice_of_begins hc
  have hne : ∀ d, Precedence.choice.begins d = false → c ≠ d :=
    fun d => Precedence.ne_of_begins hchoice
  apply skip_cons
  · have hspace := hne ' ' (by decide)
    have htab := hne '\t' (by decide)
    have hreturn := hne '\r' (by decide)
    have hline := hne '\n' (by decide)
    simp [isBlank, hspace, htab, hreturn, hline]
  · exact hne '/' (by decide)

lemma skip_identifier {name : String} (hname : isAsciiIdentifier name = true)
    (rest : List Char) : skip (name.toList ++ rest) = name.toList ++ rest := by
  obtain ⟨c, cs, hchars, hc⟩ := Precedence.begins_identifier hname
  rw [hchars, List.cons_append, skip_of_begins hc]

namespace Source.Reader

/-- The reader of expressions that bind at least as strongly as a level. -/
def atLevel (nested : Reader Expr) : Precedence → Reader Expr
  | .choice => expressionWith nested
  | .sequence => sequence nested
  | .predicate => predicate nested
  | .labeled => labeled nested
  | .suffix => suffixed nested
  | .primary => primary nested

variable {nested : Reader Expr} {e : Expr} {text source rest : List Char}

/-- Whether an expression is another one up to spans. -/
abbrev Is (e : Expr) : Expr → Prop := fun e' => e'.unspanned = e.unspanned

/-- Whether the reader of a level takes a text for an expression, up to blanks behind it. -/
def ReadsAt (nested : Reader Expr) (level : Precedence) (e : Expr) (text : List Char) : Prop :=
  ∀ rest, Follows level rest → ∃ rest', Takes (atLevel nested level) (Is e) (text ++ rest) rest' ∧
    skip rest' = skip rest

/-!
### Refusals
-/

lemma refuses_identifier (h : ∀ c ∈ source.head?, isAsciiStart c = false) :
    Refuses identifier source := (refuses_oneOf h).bind.named _

lemma refuses_reference (h : ∀ c ∈ source.head?, isAsciiStart c = false) :
    Refuses reference source := (refuses_identifier h).spanned.bind

/-- The name of a definition is no reference, since the arrow follows. -/
lemma refuses_reference_of_definition (h : BeginsDefinition source) :
    Refuses reference source := by
  obtain ⟨name, behind, after, hname, rfl, hword, hskip⟩ := h
  have harrow : Refuses (require fun cursor => !cursor.startsWith ['<', '-'])
      ('<' :: '-' :: after) := fun _ => rfl
  exact (takes_identifier hname hword).spanned.bind_refuses fun _ _ =>
    (takes_blanks_of_skip hskip).bind_refuses fun _ _ => harrow.bind

lemma refuses_enclosed (h : ∀ c ∈ source.head?, c ∉ ['\'', '"', '[', '.']) :
    Refuses (orElse literal (orElse charClass any)) source := by
  have hne : ∀ d ∈ ['\'', '"', '[', '.'], ∀ c ∈ source.head?, c ≠ d := by
    rintro d hd c hc rfl
    exact h c hc hd
  have hquoted : Refuses literal source := by
    refine (Refuses.spanned ?_).bind.named _
    exact (refuses_token (hne '\'' (by decide))).bind.orElse (refuses_token (hne '"' (by decide))).bind
  have hclass : Refuses charClass source :=
    (refuses_token (hne '[' (by decide))).bind.spanned.bind.named _
  have hany : Refuses any source := (refuses_token (hne '.' (by decide))).spanned.bind.named _
  exact hquoted.orElse (hclass.orElse hany)

lemma refuses_group (h : ∀ c ∈ source.head?, c ≠ '(') : Refuses (group nested) source :=
  (refuses_token h).bind

/-- Neither a group nor a token but a name begins with another character than these. -/
lemma refuses_unnamed (h : ∀ c ∈ source.head?, c ∉ ['(', '\'', '"', '[', '.']) :
    Refuses (orElse (group nested) (orElse literal (orElse charClass any))) source := by
  refine (refuses_group ?_).orElse (refuses_enclosed fun c hc hmem => ?_)
  · rintro c hc rfl
    exact h '(' hc (by decide)
  · exact h c hc (List.mem_cons_of_mem _ hmem)

lemma refuses_primary (hreference : Refuses reference source)
    (h : ∀ c ∈ source.head?, c ∉ ['(', '\'', '"', '[', '.']) :
    Refuses (primary nested) source := (hreference.orElse (refuses_unnamed h)).named _

lemma refuses_predicateOp (h : ∀ c ∈ source.head?, c ≠ '&' ∧ c ≠ '!' ∧ c ≠ '#') :
    Refuses predicateOp source :=
  (refuses_oneOf fun c hc => by simp [h c hc]).named _

/-- No expression begins where there is no name to refer to and no other character that begins one. -/
lemma refuses_predicate_of_reference (hskip : skip source = source)
    (hreference : Refuses reference source)
    (h : ∀ c ∈ source.head?, c ∉ ['&', '!', '#'] ++ ['(', '\'', '"', '[', '.']) :
    Refuses (predicate nested) source := by
  have hop : Refuses predicateOp source := refuses_predicateOp fun c hc => by
    have hnone := h c hc
    simp only [List.mem_append, not_or] at hnone
    simpa using hnone.1
  have hprimary : Refuses (primary nested) source := refuses_primary hreference fun c hc => by
    have hnone := h c hc
    simp only [List.mem_append, not_or] at hnone
    exact hnone.2
  have hsuffixed : Refuses (suffixed nested) source := hprimary.bind.node _
  have hlabeled : Refuses (labeled nested) source := hsuffixed.bind.node _
  exact (Takes.bind_refuses hop.optional fun _ _ =>
    (takes_blanks_of_skip hskip).bind_refuses fun _ _ => hlabeled.bind).node _

/-- No expression begins where a group or an alternative ends, or a definition begins. -/
lemma refuses_predicate (hskip : skip source = source) (h : Precedence.sequence.Stops source) :
    Refuses (predicate nested) source := by
  rcases h with hends | hdefinition
  · have hclose : ∀ c ∈ source.head?, c = ')' ∨ c = '/' := fun c hc => by
      simpa [Precedence.ends] using hends c hc
    refine refuses_predicate_of_reference hskip (refuses_reference fun c hc => ?_) fun c hc => ?_
    · rcases hclose c hc with rfl | rfl <;> decide
    · rcases hclose c hc with rfl | rfl <;> decide
  · have hletters : ∀ d ∈ ['&', '!', '#'] ++ ['(', '\'', '"', '[', '.'],
        (!isAsciiStart d) = true := List.all_eq_true.mp (by decide)
    refine refuses_predicate_of_reference hskip (refuses_reference_of_definition hdefinition)
      fun c hc hmem => ?_
    have hnone := hletters c hmem
    simp [hdefinition.isAsciiStart c hc] at hnone

lemma refuses_alternative (h : Precedence.choice.Stops source) :
    Refuses (alternative nested) source := by
  refine (refuses_token fun c hc => ?_).bind
  rcases h with hends | hdefinition
  · obtain rfl : c = ')' := by simpa [Precedence.ends] using hends c hc
    decide
  · rintro rfl
    exact absurd (hdefinition.isAsciiStart '/' hc) (by decide)

/-!
### From a level to the weaker ones
-/

lemma ReadsAt.suffix (h : ReadsAt nested .primary e text) : ReadsAt nested .suffix e text := by
  intro rest hrest
  obtain ⟨rest', htakes, hskip⟩ := h rest (hrest.mono (by decide))
  have hop : Refuses suffixOp (skip rest) := by
    refine (refuses_oneOf fun c hc => ?_).named _
    have hends := hrest.ends (by decide) c hc
    simp [Precedence.ends] at hends
    simp [hends]
  refine ⟨skip rest, ?_, skip_skip rest⟩
  refine Takes.node (p := fun read => Is e read.1 ∧ read.2 = none) ?_ (fun read hread => ?_) _
  · exact htakes.bind fun body hbody => (takes_blanks_of_skip hskip).bind fun _ _ =>
      hop.optional.bind fun op? hop? => takes_pure ⟨hbody, hop?⟩
  · refine takes_pure ?_
    rw [hread.2]
    exact hread.1

lemma ReadsAt.labeled (h : ReadsAt nested .suffix e text) : ReadsAt nested .labeled e text := by
  intro rest hrest
  obtain ⟨rest', htakes, hskip⟩ := h rest (hrest.mono (by decide))
  have hlabel : Refuses label (skip rest) := by
    refine (refuses_token fun c hc => ?_).bind
    have hends := hrest.ends (by decide) c hc
    simp [Precedence.ends] at hends
    simp [hends]
  refine ⟨skip rest, ?_, skip_skip rest⟩
  refine Takes.node (p := fun read => Is e read.1 ∧ read.2 = none) ?_ (fun read hread => ?_) _
  · exact htakes.bind fun body hbody => (takes_blanks_of_skip hskip).bind fun _ _ =>
      hlabel.optional.bind fun label? hlabel? => takes_pure ⟨hbody, hlabel?⟩
  · refine takes_pure ?_
    rw [hread.2]
    exact hread.1

lemma ReadsAt.predicate {c : Char} {cs : List Char} (hc : Precedence.labeled.begins c = true)
    (h : ReadsAt nested .labeled e (c :: cs)) : ReadsAt nested .predicate e (c :: cs) := by
  intro rest hrest
  obtain ⟨rest', htakes, hskip⟩ := h rest (hrest.mono (by decide))
  have hop : Refuses predicateOp (c :: cs ++ rest) := by
    refine refuses_predicateOp fun d hd => ?_
    obtain rfl : c = d := by simpa using hd
    exact ⟨Precedence.ne_of_begins hc (by decide), Precedence.ne_of_begins hc (by decide),
      Precedence.ne_of_begins hc (by decide)⟩
  have hblanks := takes_blanks_of_skip (skip_of_begins hc (cs ++ rest))
  refine ⟨rest', ?_, hskip⟩
  refine Takes.node (p := fun read => read.1 = none ∧ Is e read.2) ?_ (fun read hread => ?_) _
  · exact hop.optional.bind fun op? hop? => hblanks.bind fun _ _ =>
      htakes.bind fun body hbody => takes_pure ⟨hop?, hbody⟩
  · refine takes_pure ?_
    rw [hread.1]
    exact hread.2

lemma takes_collapse_singleton {collapsed : List Expr → Span → Expr} {items : List Expr}
    {span : Span} {first : Expr} (hitems : items = [first]) (hfirst : Is e first) :
    Takes (pure (collapse collapsed items span)) (Is e) source source := by
  subst hitems
  exact takes_pure hfirst

lemma ReadsAt.sequence (h : ReadsAt nested .predicate e text) : ReadsAt nested .sequence e text := by
  intro rest hrest
  obtain ⟨rest', htakes, hskip⟩ := h rest (hrest.mono (by decide))
  have hrefuses : Refuses (Reader.predicate nested) (skip rest) :=
    refuses_predicate (skip_skip rest) hrest.operator
  refine ⟨skip rest, ?_, skip_skip rest⟩
  refine Takes.node (p := fun items => ∃ first, items = [first] ∧ Is e first) ?_
    (fun read hread => ?_) _
  · exact htakes.bind fun first hfirst => (takes_blanks_of_skip hskip).bind fun _ _ =>
      hrefuses.many.bind fun others hothers => takes_pure ⟨first, by rw [hothers], hfirst⟩
  · obtain ⟨first, hitems, hfirst⟩ := hread
    exact takes_collapse_singleton hitems hfirst

lemma ReadsAt.choice (h : ReadsAt nested .sequence e text) : ReadsAt nested .choice e text := by
  intro rest hrest
  obtain ⟨rest', htakes, hskip⟩ := h rest (hrest.mono (by decide))
  have hrefuses : Refuses (alternative nested) (skip rest) := refuses_alternative hrest.operator
  refine ⟨skip rest, ?_, skip_skip rest⟩
  refine Takes.node (p := fun items => ∃ first, items = [first] ∧ Is e first) ?_
    (fun read hread => ?_) _
  · exact htakes.bind fun first hfirst => (takes_blanks_of_skip hskip).bind fun _ _ =>
      hrefuses.many.bind fun others hothers => takes_pure ⟨first, by rw [hothers], hfirst⟩
  · obtain ⟨first, hitems, hfirst⟩ := hread
    exact takes_collapse_singleton hitems hfirst

/-- Whether the readers up to a level take a text for an expression, and it begins as at that
level. -/
structure Legible (nested : Reader Expr) (e : Expr) (text : List Char) (level : Precedence) :
    Prop where
  begins : ∃ c cs, text = c :: cs ∧ level.begins c = true
  reads : ∀ weaker : Precedence, weaker.rank ≤ level.rank → ReadsAt nested weaker e text

lemma ReadsAt.weaken {level weaker : Precedence} (h : ReadsAt nested level e text)
    (hrank : weaker.rank + 1 = level.rank)
    (hbegins : ∃ c cs, text = c :: cs ∧ level.begins c = true) : ReadsAt nested weaker e text := by
  obtain ⟨c, cs, rfl, hc⟩ := hbegins
  cases weaker with
  | choice =>
    obtain rfl : level = .sequence := Precedence.eq_of_rank_eq hrank.symm
    exact h.choice
  | sequence =>
    obtain rfl : level = .predicate := Precedence.eq_of_rank_eq hrank.symm
    exact h.sequence
  | predicate =>
    obtain rfl : level = .labeled := Precedence.eq_of_rank_eq hrank.symm
    exact h.predicate hc
  | labeled =>
    obtain rfl : level = .suffix := Precedence.eq_of_rank_eq hrank.symm
    exact h.labeled
  | suffix =>
    obtain rfl : level = .primary := Precedence.eq_of_rank_eq hrank.symm
    exact h.suffix
  | primary => cases level <;> simp [Precedence.rank] at hrank

/-- What one level reads, all weaker ones read. -/
theorem ReadsAt.legible {level : Precedence} (h : ReadsAt nested level e text)
    (hbegins : ∃ c cs, text = c :: cs ∧ level.begins c = true) : Legible nested e text level := by
  refine ⟨hbegins, fun weaker hweaker => ?_⟩
  obtain ⟨c, cs, rfl, hc⟩ := hbegins
  -- one level at a time, by the distance of the weaker level
  induction hgap : level.rank - weaker.rank generalizing weaker with
  | zero =>
    obtain rfl : weaker = level := Precedence.eq_of_rank_eq (by omega)
    exact h
  | succ gap ih =>
    have hbound := level.rank_le
    obtain ⟨next, hnext⟩ := Precedence.exists_rank_eq (show weaker.rank + 1 ≤ 5 by omega)
    exact (ih next (by omega) (by omega)).weaken hnext.symm
      ⟨c, cs, rfl, Precedence.begins_mono (by omega) hc⟩

end Source.Reader

end LabeledPeg
