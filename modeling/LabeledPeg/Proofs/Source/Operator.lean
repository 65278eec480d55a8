import LabeledPeg.Proofs.Source.Level

/-!
# Operators and groups are read back

For every operator of expressions: what the reader of its level takes the text for, if the readers of
the operands take the texts of the operands for what they were written for.
-/

namespace LabeledPeg

open Text Source

namespace Source.Reader

variable {nested : Reader Expr} {e : Expr} {text source rest : List Char} {span : Span}

lemma takes_require {condition : Cursor → Bool}
    (h : ∀ offset, condition ⟨offset, source⟩ = true) :
    Takes (require condition) (fun _ => True) source source := by
  intro offset
  exact ⟨(), offset, by simp [require, h offset], trivial⟩

lemma readsAt_identifier {name : String} (hname : isAsciiIdentifier name = true) :
    ReadsAt nested .primary (.identifier name span) name.toList := by
  intro rest hrest
  -- no arrow follows, so that the name is no beginning of a definition
  have hrequire : ∀ offset,
      (!(Cursor.startsWith ['<', '-'] ⟨offset, skip rest⟩)) = true := by
    intro offset
    cases hchars : skip rest with
    | nil => rfl
    | cons c cs =>
      have hends := hrest.ends (by decide) c (by simp [hchars])
      have hc : c ≠ '<' := by simpa [Precedence.ends] using hends
      simp [Cursor.startsWith, Cursor.after?, hc]
  refine ⟨skip rest, ?_, skip_skip rest⟩
  refine ((takes_identifier hname hrest.word).spanned.bind fun read hread =>
    takes_blanks.bind fun _ _ => (takes_require hrequire).bind fun _ _ => takes_pure ?_).orElse.named _
  simp only [Is, Expr.unspanned, hread]

lemma refuses_literal (h : ∀ c ∈ source.head?, c ≠ '\'' ∧ c ≠ '"') : Refuses literal source :=
  Refuses.node ((refuses_token fun c hc => (h c hc).1).bind.orElse
    (refuses_token fun c hc => (h c hc).2).bind) _

/-- Neither a name nor a group begins with another character than a letter or a parenthesis. -/
lemma takes_primary {c : Char} (hc : source.head? = some c) (hletter : isAsciiStart c = false)
    (hparenthesis : c ≠ '(')
    (h : Takes (orElse literal (orElse charClass any)) (Is e) source rest) :
    Takes (primary nested) (Is e) source rest := by
  have hreference : Refuses reference source := refuses_reference (by simpa [hc] using hletter)
  have hgroup : Refuses (group nested) source := refuses_group (by simpa [hc] using hparenthesis)
  exact (hreference.orElse_takes (hgroup.orElse_takes h)).named _

lemma readsAt_literal (value : String) :
    ReadsAt nested .primary (.literal value span) (literalText value).toList := by
  intro rest _
  have hhead : ((literalText value).toList ++ rest).head? = some '\'' := by simp [literalText]
  refine ⟨rest, takes_primary hhead (by decide) (by decide) (Takes.orElse ?_), rfl⟩
  refine (takes_literal value).mono ?_
  rintro _ ⟨span', rfl⟩
  simp only [Is, Expr.unspanned]

lemma readsAt_charClass {members : List Expr} (h : ∀ e ∈ members, e.IsClassMember) :
    ReadsAt nested .primary (.charClass members span) (Expr.charClass members span).text.toList := by
  intro rest _
  have hhead : ((Expr.charClass members span).text.toList ++ rest).head? = some '[' := by
    simp [Expr.text]
  have hliteral : Refuses literal ((Expr.charClass members span).text.toList ++ rest) :=
    refuses_literal (by simp [hhead])
  refine ⟨rest, takes_primary hhead (by decide) (by decide) ?_, rfl⟩
  exact hliteral.orElse_takes (takes_charClass h span).orElse

lemma readsAt_any : ReadsAt nested .primary (.any span) ['.'] := by
  intro rest _
  have hliteral : Refuses literal ('.' :: rest) := refuses_literal (by simp)
  have hclass : Refuses charClass ('.' :: rest) :=
    Refuses.node (refuses_token (by simp)).bind _
  refine ⟨rest, takes_primary rfl (by decide) (by decide) ?_, rfl⟩
  refine hliteral.orElse_takes (hclass.orElse_takes ?_)
  exact Takes.node (takes_symbol '.') (fun _ _ => takes_pure (by simp only [Is, Expr.unspanned])) _

lemma follows_cons {level : Precedence} {c : Char} (hword : isAsciiContinue c = false)
    (hblank : isBlank c = false) (hslash : c ≠ '/') (hends : level.ends c = true) :
    Follows level (c :: rest) := by
  refine ⟨by simpa using hword, .inl ?_⟩
  rw [skip_cons hblank hslash]
  simpa using hends

lemma follows_nil {level : Precedence} : Follows level [] := ⟨by simp, .inl (by simp [skip_nil])⟩

lemma Legible.skip_append {level : Precedence} (h : Legible nested e text level)
    (rest : List Char) : skip (text ++ rest) = text ++ rest := by
  obtain ⟨c, cs, rfl, hc⟩ := h.begins
  exact skip_of_begins hc (cs ++ rest)

/-- What the expressions in parentheses are read with takes one pair of parentheses more. -/
lemma readsAt_group {depth : Nat} {level : Precedence}
    (h : Legible (expressionTo depth) e text level) :
    ReadsAt (expressionTo (depth + 1)) .primary e ('(' :: text ++ [')']) := by
  intro rest _
  have hreference : Refuses reference ('(' :: (text ++ ')' :: rest)) :=
    refuses_reference (by simp; decide)
  -- the closing parenthesis ends the weakest level, whatever stands behind it
  have hclose : Follows .choice (')' :: rest) :=
    follows_cons (by decide) (by decide) (by decide) (by decide)
  obtain ⟨rest', htakes, hskip⟩ := h.reads .choice (Nat.zero_le _) (')' :: rest) hclose
  have hafter : skip rest' = ')' :: rest := hskip.trans (skip_cons (by decide) (by decide))
  have hblanks := takes_blanks_of_skip hafter
  have hgroup : Takes (group (expressionTo (depth + 1))) (Is e) ('(' :: (text ++ ')' :: rest)) rest :=
    (takes_symbol '(').bind fun _ _ => (takes_blanks_of_skip (h.skip_append _)).bind fun _ _ =>
      htakes.bind fun e' he' => hblanks.bind fun _ _ => (takes_symbol ')').bind fun _ _ =>
        takes_pure he'
  have htext : '(' :: text ++ [')'] ++ rest = '(' :: (text ++ ')' :: rest) := by simp
  rw [htext]
  exact ⟨rest, (hreference.orElse_takes hgroup.orElse).named _, rfl⟩

/-- An operator behind a primary expression. -/
lemma readsAt_suffixOp {op : Char} (hop : op = '?' ∨ op = '*' ∨ op = '+') {body : Expr}
    (h : ReadsAt nested .primary body text)
    (happly : ∀ body' span, Is body body' → Is e (applySuffix (some op) body' span)) :
    ReadsAt nested .suffix e (text ++ [op]) := by
  intro rest _
  have hfollows : Follows .primary (op :: rest) := by
    rcases hop with rfl | rfl | rfl <;>
      exact follows_cons (by decide) (by decide) (by decide) (by decide)
  have hskipop : skip (op :: rest) = op :: rest := by
    rcases hop with rfl | rfl | rfl <;> exact skip_cons (by decide) (by decide)
  have htakesop : Takes suffixOp (fun c => c = op) (op :: rest) rest := by
    refine (takes_oneOf ?_).named _
    rcases hop with rfl | rfl | rfl <;> decide
  obtain ⟨rest', htakes, hskip⟩ := h (op :: rest) hfollows
  have hblanks := takes_blanks_of_skip (hskip.trans hskipop)
  rw [List.append_assoc, List.singleton_append]
  refine ⟨rest, ?_, rfl⟩
  refine Takes.node (p := fun read => Is body read.1 ∧ read.2 = some op) ?_ (fun read hread => ?_) _
  · refine htakes.bind fun body' hbody => hblanks.bind fun _ _ =>
      htakesop.optional.bind fun op? hop? => takes_pure ⟨hbody, ?_⟩
    obtain ⟨_, hsome, rfl⟩ := hop?
    exact hsome
  · refine takes_pure ?_
    rw [hread.2]
    exact happly _ _ hread.1

/-- A label behind an expression. -/
lemma readsAt_label {body : Expr} {label : String} (hlabel : isAsciiIdentifier label = true)
    (h : ReadsAt nested .suffix body text) :
    ReadsAt nested .labeled (.labeled label body span) (text ++ '^' :: label.toList) := by
  intro rest hrest
  have hfollows : Follows .suffix ('^' :: (label.toList ++ rest)) :=
    follows_cons (by decide) (by decide) (by decide) (by decide)
  obtain ⟨rest', htakes, hskip⟩ := h _ hfollows
  have hblanks := takes_blanks_of_skip (hskip.trans (skip_cons (by decide) (by decide)))
  have hread : Takes Reader.label (fun value => value = label) ('^' :: (label.toList ++ rest)) rest :=
    (takes_symbol '^').bind fun _ _ =>
      (takes_blanks_of_skip (skip_identifier hlabel rest)).bind fun _ _ =>
        takes_identifier hlabel hrest.word
  rw [List.append_assoc, List.cons_append]
  refine ⟨rest, ?_, rfl⟩
  refine Takes.node (p := fun read => Is body read.1 ∧ read.2 = some label) ?_
    (fun read hread => ?_) _
  · refine htakes.bind fun body' hbody => hblanks.bind fun _ _ =>
      hread.optional.bind fun label? hlabel? => takes_pure ⟨hbody, ?_⟩
    obtain ⟨_, hsome, rfl⟩ := hlabel?
    exact hsome
  · refine takes_pure ?_
    rw [hread.2]
    simp only [Is, applyLabel, Expr.unspanned, (hread.1 : _ = _)]

/-- An operator before a labelled expression. -/
lemma readsAt_predicateOp {op : Char} (hop : op = '&' ∨ op = '!' ∨ op = '#') {body : Expr}
    {level : Precedence} (h : Legible nested body text level)
    (hlevel : Precedence.labeled.rank ≤ level.rank)
    (happly : ∀ body' span, Is body body' → Is e (applyPredicate (some op) body' span)) :
    ReadsAt nested .predicate e (op :: text) := by
  intro rest hrest
  obtain ⟨rest', htakes, hskip⟩ := h.reads .labeled hlevel rest (hrest.mono (by decide))
  have htakesop : Takes predicateOp (fun c => c = op) (op :: (text ++ rest)) (text ++ rest) := by
    refine (takes_oneOf ?_).named _
    rcases hop with rfl | rfl | rfl <;> decide
  rw [List.cons_append]
  refine ⟨rest', ?_, hskip⟩
  refine Takes.node (p := fun read => read.1 = some op ∧ Is body read.2) ?_ (fun read hread => ?_) _
  · refine htakesop.optional.bind fun op? hop? =>
      (takes_blanks_of_skip (h.skip_append rest)).bind fun _ _ =>
        htakes.bind fun body' hbody => takes_pure ⟨?_, hbody⟩
    obtain ⟨_, hsome, rfl⟩ := hop?
    exact hsome
  · refine takes_pure ?_
    rw [hread.1]
    exact happly _ _ hread.2

lemma toList_intercalate_cons (separator first : String) (others : List String) :
    (separator.intercalate (first :: others)).toList =
      first.toList ++ others.flatMap fun other => separator.toList ++ other.toList := by
  induction others generalizing first with
  | nil => simp
  | cons second others ih =>
    rw [String.intercalate_cons_cons, String.toList_append, String.toList_append, ih]
    simp

lemma collapse_of_two_le {collapsed : List Expr → Span → Expr} {items : List Expr}
    (h : 2 ≤ items.length) : collapse collapsed items span = collapsed items span := by
  match items with
  | [] => simp at h
  | [_] => simp at h
  | _ :: _ :: _ => rfl

section Collapsing

variable {head item : Reader Expr} {level : Precedence} {behind : Expr → List Char}
  {first : Expr} {others : List Expr} {collapsed : List Expr → Span → Expr}

/-- Items that are read one after the other, at least two of them, make a group. -/
lemma takes_items {term : Term} (hfirst : ∀ rest, Follows level rest →
      ∃ rest', Takes head (Is first.normal) (text ++ rest) rest' ∧ skip rest' = skip rest)
    (hne : others ≠ []) (hothers : ∀ e ∈ others,
      Separated item (Follows level) [' '] behind (fun e => Is e.normal) e)
    (hrest : Follows level rest) (hstop : Refuses item (skip rest))
    (hgroup : ∀ values span, values.map Expr.unspanned =
      (first :: others).map (fun e => e.normal.unspanned) → Is e (collapsed values span)) :
    ∃ rest', Takes (named term (spanned (do
        let first ← head
        blanks
        return first :: (← many blanks item)) >>= fun (items, span) =>
          pure (collapse collapsed items span)))
      (Is e) (text ++ (others.flatMap (fun e => [' '] ++ behind e) ++ rest)) rest' ∧
        skip rest' = skip rest := by
  obtain ⟨middle, htakes, hmiddle⟩ := hfirst _ (follows_separated hothers hrest)
  obtain ⟨rest', hmany, hrest'⟩ := takes_many_separated hothers hrest hstop
  refine ⟨rest', ?_, hrest'⟩
  refine Takes.node (p := fun values => values.map Expr.unspanned =
    (first :: others).map fun e => e.normal.unspanned) ?_ (fun read hread => takes_pure ?_) _
  · refine htakes.bind fun value hvalue => (takes_blanks_of_skip hmiddle).bind fun _ _ =>
      hmany.bind fun values hvalues => takes_pure ?_
    rw [List.map_cons, List.map_cons, hvalues.map_eq]
    exact congrArg (· :: _) hvalue
  · -- there are as many values as items, at least two, so that the group is not left out
    have hlength : read.1.length = others.length + 1 := by
      have hlengths := congrArg List.length hread
      simpa using hlengths
    have htwo : 2 ≤ read.1.length := by
      have hpos : 0 < others.length := List.length_pos_of_ne_nil hne
      omega
    rw [collapse_of_two_le htwo]
    exact hgroup _ _ hread

end Collapsing

/-- What the readers up to some level, at least the given one, take for an expression. -/
def LegibleFrom (nested : Reader Expr) (least : Precedence) (e : Expr) (text : List Char) : Prop :=
  ∃ level : Precedence, least.rank ≤ level.rank ∧ Legible nested e text level

lemma separated_sequence (h : LegibleFrom nested .predicate e.normal (e.textAt .predicate).toList) :
    Separated (Reader.predicate nested) (Follows .predicate) [' ']
      (fun e => (e.textAt .predicate).toList) (fun e => Is e.normal) e := by
  obtain ⟨level, hlevel, hlegible⟩ := h
  obtain ⟨c, cs, htext, hbegins⟩ := hlegible.begins
  have hskip : ∀ rest, skip ([' '] ++ (e.textAt .predicate).toList ++ rest) =
      (e.textAt .predicate).toList ++ rest := by
    intro rest
    rw [List.singleton_append, List.cons_append, skip_blank (by decide), hlegible.skip_append]
  refine ⟨hlegible.reads .predicate hlevel, hskip, fun rest => ⟨by simp; decide, .inl ?_⟩, ?_⟩
  · intro c' hc'
    rw [hskip, htext] at hc'
    obtain rfl : c = c' := by simpa using hc'
    exact Precedence.ends_of_begins (Precedence.begins_choice_of_begins hbegins)
  · simp [htext]

lemma separated_choice (h : LegibleFrom nested .sequence e.normal (e.textAt .sequence).toList) :
    Separated (alternative nested) (Follows .sequence) [' ']
      (fun e => '/' :: ' ' :: (e.textAt .sequence).toList) (fun e => Is e.normal) e := by
  obtain ⟨level, hlevel, hlegible⟩ := h
  have hskip : ∀ rest, skip ([' '] ++ '/' :: ' ' :: (e.textAt .sequence).toList ++ rest) =
      '/' :: ' ' :: (e.textAt .sequence).toList ++ rest := by
    intro rest
    rw [List.singleton_append, List.cons_append, skip_blank (by decide)]
    exact skip_slash (by decide)
  refine ⟨fun rest hrest => ?_, hskip, fun rest => ⟨by simp; decide, .inl ?_⟩, by simp⟩
  · obtain ⟨rest', htakes, hrest'⟩ := hlegible.reads .sequence hlevel rest hrest
    exact ⟨rest', (takes_symbol '/').bind fun _ _ =>
      (takes_space (hlegible.skip_append rest)).bind fun _ _ => htakes, hrest'⟩
  · rw [hskip]
    simp [Precedence.ends]

lemma readsAt_sequence {items : List Expr} (hitems : 2 ≤ items.length)
    (h : ∀ e ∈ items, LegibleFrom nested .predicate e.normal (e.textAt .predicate).toList) :
    ReadsAt nested .sequence (Expr.sequence items span).normal
      (Expr.sequence items span).text.toList := by
  obtain ⟨first, others, rfl⟩ : ∃ first others, items = first :: others :=
    List.exists_cons_of_length_pos (by omega)
  have hne : others ≠ [] := by
    rintro rfl
    simp at hitems
  obtain ⟨level, hlevel, hfirst⟩ := h first (by simp)
  intro rest hrest
  have htext : (Expr.sequence (first :: others) span).text.toList ++ rest =
      (first.textAt .predicate).toList ++
        (others.flatMap (fun e => [' '] ++ (e.textAt .predicate).toList) ++ rest) := by
    rw [Expr.text, Expr.itemTexts_eq_map, List.map_cons, toList_intercalate_cons]
    simp [List.flatMap_map]
  rw [htext]
  refine takes_items (hfirst.reads .predicate hlevel) hne
    (fun e he => separated_sequence (h e (by simp [he]))) (hrest.mono (by decide))
    (refuses_predicate (skip_skip rest) hrest.operator) fun values span' hvalues => ?_
  rw [Is, Expr.normal_sequence_of_two_le hitems]
  simp only [Expr.unspanned, Expr.allUnspanned_eq_map, hvalues, List.map_map, Function.comp_def]

lemma readsAt_choice {alternatives : List Expr} (halternatives : 2 ≤ alternatives.length)
    (h : ∀ e ∈ alternatives, LegibleFrom nested .sequence e.normal (e.textAt .sequence).toList) :
    ReadsAt nested .choice (Expr.choice alternatives span).normal
      (Expr.choice alternatives span).text.toList := by
  obtain ⟨first, others, rfl⟩ : ∃ first others, alternatives = first :: others :=
    List.exists_cons_of_length_pos (by omega)
  have hne : others ≠ [] := by
    rintro rfl
    simp at halternatives
  obtain ⟨level, hlevel, hfirst⟩ := h first (by simp)
  intro rest hrest
  have htext : (Expr.choice (first :: others) span).text.toList ++ rest =
      (first.textAt .sequence).toList ++
        (others.flatMap (fun e => [' '] ++ '/' :: ' ' :: (e.textAt .sequence).toList) ++ rest) := by
    rw [Expr.text, Expr.itemTexts_eq_map, List.map_cons, toList_intercalate_cons]
    simp [List.flatMap_map]
  rw [htext]
  refine takes_items (hfirst.reads .sequence hlevel) hne
    (fun e he => separated_choice (h e (by simp [he]))) (hrest.mono (by decide))
    (refuses_alternative hrest.operator) fun values span' hvalues => ?_
  rw [Is, Expr.normal_choice_of_two_le halternatives]
  simp only [Expr.unspanned, Expr.allUnspanned_eq_map, hvalues, List.map_map, Function.comp_def]

end Source.Reader

end LabeledPeg
