import LabeledPeg.Proofs.Source.Operator
import LabeledPeg.Proofs.Source.Value

/-!
# Texts are read back

The text of a well-formed expression is read as the normal form of the expression, with parentheses
exactly where the levels of binding strength need them. Every expression that is read is well formed
and in normal form, so that its own text gives it back.
-/

namespace LabeledPeg

open Text Source

namespace Source.Reader

variable {nested : Reader Expr} {e body : Expr} {text : List Char} {level weaker : Precedence}
  {depth : Nat} {span : Span}

lemma Legible.mono (h : Legible nested e text level) (hrank : weaker.rank ≤ level.rank) :
    Legible nested e text weaker := by
  obtain ⟨c, cs, rfl, hc⟩ := h.begins
  refine ⟨⟨c, cs, rfl, Precedence.begins_mono hrank hc⟩, fun weakest hweakest => ?_⟩
  exact h.reads weakest (Nat.le_trans hweakest hrank)

/-- Whether the text of an expression is read as its normal form wherever its level stands. -/
def Readable (e : Expr) : Prop :=
  ∀ depth, e.text.length ≤ depth →
    Legible (expressionTo depth) e.normal e.text.toList e.precedence

/-- Parentheses bring an expression up to the level that its place asks for. -/
lemma Readable.textAt (h : Readable e) {least : Precedence}
    (hdepth : (e.textAt least).length ≤ depth) :
    ∃ level : Precedence, least.rank ≤ level.rank ∧ e.precedence.rank ≤ level.rank ∧
      Legible (expressionTo depth) e.normal (e.textAt least).toList level := by
  cases hneeded : e.needsParentheses least with
  | true =>
    have htext : e.textAt least = "(" ++ e.text ++ ")" := by
      rw [Expr.textAt, hneeded, parenthesized, if_pos rfl]
    have hlength : (e.textAt least).length = 1 + e.text.length + 1 := by
      rw [htext, String.length_append, String.length_append]
      rfl
    -- the pair of parentheses takes two characters, but only one level of depth
    obtain ⟨inner, rfl⟩ : ∃ inner, depth = inner + 1 := ⟨depth - 1, by omega⟩
    have hgroup := (readsAt_group (h inner (by omega))).legible ⟨'(', _, rfl, by decide⟩
    have hlist : (e.textAt least).toList = '(' :: e.text.toList ++ [')'] := by simp [htext]
    rw [hlist]
    exact ⟨.primary, Precedence.rank_le _, Precedence.rank_le _, hgroup⟩
  | false =>
    have htext : e.textAt least = e.text := by
      rw [Expr.textAt, hneeded, parenthesized, if_neg (by simp)]
    have hleast : least.rank ≤ e.precedence.rank := by
      simpa [Expr.needsParentheses] using hneeded
    rw [htext] at hdepth ⊢
    exact ⟨e.precedence, hleast, Nat.le_refl _, h depth hdepth⟩

lemma Readable.legibleFrom (h : Readable e) {least : Precedence}
    (hdepth : (e.textAt least).length ≤ depth) :
    LegibleFrom (expressionTo depth) least e.normal (e.textAt least).toList := by
  obtain ⟨level, hlevel, -, hlegible⟩ := h.textAt hdepth
  exact ⟨level, hlevel, hlegible⟩

/-- An operator behind its operand. -/
lemma Readable.suffixOp (h : Readable body) {op : Char} (hop : op = '?' ∨ op = '*' ∨ op = '+')
    (htext : e.text = body.textAt .primary ++ op.toString) (hlevel : e.precedence = .suffix)
    (happly : ∀ body' span, Is body.normal body' → Is e.normal (applySuffix (some op) body' span)) :
    Readable e := by
  intro depth hdepth
  have hlength : (body.textAt .primary).length ≤ e.text.length := by simp [htext]
  obtain ⟨level, hprimary, -, hlegible⟩ := h.textAt (Nat.le_trans hlength hdepth)
  obtain ⟨c, cs, hchars, hc⟩ := hlegible.begins
  have hlist : e.text.toList = (body.textAt .primary).toList ++ [op] := by simp [htext]
  rw [hlevel, hlist]
  refine (readsAt_suffixOp hop (hlegible.reads .primary hprimary) happly).legible ?_
  refine ⟨c, cs ++ [op], by rw [hchars, List.cons_append], Precedence.begins_mono ?_ hc⟩
  exact Nat.le_trans (by decide) hprimary

/-- An operator before its operand. -/
lemma Readable.predicateOp (h : Readable body) {op : Char} (hop : op = '&' ∨ op = '!' ∨ op = '#')
    (htext : e.text = op.toString ++ body.textAt .labeled) (hlevel : e.precedence = .predicate)
    (happly : ∀ body' span, Is body.normal body' →
      Is e.normal (applyPredicate (some op) body' span)) : Readable e := by
  intro depth hdepth
  have hlength : (body.textAt .labeled).length ≤ e.text.length := by simp [htext]
  obtain ⟨level, hlabeled, -, hlegible⟩ := h.textAt (Nat.le_trans hlength hdepth)
  have hlist : e.text.toList = op :: (body.textAt .labeled).toList := by simp [htext]
  rw [hlevel, hlist]
  refine (readsAt_predicateOp hop hlegible hlabeled happly).legible ⟨op, _, rfl, ?_⟩
  rcases hop with rfl | rfl | rfl <;> decide

lemma Readable.labeled (h : Readable body) {label : String}
    (hlabel : isAsciiIdentifier label = true) : Readable (.labeled label body span) := by
  intro depth hdepth
  have htext : (Expr.labeled label body span).text = body.textAt .suffix ++ "^" ++ label := by
    simp only [Expr.text, Expr.textAt]
  have hlength : (body.textAt .suffix).length ≤ (Expr.labeled label body span).text.length := by
    rw [htext, String.length_append, String.length_append]
    omega
  obtain ⟨level, hsuffix, -, hlegible⟩ := h.textAt (Nat.le_trans hlength hdepth)
  obtain ⟨c, cs, hchars, hc⟩ := hlegible.begins
  have hlist : (Expr.labeled label body span).text.toList =
      (body.textAt .suffix).toList ++ '^' :: label.toList := by simp [htext]
  have hread : ReadsAt (expressionTo depth) .labeled (.labeled label body.normal span)
      ((body.textAt .suffix).toList ++ '^' :: label.toList) :=
    readsAt_label hlabel (hlegible.reads .suffix hsuffix)
  rw [hlist, Expr.normal, Expr.precedence]
  refine hread.legible ⟨c, cs ++ '^' :: label.toList, by rw [hchars, List.cons_append], ?_⟩
  exact Precedence.begins_mono (Nat.le_trans (by decide) hsuffix) hc

/-- A group of one item is written as the item. -/
lemma Readable.singleton {item : Expr} (h : Readable item) (least : Precedence)
    (htext : e.text = item.textAt least) (hnormal : e.normal = item.normal)
    (hlevel : e.precedence = item.precedence) : Readable e := by
  intro depth hdepth
  rw [htext] at hdepth
  obtain ⟨level, -, hitem, hlegible⟩ := h.textAt hdepth
  rw [htext, hnormal, hlevel]
  exact hlegible.mono hitem

lemma length_le_length_intercalate (separator : String) {text : String} {texts : List String}
    (h : text ∈ texts) : text.length ≤ (separator.intercalate texts).length := by
  induction texts with
  | nil => simp at h
  | cons first others ih =>
    cases others with
    | nil =>
      obtain rfl : text = first := by simpa using h
      simp
    | cons second others =>
      rw [String.intercalate_cons_cons, String.length_append, String.length_append]
      rcases List.mem_cons.mp h with rfl | h
      · omega
      · have hrest := ih h
        omega

lemma Readable.items {items : List Expr} (h : ∀ e ∈ items, Readable e) {separator : String}
    {least : Precedence} (htext : e.text = separator.intercalate (Expr.itemTexts least items))
    (hdepth : e.text.length ≤ depth) :
    ∀ e ∈ items, LegibleFrom (expressionTo depth) least e.normal (e.textAt least).toList := by
  intro item hitem
  have hmem : item.textAt least ∈ Expr.itemTexts least items := by
    rw [Expr.itemTexts_eq_map]
    exact List.mem_map_of_mem hitem
  have hlength := length_le_length_intercalate separator hmem
  rw [← htext] at hlength
  exact (h item hitem).legibleFrom (Nat.le_trans hlength hdepth)

lemma begins_items {items : List Expr} (hne : items ≠ []) (separator : String)
    {least level : Precedence}
    (h : ∀ e ∈ items, LegibleFrom nested least e.normal (e.textAt least).toList)
    (hlevel : level.rank ≤ least.rank) :
    ∃ c cs, (separator.intercalate (Expr.itemTexts least items)).toList = c :: cs ∧
      level.begins c = true := by
  obtain ⟨first, others, rfl⟩ := List.exists_cons_of_ne_nil hne
  obtain ⟨from', hfrom, hlegible⟩ := h first (by simp)
  obtain ⟨c, cs, hchars, hc⟩ := hlegible.begins
  rw [Expr.itemTexts_eq_map, List.map_cons, toList_intercalate_cons, hchars, List.cons_append]
  exact ⟨c, _, rfl, Precedence.begins_mono (Nat.le_trans hlevel hfrom) hc⟩

lemma readable_sequence {items : List Expr} (hne : items ≠ []) (h : ∀ e ∈ items, Readable e) :
    Readable (.sequence items span) := by
  match items with
  | [] => exact absurd rfl hne
  | [item] =>
    refine (h item (by simp)).singleton .predicate ?_ ?_ ?_
    · simp only [Expr.text, Expr.itemTexts_eq_map, List.map_cons, List.map_nil,
        String.intercalate_singleton]
    · simp only [Expr.normal]
    · simp only [Expr.precedence]
  | first :: second :: others =>
    intro depth hdepth
    have htext : (Expr.sequence (first :: second :: others) span).text =
        " ".intercalate (Expr.itemTexts .predicate (first :: second :: others)) := by
      simp only [Expr.text]
    have hitems := Readable.items h htext hdepth
    have hbegins := begins_items hne " " hitems (show Precedence.sequence.rank ≤ _ by decide)
    rw [← htext] at hbegins
    have hlevel : (Expr.sequence (first :: second :: others) span).precedence = .sequence := by
      simp only [Expr.precedence]
    rw [hlevel]
    exact (readsAt_sequence (by simp) hitems).legible hbegins

lemma readable_choice {alternatives : List Expr} (hne : alternatives ≠ [])
    (h : ∀ e ∈ alternatives, Readable e) : Readable (.choice alternatives span) := by
  match alternatives with
  | [] => exact absurd rfl hne
  | [item] =>
    refine (h item (by simp)).singleton .sequence ?_ ?_ ?_
    · simp only [Expr.text, Expr.itemTexts_eq_map, List.map_cons, List.map_nil,
        String.intercalate_singleton]
    · simp only [Expr.normal]
    · simp only [Expr.precedence]
  | first :: second :: others =>
    intro depth hdepth
    have htext : (Expr.choice (first :: second :: others) span).text =
        " / ".intercalate (Expr.itemTexts .sequence (first :: second :: others)) := by
      simp only [Expr.text]
    have hitems := Readable.items h htext hdepth
    have hbegins := begins_items hne " / " hitems (show Precedence.choice.rank ≤ _ by decide)
    rw [← htext] at hbegins
    have hlevel : (Expr.choice (first :: second :: others) span).precedence = .choice := by
      simp only [Expr.precedence]
    rw [hlevel]
    exact (readsAt_choice (by simp) hitems).legible hbegins

lemma Readable.primary (hlevel : e.precedence = .primary)
    (hbegins : ∃ c cs, e.text.toList = c :: cs ∧ Precedence.primary.begins c = true)
    (h : ∀ nested, ReadsAt nested .primary e.normal e.text.toList) : Readable e := by
  intro depth _
  rw [hlevel]
  exact (h (expressionTo depth)).legible hbegins

lemma begins_charClass (members : List Expr) (span : Span) :
    ∃ c cs, (Expr.charClass members span).text.toList = c :: cs ∧
      Precedence.primary.begins c = true := by
  refine ⟨'[', (String.join (Expr.memberTexts members)).toList ++ [']'], ?_, by decide⟩
  simp [Expr.text]

/-- Every well-formed expression is read back from its text. -/
theorem readable_of_wellFormed {n : Expr} (hn : n.WellFormed) : Readable n := by
  induction hn with
  | any =>
    refine .primary (by simp only [Expr.precedence]) ?_ fun nested => ?_ <;>
      simp only [Expr.text, Expr.normal]
    · exact ⟨'.', [], rfl, by decide⟩
    · exact readsAt_any
  | @literal value span =>
    refine .primary (by simp only [Expr.precedence]) ?_ fun nested => ?_ <;>
      simp only [Expr.text, Expr.normal]
    · exact ⟨'\'', _, by simp [literalText]; rfl, by decide⟩
    · exact readsAt_literal value
  | identifier hname =>
    refine .primary (by simp only [Expr.precedence]) ?_ fun nested => ?_ <;>
      simp only [Expr.text, Expr.normal]
    · exact Precedence.begins_identifier hname
    · exact readsAt_identifier hname
  | @range lo hi span =>
    have htext : (Expr.range lo hi span).text =
        (Expr.charClass [.range lo hi span] span).text := by
      simp [Expr.text, Expr.memberTexts, String.join]
    refine .primary (by simp only [Expr.precedence]) ?_ fun nested => ?_ <;>
      rw [htext]
    · exact begins_charClass _ _
    · rw [Expr.normal]
      exact readsAt_charClass (by simp [Expr.IsClassMember])
  | charClass hmembers =>
    refine .primary (by simp only [Expr.precedence]) (begins_charClass _ _) fun nested => ?_
    rw [Expr.normal]
    · exact readsAt_charClass hmembers
    all_goals simp
  | optional _ ih =>
    refine ih.suffixOp (.inl rfl) ?_ (by simp only [Expr.precedence]) fun body' span hbody => ?_
    · simp only [Expr.text, Expr.textAt]
      rfl
    · simp only [Is, applySuffix, Expr.normal, Expr.unspanned, hbody.symm]
  | zeroOrMore _ ih =>
    refine ih.suffixOp (.inr (.inl rfl)) ?_ (by simp only [Expr.precedence])
      fun body' span hbody => ?_
    · simp only [Expr.text, Expr.textAt]
      rfl
    · simp only [Is, applySuffix, Expr.normal, Expr.unspanned, hbody.symm]
  | oneOrMore _ ih =>
    refine ih.suffixOp (.inr (.inr rfl)) ?_ (by simp only [Expr.precedence])
      fun body' span hbody => ?_
    · simp only [Expr.text, Expr.textAt]
      rfl
    · simp only [Is, applySuffix, Expr.normal, Expr.unspanned, hbody.symm]
  | andPredicate _ ih =>
    refine ih.predicateOp (.inl rfl) ?_ (by simp only [Expr.precedence]) fun body' span hbody => ?_
    · simp only [Expr.text, Expr.textAt]
      rfl
    · simp only [Is, applyPredicate, Expr.normal, Expr.unspanned, hbody.symm]
  | notPredicate _ ih =>
    refine ih.predicateOp (.inr (.inl rfl)) ?_ (by simp only [Expr.precedence])
      fun body' span hbody => ?_
    · simp only [Expr.text, Expr.textAt]
      rfl
    · simp only [Is, applyPredicate, Expr.normal, Expr.unspanned, hbody.symm]
  | lexical _ ih =>
    refine ih.predicateOp (.inr (.inr rfl)) ?_ (by simp only [Expr.precedence])
      fun body' span hbody => ?_
    · simp only [Expr.text, Expr.textAt]
      rfl
    · simp only [Is, applyPredicate, Expr.normal, Expr.unspanned, hbody.symm]
  | labeled hlabel _ ih => exact ih.labeled hlabel
  | sequence hne _ ih => exact readable_sequence hne ih
  | choice hne _ ih => exact readable_choice hne ih

lemma skip_text {n : Expr} (hn : n.WellFormed) (rest : List Char) :
    skip (n.text.toList ++ rest) = n.text.toList ++ rest :=
  (readable_of_wellFormed hn n.text.length (Nat.le_refl _)).skip_append rest

lemma expression_eq (offset : Nat) (source : List Char) : expression ⟨offset, source⟩ =
    atLevel (expressionTo source.length) .choice ⟨offset, source⟩ := rfl

/-- The text of an expression is long enough for its parentheses. -/
lemma takes_expression {n : Expr} (hn : n.WellFormed) {rest : List Char}
    (hrest : Follows .choice rest) : ∃ rest',
      Takes expression (Is n.normal) (n.text.toList ++ rest) rest' ∧ skip rest' = skip rest := by
  have hdepth : n.text.length ≤ (n.text.toList ++ rest).length := by
    rw [List.length_append, String.length_toList]
    omega
  have hlegible := readable_of_wellFormed hn _ hdepth
  obtain ⟨rest', htakes, hskip⟩ := hlegible.reads .choice (Nat.zero_le _) rest hrest
  refine ⟨rest', fun offset => ?_, hskip⟩
  rw [expression_eq]
  exact htakes offset

lemma takes_endOfText : Takes endOfText (fun _ => True) [] [] :=
  (takes_require fun _ => rfl).named _

lemma takes_wholeExpression {n : Expr} (hn : n.WellFormed) :
    Takes wholeExpression (Is n.normal) n.text.toList [] := by
  obtain ⟨rest', htakes, hskip⟩ := takes_expression hn follows_nil
  have hfixed := skip_text hn []
  rw [List.append_nil] at htakes hfixed
  have hblanks := takes_blanks_of_skip (hskip.trans skip_nil)
  exact ((takes_blanks_of_skip hfixed).bind fun _ _ => htakes.bind fun e he =>
    hblanks.bind fun _ _ => takes_endOfText.bind fun _ _ => takes_pure he).named _

end Source.Reader

namespace Expr

lemma WellFormed.exists_read {n : Expr} (hn : n.WellFormed) :
    ∃ m, Expr.read n.text = .ok m ∧ m.unspanned = n.normal.unspanned := by
  obtain ⟨m, offset, hresult, hm⟩ := Source.Reader.takes_wholeExpression hn 0
  refine ⟨m, ?_, hm⟩
  rw [Expr.read, Source.Reader.readText, Source.Cursor.ofString]
  simp only [hresult]

lemma IsNormal.exists_read {e : Expr} (he : e.IsNormal) :
    ∃ e', Expr.read e.text = .ok e' ∧ e'.unspanned = e.unspanned ∧ e'.text = e.text ∧
      e'.isSyntactic = e.isSyntactic := by
  obtain ⟨e', hread, heq⟩ := he.wellFormed.exists_read
  rw [he.normal_eq] at heq
  refine ⟨e', hread, heq, ?_, ?_⟩
  · rw [← text_unspanned e', heq, text_unspanned]
  · rw [← isSyntactic_unspanned e', heq, isSyntactic_unspanned]

/-- The text of an expression in normal form says all but its spans. -/
lemma IsNormal.unspanned_eq {e e' : Expr} (he : e.IsNormal) (he' : e'.IsNormal)
    (htext : e.text = e'.text) : e.unspanned = e'.unspanned := by
  obtain ⟨m, hread, hm⟩ := he.wellFormed.exists_read
  obtain ⟨m', hread', hm'⟩ := he'.wellFormed.exists_read
  rw [htext, hread'] at hread
  obtain rfl : m' = m := Except.ok.inj hread
  rw [he.normal_eq] at hm
  rw [he'.normal_eq] at hm'
  exact hm.symm.trans hm'

/-- Writing and then reading an expression is the identity up to normal form: the text of every
well-formed expression is read as its normal form, and every expression that is read is in normal
form, so that its text is read as the same expression. -/
theorem read_text :
    (∀ n : Expr, n.WellFormed →
      ∃ m, Expr.read n.text = .ok m ∧ m.unspanned = n.normal.unspanned) ∧
    ∀ (source : String) (e : Expr), Expr.read source = .ok e →
      (e.WellFormed ∧ e.normal = e) ∧ ∃ e', Expr.read e.text = .ok e' ∧
        e'.unspanned = e.unspanned ∧ e'.text = e.text ∧ e'.isSyntactic = e.isSyntactic := by
  refine ⟨fun n hn => hn.exists_read, fun source e hread => ?_⟩
  have hnormal := isNormal_of_read hread
  exact ⟨⟨hnormal.wellFormed, hnormal.normal_eq⟩, hnormal.exists_read⟩

/-- `[a-z] ([\-\]] / '\'')*`, with the range outside a class and in a group of its own. -/
def quoting : Expr :=
  sequence [choice [range 'a' 'z' {}] {},
    zeroOrMore (choice [charClass [literal "-" {}, literal "]" {}] {}, literal "'" {}] {}) {}] {}

lemma wellFormed_quoting : quoting.WellFormed := by
  have hclass : (charClass [literal "-" {}, literal "]" {}] {}).WellFormed := by
    refine .charClass (List.forall_mem_cons.mpr ⟨rfl, List.forall_mem_cons.mpr ⟨rfl, ?_⟩⟩)
    exact List.forall_mem_nil _
  have hchoice : (choice [charClass [literal "-" {}, literal "]" {}] {}, literal "'" {}]
      {}).WellFormed := by
    refine .choice (by simp) (List.forall_mem_cons.mpr ⟨hclass, List.forall_mem_cons.mpr ⟨.literal, ?_⟩⟩)
    exact List.forall_mem_nil _
  have hrange : (choice [range 'a' 'z' {}] {}).WellFormed :=
    .choice (by simp) (List.forall_mem_cons.mpr ⟨.range, List.forall_mem_nil _⟩)
  exact .sequence (by simp) (List.forall_mem_cons.mpr
    ⟨hrange, List.forall_mem_cons.mpr ⟨.zeroOrMore hchoice, List.forall_mem_nil _⟩⟩)

theorem read_text_quoting :
    quoting.WellFormed ∧ (∃ m, Expr.read quoting.text = .ok m ∧
      m.unspanned = quoting.normal.unspanned) ∧
    Expr.read "a // b" = .ok (identifier "a" ⟨0, 1⟩) ∧ (identifier "a" ⟨0, 1⟩).WellFormed := by
  have hread : Expr.read "a // b" = .ok (identifier "a" ⟨0, 1⟩) := by rfl
  exact ⟨wellFormed_quoting, read_text.1 quoting wellFormed_quoting, hread,
    (read_text.2 "a // b" _ hread).1.1⟩

end Expr

end LabeledPeg
