import LabeledPeg.Proofs.Grammar.Equality
import LabeledPeg.Proofs.Source.Enclosed

/-!
# Blanks and comments mean nothing

A grammar text is read by its tokens: texts with the same tokens are both refused or read as the same
tree up to spans. So blanks and comments can be put between any two pieces of a text.
-/

namespace LabeledPeg

open Source

/-- Whether an import is another one up to its span. -/
def Import.Is (i i' : Import) : Prop := i'.path = i.path ∧ i'.names = i.names

/-- Whether a definition is another one up to spans. -/
def Rule.Is (d d' : Definition) : Prop := d'.name = d.name ∧ d'.body.unspanned = d.body.unspanned

namespace Source.Reader

open Cursor

variable {α : Type} {rel : α → α → Prop} {item item' : Reader α} {nested nested' : Reader Expr}
  {all : List (List Char)} {n : Nat} {cursor cursor' : Cursor}

/-! ## Expressions -/

lemma Alike.named {r r' : Reader α} (h : Alike all n rel r r') (term : Term) :
    Alike all n rel (named term r) (named term r') := fun cursor cursor' hpoised =>
  (h cursor cursor' hpoised).named term

lemma Alike.orElse {r r' other other' : Reader α} (h : Alike all n rel r r')
    (hother : Alike all n rel other other') : Alike all n rel (orElse r other) (orElse r' other') :=
  fun cursor cursor' hpoised => (h cursor cursor' hpoised).orElse (hother cursor cursor' hpoised)

lemma alike_behind_symbol {r r' : Reader α} {c : Char} (hc : isSymbol c = true)
    (h : ∀ m < n, Alike all m rel r r') :
    Alike all n rel
      (do
        token [c]
        blanks
        r)
      (do
        token [c]
        blanks
        r') := by
  refine fun cursor cursor' hpoised =>
    (alike_symbol hc cursor cursor' hpoised).bind fun _ _ _ _ hsymbol => ?_
  obtain ⟨-, m, hm, hbeside⟩ := hsymbol
  refine (agree_blanks hbeside).bind fun _ _ _ _ hpoised => ?_
  exact (h m hm _ _ hpoised).mono fun _ _ _ _ hread => ⟨hread.1, hread.2.mono (Nat.le_of_lt hm)⟩

/-- Items that each take some token are taken in lockstep, since a text is at least as long as its
tokens are many. -/
lemma agree_items (hitem : ∀ m ≤ n, Alike all m rel item item') (h : Poised all n cursor cursor') :
    Agree (many blanks item) (many blanks item') cursor cursor' fun values values' next next' =>
      List.Forall₂ rel values values' ∧ Beside all n next next' := by
  have hlimit := length_tokens_le cursor.rest
  have hlimit' := length_tokens_le cursor'.rest
  rw [← h.tokens_eq] at hlimit'
  refine (agree_many (fun _ _ _ hbeside => agree_blanks hbeside)
    (fun m hm cursor cursor' hpoised => hitem m (Nat.le_trans hm h.length_le) cursor cursor' hpoised)
    hlimit hlimit' h.exact.toBeside h.exact).mono fun values values' next next' hread => ?_
  obtain ⟨hvalues, k, hk, hbeside⟩ := hread
  exact ⟨hvalues, hbeside.mono (Nat.le_trans hk h.length_le)⟩

lemma startsWith_eq_isSome (text : List Char) (cursor : Cursor) :
    cursor.startsWith text = (token text cursor).result.isSome := Option.isSome_map.symm

lemma agree_noArrow (h : Poised all n cursor cursor') :
    Agree (require fun cursor => !cursor.startsWith ['<', '-'])
      (require fun cursor => !cursor.startsWith ['<', '-']) cursor cursor'
      fun _ _ => Poised all n := by
  rcases (alike_arrow cursor cursor' h).cases with ⟨hnone, hnone'⟩ | ⟨_, _, _, _, hsome, hsome', -⟩
  · have hread : ∀ cursor, (token ['<', '-'] cursor).result = none →
        (require (fun cursor => !cursor.startsWith ['<', '-']) cursor).result = some ((), cursor) :=
      fun cursor hnone => by simp [require, startsWith_eq_isSome, hnone]
    exact agree_of_some (hread cursor hnone) (hread cursor' hnone') h
  · refine agree_of_none ?_ ?_
    · simp [require, startsWith_eq_isSome, hsome]
    · simp [require, startsWith_eq_isSome, hsome']

lemma alike_reference : Alike all n Is reference reference := by
  refine fun cursor cursor' hpoised =>
    (alike_identifier cursor cursor' hpoised).spanned.bind fun name name' _ _ hname => ?_
  obtain ⟨hname, m, hm, hbeside⟩ := hname
  refine (agree_blanks hbeside).bind fun _ _ _ _ hpoised => ?_
  refine (agree_noArrow hpoised).bind fun _ _ _ _ hpoised => agree_pure ⟨?_, m, hm, hpoised.toBeside⟩
  simp only [Is, Expr.unspanned, hname]

lemma alike_group (hnested : ∀ m < n, Alike all m Is nested nested') :
    Alike all n Is (group nested) (group nested') := by
  refine alike_behind_symbol (by decide) fun m hm cursor cursor' hpoised => ?_
  refine (hnested m hm _ _ hpoised).bind fun e e' _ _ he => ?_
  refine (agree_blanks he.2.beside).bind fun _ _ _ _ hpoised => ?_
  refine (alike_symbol (by decide) _ _ hpoised).bind fun _ _ _ _ hclose => ?_
  exact agree_pure ⟨he.1, hclose.2⟩

lemma oneToken_any : OneToken Is any :=
  ((oneToken_symbol (by decide)).spanned fun _ _ _ => by simp only [Is, Expr.unspanned]).named _

lemma alike_any : Alike all n Is any any := alike_of_token oneToken_any

lemma alike_primary (hnested : ∀ m < n, Alike all m Is nested nested') :
    Alike all n Is (primary nested) (primary nested') :=
  (alike_reference.orElse ((alike_group hnested).orElse
    (alike_literal.orElse (alike_charClass.orElse alike_any)))).named _

lemma is_applySuffix {op? : Option Char} {body body' : Expr} {span span' : Span} (h : Is body body') :
    Is (applySuffix op? body span) (applySuffix op? body' span') := by
  unfold applySuffix
  split <;> simp only [Is, Expr.unspanned, (h : _ = _)]

lemma is_applyLabel {label? : Option String} {body body' : Expr} {span span' : Span}
    (h : Is body body') : Is (applyLabel label? body span) (applyLabel label? body' span') := by
  unfold applyLabel
  split
  · simp only [Is, Expr.unspanned, (h : _ = _)]
  · exact h

lemma is_applyPredicate {op? : Option Char} {body body' : Expr} {span span' : Span}
    (h : Is body body') : Is (applyPredicate op? body span) (applyPredicate op? body' span') := by
  unfold applyPredicate
  split <;> simp only [Is, Expr.unspanned, (h : _ = _)]

lemma oneToken_suffixOp : OneToken Eq suffixOp := by
  refine (oneToken_oneOf fun c hc => ?_).named _
  simp only [Bool.or_eq_true, beq_iff_eq] at hc
  rcases hc with (rfl | rfl) | rfl <;> decide

lemma alike_suffixOp : Alike all n Eq suffixOp suffixOp := alike_of_token oneToken_suffixOp

lemma oneToken_predicateOp : OneToken Eq predicateOp := by
  refine (oneToken_oneOf fun c hc => ?_).named _
  simp only [Bool.or_eq_true, beq_iff_eq] at hc
  rcases hc with (rfl | rfl) | rfl <;> decide

lemma alike_predicateOp : Alike all n Eq predicateOp predicateOp :=
  alike_of_token oneToken_predicateOp

lemma alike_label : Alike all n Eq label label :=
  alike_behind_symbol (by decide) fun _ _ => alike_identifier

lemma Alike.optional {r : Reader α} (h : Alike all n Eq r r) (hpoised : Poised all n cursor cursor') :
    Agree (optional r) (optional r) cursor cursor' fun value? value?' next next' =>
      value? = value?' ∧ Beside all n next next' :=
  ((h cursor cursor' hpoised).mono fun _ _ _ _ hread => ⟨hread.1, hread.2.beside⟩).optional
    hpoised.toBeside

/-- An operand with an operator behind it, if one follows. -/
lemma alike_postfixed {inner inner' : Reader Expr} {op : Reader α}
    (hinner : Alike all n Is inner inner') (hop : ∀ {m}, Alike all m Eq op op) :
    Alike all n (fun read read' => Is read.1 read'.1 ∧ read.2 = read'.2)
      (do
        let body ← inner
        blanks
        let op? ← Reader.optional op
        return (body, op?))
      (do
        let body ← inner'
        blanks
        let op? ← Reader.optional op
        return (body, op?)) := by
  refine fun cursor cursor' hpoised =>
    (hinner cursor cursor' hpoised).bind fun body body' _ _ hbody => ?_
  obtain ⟨hbody, m, hm, hbeside⟩ := hbody
  refine (agree_blanks hbeside).bind fun _ _ _ _ hpoised => ?_
  refine (hop.optional hpoised).bind fun op? op?' _ _ hread => ?_
  exact agree_pure ⟨⟨hbody, hread.1⟩, m, hm, hread.2⟩

lemma alike_suffixed (hnested : ∀ m < n, Alike all m Is nested nested') :
    Alike all n Is (suffixed nested) (suffixed nested') := by
  refine Alike.named (fun cursor cursor' hpoised => ?_) _
  refine (alike_postfixed (alike_primary hnested) alike_suffixOp cursor cursor'
    hpoised).spanned.bind fun read read' _ _ hread => ?_
  obtain ⟨⟨hbody, hop⟩, hpast⟩ := hread
  exact agree_pure ⟨by rw [hop]; exact is_applySuffix hbody, hpast⟩

lemma alike_labeled (hnested : ∀ m < n, Alike all m Is nested nested') :
    Alike all n Is (labeled nested) (labeled nested') := by
  refine Alike.named (fun cursor cursor' hpoised => ?_) _
  refine (alike_postfixed (alike_suffixed hnested) alike_label cursor cursor'
    hpoised).spanned.bind fun read read' _ _ hread => ?_
  obtain ⟨⟨hbody, hlabel⟩, hpast⟩ := hread
  exact agree_pure ⟨by rw [hlabel]; exact is_applyLabel hbody, hpast⟩

lemma alike_predicate (hnested : ∀ m < n, Alike all m Is nested nested') :
    Alike all n Is (predicate nested) (predicate nested') := by
  refine Alike.named (fun cursor cursor' hpoised => ?_) _
  refine Agree.bind (Agree.spanned (q := fun read read' next next' =>
    (read.1 = read'.1 ∧ Is read.2 read'.2) ∧ Past all n next next') ?_)
    fun read read' _ _ hread => ?_
  · refine (alike_predicateOp.optional hpoised).bind fun op? op?' _ _ hop => ?_
    refine (agree_blanks hop.2).bind fun _ _ _ _ hpoised => ?_
    refine (alike_labeled hnested _ _ hpoised).bind fun body body' _ _ hbody => ?_
    exact agree_pure ⟨⟨hop.1, hbody.1⟩, hbody.2⟩
  · obtain ⟨⟨hop, hbody⟩, hpast⟩ := hread
    exact agree_pure ⟨by rw [hop]; exact is_applyPredicate hbody, hpast⟩

lemma is_collapse {group : List Expr → Span → Expr} {items items' : List Expr} {span span' : Span}
    (h : List.Forall₂ Is items items') (hgroup : Is (group items span) (group items' span')) :
    Is (collapse group items span) (collapse group items' span') := by
  cases h with
  | nil => exact hgroup
  | cons hfirst hrest =>
    cases hrest with
    | nil => exact hfirst
    | cons => exact hgroup

/-- A group of items, or the only one of them. -/
lemma alike_collapsed {head head' item item' : Reader Expr} {group : List Expr → Span → Expr}
    (hhead : Alike all n Is head head') (hitem : ∀ m < n, Alike all m Is item item')
    (hgroup : ∀ {items items' span span'}, items'.map Expr.unspanned = items.map Expr.unspanned →
      Is (group items span) (group items' span')) (term : Term) :
    Alike all n Is
      (named term do
        let (items, span) ← spanned do
          let first ← head
          blanks
          return first :: (← many blanks item)
        return collapse group items span)
      (named term do
        let (items, span) ← spanned do
          let first ← head'
          blanks
          return first :: (← many blanks item')
        return collapse group items span) := by
  refine Alike.named (fun cursor cursor' hpoised => ?_) _
  refine Agree.bind (Agree.spanned (q := fun items items' next next' =>
    List.Forall₂ Is items items' ∧ Past all n next next') ?_) fun read read' _ _ hread =>
      agree_pure ⟨is_collapse hread.1 (hgroup (map_unspanned_of_forall₂ hread.1)), hread.2⟩
  refine (hhead _ _ hpoised).bind fun first first' _ _ hfirst => ?_
  obtain ⟨hfirst, m, hm, hbeside⟩ := hfirst
  refine (agree_blanks hbeside).bind fun _ _ _ _ hpoised => ?_
  refine (agree_items (fun k hk => hitem k (Nat.lt_of_le_of_lt hk hm)) hpoised).bind
    fun others others' _ _ hothers => ?_
  exact agree_pure ⟨.cons hfirst hothers.1, m, hm, hothers.2⟩

lemma alike_sequence (hnested : ∀ m < n, Alike all m Is nested nested') :
    Alike all n Is (sequence nested) (sequence nested') :=
  alike_collapsed (alike_predicate hnested)
    (fun m hm => alike_predicate fun k hk => hnested k (Nat.lt_trans hk hm))
    (fun hitems => by simp only [Is, Expr.unspanned, Expr.allUnspanned_eq_map, hitems]) _

lemma alike_alternative (hnested : ∀ m < n, Alike all m Is nested nested') :
    Alike all n Is (alternative nested) (alternative nested') :=
  alike_behind_symbol (by decide) fun _ hm =>
    alike_sequence fun k hk => hnested k (Nat.lt_trans hk hm)

lemma alike_expressionWith (hnested : ∀ m < n, Alike all m Is nested nested') :
    Alike all n Is (expressionWith nested) (expressionWith nested') :=
  alike_collapsed (alike_sequence hnested)
    (fun m hm => alike_alternative fun k hk => hnested k (Nat.lt_trans hk hm))
    (fun hitems => by simp only [Is, Expr.unspanned, Expr.allUnspanned_eq_map, hitems]) _

/-- Each pair of parentheses takes tokens, so that depths beyond their number make no difference. -/
lemma alike_expressionTo {depth depth' : Nat} (h : n < depth) (h' : n < depth') :
    Alike all n Is (expressionTo depth) (expressionTo depth') := by
  induction depth generalizing n depth' with
  | zero => omega
  | succ depth ih =>
    obtain ⟨depth', rfl⟩ : ∃ k, depth' = k + 1 := ⟨depth' - 1, by omega⟩
    exact alike_expressionWith fun m hm => ih (by omega) (by omega)

lemma alike_expression : Alike all n Is expression expression := by
  intro cursor cursor' hpoised
  have hlength := length_tokens_le cursor.rest
  have hlength' := length_tokens_le cursor'.rest
  rw [← hpoised.tokens_eq] at hlength'
  refine Agree.congr ((alike_expressionTo (Nat.lt_succ_of_le hlength) (Nat.lt_succ_of_le hlength')
    cursor cursor' hpoised.exact).mono fun _ _ _ _ hread => ?_) rfl rfl
  exact ⟨hread.1, hread.2.mono hpoised.length_le⟩

/-! ## Grammars -/

lemma alike_furtherName : Alike all n Eq furtherName furtherName :=
  alike_behind_symbol (by decide) fun _ _ => alike_identifier

lemma alike_importNames : Alike all n Eq importNames importNames := by
  refine Alike.named (Alike.orElse (fun cursor cursor' hpoised => ?_)
    fun cursor cursor' hpoised => ?_) _
  · refine (Alike.named (alike_symbol (by decide)) _ _ _ hpoised).bind fun _ _ _ _ hstar => ?_
    exact agree_pure ⟨rfl, hstar.2⟩
  · refine (alike_identifier _ _ hpoised).bind fun first first' _ _ hfirst => ?_
    obtain ⟨hfirst, m, hm, hbeside⟩ := hfirst
    refine (agree_blanks hbeside).bind fun _ _ _ _ hpoised => ?_
    refine (agree_items (fun _ _ => alike_furtherName) hpoised).bind
      fun others others' _ _ hothers => ?_
    have hsame : others = others' := List.forall₂_eq_eq_eq ▸ hothers.1
    exact agree_pure ⟨by rw [hfirst, hsame], m, hm, hothers.2⟩

lemma alike_importClause : Alike all n Import.Is importClause importClause := by
  refine Alike.named (fun cursor cursor' hpoised => ?_) _
  refine Agree.bind (Agree.spanned (q := fun read read' next next' =>
    (read.1 = read'.1 ∧ read.2 = read'.2) ∧ Past all n next next') ?_)
    fun read read' _ _ hread => agree_pure ⟨⟨hread.1.2.symm, hread.1.1.symm⟩, hread.2⟩
  refine (alike_keyword (by decide) _ _ _ hpoised).bind fun _ _ _ _ himport => ?_
  obtain ⟨-, m, hm, hbeside⟩ := himport
  refine (agree_blanks hbeside).bind fun _ _ _ _ hpoised => ?_
  refine (alike_importNames _ _ hpoised).bind fun names names' _ _ hnames => ?_
  refine (agree_blanks hnames.2.beside).bind fun _ _ _ _ hpoised => ?_
  refine (alike_keyword (by decide) _ _ _ hpoised).bind fun _ _ _ _ hfrom => ?_
  refine (agree_blanks hfrom.2.beside).bind fun _ _ _ _ hpoised => ?_
  refine (alike_path _ _ hpoised).bind fun path path' _ _ hpath => ?_
  exact agree_pure ⟨⟨hnames.1, hpath.1⟩, hpath.2.mono (Nat.le_of_lt hm)⟩

lemma alike_definition : Alike all n Rule.Is definition definition := by
  refine Alike.named (fun cursor cursor' hpoised => ?_) _
  refine Agree.bind (Agree.spanned (q := fun read read' next next' =>
    (read.1 = read'.1 ∧ Is read.2 read'.2) ∧ Past all n next next') ?_)
    fun read read' _ _ hread => agree_pure ⟨⟨hread.1.1.symm, hread.1.2⟩, hread.2⟩
  refine (alike_identifier _ _ hpoised).bind fun name name' _ _ hname => ?_
  obtain ⟨hname, m, hm, hbeside⟩ := hname
  refine (agree_blanks hbeside).bind fun _ _ _ _ hpoised => ?_
  refine (alike_arrow _ _ hpoised).bind fun _ _ _ _ harrow => ?_
  refine (agree_blanks harrow.2.beside).bind fun _ _ _ _ hpoised => ?_
  refine (alike_expression _ _ hpoised).bind fun body body' _ _ hbody => ?_
  exact agree_pure ⟨⟨hname, hbody.1⟩, hbody.2.mono (Nat.le_of_lt hm)⟩

/-- The text ends where no token is left. -/
lemma agree_endOfText (h : Poised all n cursor cursor') :
    Agree endOfText endOfText cursor cursor' fun _ _ _ _ => ∀ piece ∈ all, IsClosed piece := by
  refine Agree.named ?_ _
  rcases h.cases with ⟨hrest, hrest'⟩ | ⟨piece, behind, behind', hrest, hrest', hends, -⟩
  · obtain ⟨read, hall, hclosed⟩ := h.read
    obtain rfl : all = read := by simpa [hrest, tokens, pieces] using hall
    have hend : ∀ cursor : Cursor, cursor.rest = [] →
        (require (fun cursor => cursor.rest.isEmpty) cursor).result = some ((), cursor) :=
      fun cursor hrest => by simp [require, hrest]
    exact agree_of_some (hend cursor hrest) (hend cursor' hrest') hclosed
  · have hne := hends.ne_nil
    refine agree_of_none ?_ ?_
    · simp [require, hrest, hne]
    · simp [require, hrest', hne]

lemma beside_ofString {source source' : String}
    (h : tokens source.toList = tokens source'.toList) :
    Beside (tokens source.toList) (tokens source.toList).length (.ofString source)
      (.ofString source') :=
  ⟨h, ⟨[], rfl, List.forall_mem_nil _⟩, Nat.le_refl _⟩

lemma agree_wholeExpression (h : Beside all n cursor cursor') :
    Agree wholeExpression wholeExpression cursor cursor' fun e e' _ _ =>
      Is e e' ∧ ∀ piece ∈ all, IsClosed piece := by
  refine Agree.named ((agree_blanks h).bind fun _ _ _ _ hpoised => ?_) _
  refine (alike_expression _ _ hpoised).bind fun e e' _ _ he => ?_
  refine (agree_blanks he.2.beside).bind fun _ _ _ _ hpoised => ?_
  exact (agree_endOfText hpoised).bind fun _ _ _ _ hclosed => agree_pure ⟨he.1, hclosed⟩

lemma agree_wholeGrammar (h : Beside all n cursor cursor') :
    Agree wholeGrammar wholeGrammar cursor cursor' fun read read' _ _ =>
      (List.Forall₂ Import.Is read.1 read'.1 ∧ List.Forall₂ Rule.Is read.2 read'.2) ∧
        ∀ piece ∈ all, IsClosed piece := by
  refine Agree.named ((agree_blanks h).bind fun _ _ _ _ hpoised => ?_) _
  refine (agree_items (fun _ _ => alike_importClause) hpoised).bind
    fun imports imports' _ _ himports => ?_
  refine (agree_blanks himports.2).bind fun _ _ _ _ hpoised => ?_
  refine (alike_definition _ _ hpoised).bind fun first first' _ _ hfirst => ?_
  refine (agree_blanks hfirst.2.beside).bind fun _ _ _ _ hpoised => ?_
  refine (agree_items (fun _ _ => alike_definition) hpoised).bind
    fun others others' _ _ hothers => ?_
  refine (agree_blanks hothers.2).bind fun _ _ _ _ hpoised => ?_
  exact (agree_endOfText hpoised).bind fun _ _ _ _ hclosed =>
    agree_pure ⟨⟨himports.1, .cons hfirst.1 hothers.1⟩, hclosed⟩

/-- What is read off one text is read off the other one. -/
lemma readText_of_agree {r : Reader α} {q : α → α → Cursor → Cursor → Prop} {source source' : String}
    (h : Agree r r (.ofString source) (.ofString source') q) {value : α}
    (hread : readText r source = .ok value) :
    ∃ value' next next', readText r source' = .ok value' ∧ q value value' next next' := by
  obtain ⟨behind, hresult⟩ := readText_eq_ok hread
  rcases h.cases with ⟨hnone, -⟩ | ⟨_, value', next, next', hsome, hsome', hq⟩
  · rw [hnone] at hresult
    cases hresult
  · rw [hsome] at hresult
    obtain ⟨rfl, -⟩ := Prod.mk.inj (Option.some.inj hresult)
    exact ⟨value', next, next', by simp [readText, hsome'], hq⟩

end Source.Reader

open Source.Reader

variable {source source' : String}

/-- An expression is read by the tokens of its text, each of which has the character that ends it. -/
lemma Expr.read_of_tokens {e : Expr} (h : Expr.read source = .ok e)
    (htokens : tokens source.toList = tokens source'.toList) :
    (∃ e', Expr.read source' = .ok e' ∧ e'.unspanned = e.unspanned) ∧
      ∀ piece ∈ tokens source.toList, IsClosed piece := by
  obtain ⟨e', _, _, hread, he, hclosed⟩ :=
    readText_of_agree (agree_wholeExpression (beside_ofString htokens)) h
  exact ⟨⟨e', hread, he⟩, hclosed⟩

lemma Grammar.unspanned_toExpr_eq {g g' : Grammar}
    (himports : List.Forall₂ Import.Is g.imports g'.imports)
    (hdefinitions : List.Forall₂ Rule.Is g.definitions g'.definitions) :
    g'.toExpr.unspanned = g.toExpr.unspanned := by
  have himports' : g'.imports.map (fun i => (⟨i.path, i.names, {}⟩ : Import)) =
      g.imports.map fun i => ⟨i.path, i.names, {}⟩ :=
    Fit.map_eq (fit_map_iff.mpr (himports.imp fun i i' h => by rw [h.1, h.2]))
  have hdefinitions' : g'.definitions.map (fun d => (⟨d.name, d.body.unspanned, {}⟩ : Definition)) =
      g.definitions.map fun d => ⟨d.name, d.body.unspanned, {}⟩ :=
    Fit.map_eq (fit_map_iff.mpr (hdefinitions.imp fun d d' h => by rw [h.1, h.2]))
  simp only [Grammar.toExpr, Expr.unspanned, Expr.definitionsUnspanned_eq_map, himports',
    hdefinitions']

/-- A grammar is read by the tokens of its text, each of which has the character that ends it. -/
lemma Grammar.read_of_tokens {g : Grammar} (h : Grammar.read source = .ok g)
    (htokens : tokens source.toList = tokens source'.toList) :
    (∃ g', Grammar.read source' = .ok g' ∧ g'.toExpr.unspanned = g.toExpr.unspanned) ∧
      ∀ piece ∈ tokens source.toList, IsClosed piece := by
  obtain ⟨read, hread, hbuild⟩ := Grammar.read_eq_ok h
  obtain ⟨himports, hdefinitions, -⟩ := Grammar.build_eq_ok hbuild
  obtain ⟨read', _, _, hread', ⟨himports', hdefinitions'⟩, hclosed⟩ :=
    readText_of_agree (agree_wholeGrammar (beside_ofString htokens)) hread
  refine ⟨?_, hclosed⟩
  rw [← himports] at himports'
  rw [← hdefinitions] at hdefinitions'
  have hnames : read'.2.map Rule.name = g.definitions.map Rule.name :=
    Fit.map_eq (fit_map_iff.mpr (hdefinitions'.imp fun d d' h => h.1))
  obtain ⟨g', hbuild', hsame, hsame'⟩ :=
    exists_build read'.1 ⟨0, source'.utf8ByteSize⟩ (hnames ▸ g.distinct)
  refine ⟨g', ?_, Grammar.unspanned_toExpr_eq (hsame ▸ himports') (hsame' ▸ hdefinitions')⟩
  rw [Grammar.read, hread']
  exact hbuild'

/-- Blanks and comments mean nothing between the pieces of a text. If some are put there, but no
comment right behind a slash, the text is read as the same tree up to spans. -/
theorem read_insert {before after : List (List Char)} {blanks : List Char}
    (hpieces : pieces source.toList = before ++ after) (hblanks : IsBlankText blanks)
    (hslash : before.getLast? = some ['/'] → blanks.head? ≠ some '/') :
    (∀ e, Expr.read source = .ok e →
      ∃ e', Expr.read (String.ofList (before.flatten ++ (blanks ++ after.flatten))) = .ok e' ∧
        e'.unspanned = e.unspanned) ∧
    ∀ g, Grammar.read source = .ok g →
      ∃ g', Grammar.read (String.ofList (before.flatten ++ (blanks ++ after.flatten))) = .ok g' ∧
        g'.toExpr.unspanned = g.toExpr.unspanned := by
  have htokens : (∀ piece ∈ tokens source.toList, IsClosed piece) → tokens source.toList =
      tokens (String.ofList (before.flatten ++ (blanks ++ after.flatten))).toList := by
    intro hclosed
    rw [String.toList_ofList]
    refine (tokens_insert hpieces (fun piece hpiece => ?_) hblanks hslash).symm
    cases hgap : isGap piece with
    | true => exact isClosed_of_isGap hgap
    | false =>
      refine hclosed piece (List.mem_filter.mpr ⟨?_, by simp [hgap]⟩)
      rw [hpieces]
      exact List.mem_append_left _ hpiece
  refine ⟨fun e he => ?_, fun g hg => ?_⟩
  · exact (Expr.read_of_tokens he (htokens (Expr.read_of_tokens he rfl).2)).1
  · exact (Grammar.read_of_tokens hg (htokens (Grammar.read_of_tokens hg rfl).2)).1

/-- `A <- B // b` and `B <- .`, a line each. -/
def commented : Grammar :=
  ⟨[], [⟨"A", .identifier "B" ⟨5, 6⟩, ⟨0, 12⟩⟩, ⟨"B", .any ⟨17, 18⟩, ⟨12, 18⟩⟩], ⟨0, 18⟩, by decide⟩

/-- A text that is read as `commented`. -/
def commentedText : {text : String // Grammar.read text = .ok commented} :=
  ⟨"A <- B // b\nB <- .", by decide +kernel⟩

/-- Behind a slash, with a blank before the comment, and behind a comment, which takes up what is put
there up to the end of the line. -/
theorem read_insert_comments :
    (pieces "B/'b'".toList = [['B'], ['/']] ++ [['\'', 'b', '\'']] ∧ IsBlankText " //d\n".toList ∧
      ∃ e', Expr.read "B/ //d\n'b'" = .ok e' ∧ e'.unspanned =
        (Expr.choice [.identifier "B" ⟨0, 1⟩, .literal "b" ⟨2, 5⟩] ⟨0, 5⟩).unspanned) ∧
    ∃ g', Grammar.read "A <- B // b//d\n\nB <- ." = .ok g' ∧
      g'.toExpr.unspanned = commented.toExpr.unspanned := by
  have hexpr : Expr.read "B/'b'" =
      .ok (.choice [.identifier "B" ⟨0, 1⟩, .literal "b" ⟨2, 5⟩] ⟨0, 5⟩) := by decide +kernel
  have hslash : pieces "B/'b'".toList = [['B'], ['/']] ++ [['\'', 'b', '\'']] := by decide +kernel
  have hcomment : pieces "A <- B // b\nB <- .".toList =
      [['A'], [' '], ['<', '-'], [' '], ['B'], [' '], ['/', '/', ' ', 'b']] ++
        [['\n'], ['B'], [' '], ['<', '-'], [' '], ['.']] := by decide +kernel
  have hline : IsBlankText "//d\n".toList :=
    .comment (List.forall_mem_singleton.mpr (by decide : isLineEnd 'd' = false)) (by decide) .nil
  have hblank : IsBlankText " //d\n".toList := .blank (by decide) hline
  have hread := (read_insert hslash hblank (by decide)).1 _ hexpr
  have hread' := (read_insert hcomment hline (by decide)).2 _ commentedText.2
  exact ⟨⟨hslash, hblank, hread⟩, hread'⟩

end LabeledPeg
