import LabeledPeg.Proofs.Grammar.Nodes
import LabeledPeg.Proofs.Source.Concatenation
import LabeledPeg.Proofs.Source.Truncation

/-!
# Nodes read alone

A node takes its span from where the reader of its own level stood: behind a token, behind the
blanks that an absent operator left, or inside parentheses. In each case this reader takes the text
of the span alone for the same node, and what it takes up to the end of a text the weaker levels take
too. So the text of every span is read as its node.
-/

namespace LabeledPeg

open Text Source

/-- The text that a span covers, if it is one of whole characters. -/
def Span.excerpt? (source : String) (span : Span) : Option String :=
  String.fromUTF8? (source.toUTF8.extract span.start span.stop)

namespace Expr

/-- The expressions right below a node: the members of a class are none. -/
def operands : Expr → List Expr
  | charClass _ _ => []
  | e => e.children

/-- Whether a node is the expression itself or one of the expressions anywhere below it. -/
inductive Part (node : Expr) : Expr → Prop
  | self : Part node node
  | deeper {e operand : Expr} (hoperand : operand ∈ e.operands) (h : Part node operand) :
    Part node e

/-- Whether the text of a node is read as this node, with spans that count from where it starts. -/
def ReadAlone (source : String) (node : Expr) : Prop :=
  ∃ text m, node.span.excerpt? source = some text ∧ Expr.read text = .ok m ∧
    m.shift node.span.start = node

/-- Whether all parts of an expression are read alone. -/
def ReadApart (source : String) (e : Expr) : Prop :=
  ∀ node : Expr, node.Part e → node.ReadAlone source

lemma ReadApart.of_operands {source : String} {e : Expr} (h : e.ReadAlone source)
    (hoperands : ∀ operand ∈ e.operands, operand.ReadApart source) : e.ReadApart source := by
  intro node hnode
  cases hnode with
  | self => exact h
  | deeper hoperand hpart => exact hoperands _ hoperand node hpart

end Expr

/-- Whether the text of a definition is read as a grammar of this definition only, with spans that
count from where it starts. -/
def Rule.ReadAlone (source : String) (d : Definition) : Prop :=
  ∃ text g, d.span.excerpt? source = some text ∧ Grammar.read text = .ok g ∧ g.imports = [] ∧
    g.definitions.map (Rule.shift d.span.start) = [d]

namespace Source.Reader

open Cursor

variable {α β : Type} {r : Reader α} {op : Reader β} {source text : String}
  {cursor middle behind : Cursor} {value : α}

/-! ## The text of a span -/

/-- The bytes between two places of a text are those of the text between them. -/
lemma excerpt?_of_leads {taken : String} (hplace : IsPlace source cursor)
    (hrest : cursor.rest = taken.toList ++ behind.rest)
    (hoffset : behind.offset = cursor.offset + taken.utf8ByteSize) :
    Span.excerpt? source ⟨cursor.offset, behind.offset⟩ = some taken := by
  obtain ⟨before, hsource, hbefore⟩ := hplace
  have hwhole : source = before ++ (taken ++ String.ofList behind.rest) := by
    apply String.toList_injective
    simpa [Cursor.ofString, hrest] using hsource
  have hstart : cursor.offset = before.toByteArray.size + 0 := by
    simpa [Cursor.ofString] using hbefore
  have hstop : behind.offset = before.toByteArray.size + taken.toByteArray.size := by
    rw [hoffset, hstart, String.size_toByteArray, String.size_toByteArray, Nat.add_zero]
  have hbytes : source.toUTF8.extract cursor.offset behind.offset = taken.toByteArray := by
    rw [hstart, hstop, hwhole, String.toUTF8, String.toByteArray_append, String.toByteArray_append,
      ByteArray.extract_append_size_add, ByteArray.extract_append_eq_left rfl]
  rw [Span.excerpt?, hbytes, String.fromUTF8?, dif_pos taken.isValidUTF8]
  rfl

/-- What a reader takes somewhere in a text, it takes alone of the text of the span. -/
lemma exists_excerpt {f : Nat → α → α} {r' : Nat → Reader α} {p : Char → Prop}
    (hmoves : ∀ k, Moves k (f k) r r) (hcuts : ∀ n, Cuts n p r (r' n))
    (hplace : IsPlace source cursor) (hbare : skip cursor.rest = cursor.rest)
    (h : (r cursor).result = some (value, behind)) :
    ∃ text value' stop, Span.excerpt? source ⟨cursor.offset, behind.offset⟩ = some text ∧
      skip text.toList = text.toList ∧ stop + cursor.offset = behind.offset ∧
      (r' text.toList.length (.ofString text)).result = some (value', ⟨stop, []⟩) ∧
      f cursor.offset value' = value := by
  obtain ⟨text, hrest, hoffset⟩ := (hcuts 0).advances _ _ _ h
  have hcursor : cursor = ((Cursor.ofString text).append behind.rest).shift cursor.offset := by
    obtain ⟨offset, rest⟩ := cursor
    exact congrArg₂ Cursor.mk (Nat.zero_add offset).symm hrest
  rw [hcursor, hmoves] at h
  obtain ⟨⟨value', ⟨stop, left⟩⟩, hresult, heq⟩ := Option.map_eq_some_iff.mp h
  obtain ⟨hvalue, rfl⟩ := Prod.mk.inj heq
  rw [hrest] at hbare
  refine ⟨text, value', stop, excerpt?_of_leads hplace hrest hoffset, skip_of_append hbare, rfl, ?_,
    hvalue⟩
  have hleft : (⟨stop, left⟩ : Cursor) = Cursor.append ⟨stop, []⟩ left := rfl
  rw [hleft] at hresult
  exact (hcuts _).cut (Nat.le_refl _) hbare hresult (skip_nil ▸ opens_nil)

/-! ## Up to the end of a text -/

/-- A node is made of a value and of the span from where its reader starts to where it stops. -/
lemma result_node_eq_some {make : α × Span → β} {term : Term} {node : β} :
    (named term (spanned r >>= fun read => pure (make read)) cursor).result = some (node, behind) ↔
      ∃ value, (r cursor).result = some (value, behind) ∧
        node = make (value, ⟨cursor.offset, behind.offset⟩) := by
  rw [result_named, result_bind_eq_some]
  constructor
  · rintro ⟨read, middle, hread, hpure⟩
    obtain ⟨rfl, rfl⟩ := Prod.mk.inj (Option.some.inj hpure)
    obtain ⟨⟨value, behind⟩, hvalue, heq⟩ := Option.map_eq_some_iff.mp hread
    obtain ⟨rfl, rfl⟩ := Prod.mk.inj heq
    exact ⟨value, hvalue, rfl⟩
  · rintro ⟨value, hvalue, rfl⟩
    exact ⟨_, behind, Option.map_eq_some_iff.mpr ⟨_, hvalue, rfl⟩, rfl⟩

lemma result_optional_of_refuses (h : Refuses op cursor.rest) :
    (optional op cursor).result = some (none, cursor) :=
  result_orElse_eq_some.mpr (.inr ⟨h.bind cursor.offset, rfl⟩)

lemma skipBlanks_of_nil (hend : behind.rest = []) : behind.skipBlanks = behind :=
  skipBlanks_of_skip_eq (hend ▸ skip_nil)

/-- Behind the end of a text there is no operator. -/
lemma result_unoperated (h : (r cursor).result = some (value, behind)) (hend : behind.rest = [])
    (hop : Refuses op []) : ((r >>= fun body => blanks >>= fun _ => optional op >>= fun op? =>
      pure (body, op?)) cursor).result = some ((value, none), behind) := by
  refine result_spaced_eq_some.mpr ⟨value, behind, h, ?_⟩
  rw [skipBlanks_of_nil hend]
  rw [← hend] at hop
  exact result_bind_eq_some.mpr ⟨none, behind, result_optional_of_refuses hop, rfl⟩

/-- Behind the end of a text there is no further item, and the only item of a group is the group. -/
lemma result_only {head item : Reader Expr} {group : List Expr → Span → Expr} {term : Term}
    {e : Expr} (h : (head cursor).result = some (e, behind)) (hend : behind.rest = [])
    (hitem : Refuses item []) :
    (Reader.named term (do
        let (items, span) ← spanned do
          let first ← head
          blanks
          return first :: (← many blanks item)
        return collapse group items span) cursor).result = some (e, behind) := by
  refine result_node_eq_some.mpr ⟨[e], result_spaced_eq_some.mpr ⟨e, behind, h, ?_⟩, rfl⟩
  rw [skipBlanks_of_nil hend]
  have hstop : Refuses item (skip behind.rest) := by rwa [hend, skip_nil]
  have hnone : (many blanks item behind).result = some ([], behind) :=
    (Repeats.nil _).many (hend ▸ skip_nil) (Nat.zero_le _) hstop
  exact result_bind_eq_some.mpr ⟨[], behind, hnone, rfl⟩

section AtEnd

variable {nested : Reader Expr} {e : Expr}

lemma refuses_labeled {source : List Char}
    (h : ∀ c ∈ source.head?, ¬ Precedence.labeled.begins c = true) :
    Refuses (labeled nested) source := by
  have hnone : ∀ c ∈ source.head?, isAsciiStart c = false ∧ c ∉ ['(', '\'', '"', '[', '.'] :=
    fun c hc => by simpa [Precedence.begins, Precedence.rank, not_or] using h c hc
  have hprimary : Refuses (primary nested) source :=
    refuses_primary (refuses_reference fun c hc => (hnone c hc).1) fun c hc => (hnone c hc).2
  have hsuffixed : Refuses (suffixed nested) source := hprimary.bind.node _
  exact hsuffixed.bind.node _

/-- No operator stands before an expression at the level of labels. -/
lemma result_predicate (hbare : skip cursor.rest = cursor.rest)
    (h : (labeled nested cursor).result = some (e, behind)) :
    (predicate nested cursor).result = some (e, behind) := by
  obtain ⟨c, hc, hbegins⟩ := exists_head_of_refuses (fun _ => refuses_labeled) h
  have hop : Refuses predicateOp cursor.rest := refuses_predicateOp fun d hd => by
    obtain rfl : c = d := Option.some.inj (hc.symm.trans hd)
    exact ⟨Precedence.ne_of_begins hbegins (by decide), Precedence.ne_of_begins hbegins (by decide),
      Precedence.ne_of_begins hbegins (by decide)⟩
  refine result_node_eq_some.mpr ⟨(none, e), result_spaced_eq_some.mpr
    ⟨none, cursor, result_optional_of_refuses hop, ?_⟩, rfl⟩
  rw [skipBlanks_of_skip_eq hbare]
  exact result_bind_eq_some.mpr ⟨e, behind, h, rfl⟩

/-- What any level takes up to the end of a text, the weakest one takes. -/
lemma result_expressionWith (level : Precedence) (hbare : skip cursor.rest = cursor.rest)
    (h : (atLevel nested level cursor).result = some (e, behind)) (hend : behind.rest = []) :
    (expressionWith nested cursor).result = some (e, behind) := by
  have hstop : ∀ level : Precedence, level.Stops [] := fun _ => .inl (by simp)
  have hsequence : (sequence nested cursor).result = some (e, behind) →
      (expressionWith nested cursor).result = some (e, behind) := fun h =>
    result_only h hend (refuses_alternative (hstop _))
  have hpredicate : (predicate nested cursor).result = some (e, behind) →
      (sequence nested cursor).result = some (e, behind) := fun h =>
    result_only h hend (refuses_predicate skip_nil (hstop _))
  have hlabel : Refuses label [] := (refuses_token (by simp)).bind
  have hop : Refuses suffixOp [] := (refuses_oneOf (by simp)).named _
  have hlabeled : (suffixed nested cursor).result = some (e, behind) →
      (labeled nested cursor).result = some (e, behind) := fun h =>
    result_node_eq_some.mpr ⟨(e, none), result_unoperated h hend hlabel, rfl⟩
  have hsuffixed : (primary nested cursor).result = some (e, behind) →
      (suffixed nested cursor).result = some (e, behind) := fun h =>
    result_node_eq_some.mpr ⟨(e, none), result_unoperated h hend hop, rfl⟩
  cases level with
  | choice => exact h
  | sequence => exact hsequence h
  | predicate => exact hsequence (hpredicate h)
  | labeled => exact hsequence (hpredicate (result_predicate hbare h))
  | suffix => exact hsequence (hpredicate (result_predicate hbare (hlabeled h)))
  | primary => exact hsequence (hpredicate (result_predicate hbare (hlabeled (hsuffixed h))))

/-- A text that any level takes as a whole is read as what is taken. -/
lemma read_of_atLevel (level : Precedence) (hbare : skip text.toList = text.toList)
    (h : (atLevel (expressionTo text.toList.length) level (.ofString text)).result =
      some (e, behind)) (hend : behind.rest = []) : Expr.read text = .ok e := by
  have hexpression : (expression (.ofString text)).result = some (e, behind) :=
    result_expressionWith level hbare h hend
  have hwhole : (wholeExpression (.ofString text)).result = some (e, behind) := by
    rw [wholeExpression, result_named, result_blanks_bind, skipBlanks_of_skip_eq hbare]
    refine result_spaced_eq_some.mpr ⟨e, behind, hexpression, ?_⟩
    rw [skipBlanks_of_nil hend]
    exact result_bind_eq_some.mpr ⟨(), behind, endOfText_eq_some_iff.mpr ⟨hend, rfl⟩, rfl⟩
  simp only [Expr.read, readText, hwhole]

end AtEnd

/-! ## Nodes that are read alone -/

section Nodes

variable {nested : Reader Expr} {depth : Nat} {e node : Expr}

/-- A node that covers all that the reader of some level takes is read alone. -/
lemma readAlone_of_atLevel (level : Precedence) (hplace : IsPlace source cursor)
    (hbare : skip cursor.rest = cursor.rest)
    (h : (atLevel (expressionTo depth) level cursor).result = some (node, behind))
    (hspan : node.span = ⟨cursor.offset, behind.offset⟩) : node.ReadAlone source := by
  obtain ⟨text, m, stop, htext, hskip, -, hresult, hm⟩ := exists_excerpt
    (fun k => moves_atLevel (k := k) depth level) (fun n => cuts_atLevel level (Nat.le_refl n))
    hplace hbare h
  rw [← hspan] at htext
  refine ⟨text, m, htext, read_of_atLevel level hskip hresult rfl, ?_⟩
  rw [hspan]
  exact hm

/-- A name is read alone, since no arrow is behind it there. -/
lemma readAlone_of_identifier {name : String} (hplace : IsPlace source cursor)
    (hbare : skip cursor.rest = cursor.rest)
    (h : (identifier cursor).result = some (name, behind)) :
    (Expr.identifier name ⟨cursor.offset, behind.offset⟩).ReadAlone source := by
  obtain ⟨text, name', stop, htext, hskip, hoffset, hresult, rfl⟩ := exists_excerpt
    (p := fun _ => True) (fun k => moves_identifier (k := k)) (fun _ => cuts_identifier)
    hplace hbare h
  have hreference : (reference (.ofString text)).result =
      some (.identifier name' ⟨0, stop⟩, ⟨stop, []⟩) := by
    refine result_spaced_eq_some.mpr ⟨(name', ⟨0, stop⟩), ⟨stop, []⟩, ?_, ?_⟩
    · rw [result_spanned, hresult]
      rfl
    · rw [skipBlanks_of_nil rfl]
      rfl
  have hprimary : (atLevel (expressionTo text.toList.length) .primary (.ofString text)).result =
      some (.identifier name' ⟨0, stop⟩, ⟨stop, []⟩) := by
    rw [atLevel, primary, result_named]
    exact result_orElse_eq_some.mpr (.inl hreference)
  refine ⟨text, _, htext, read_of_atLevel .primary hskip hprimary rfl, ?_⟩
  change Expr.identifier name' ⟨0 + cursor.offset, stop + cursor.offset⟩ = _
  rw [Nat.zero_add, hoffset, id]

lemma advances_atLevel (depth : Nat) (level : Precedence) :
    Advances (atLevel (expressionTo depth) level) := (cuts_atLevel level (Nat.le_refl 0)).advances

/-- Whether all parts are read alone of what a reader takes where no blank begins. -/
def ReadsApart (source : String) (r : Reader Expr) : Prop :=
  ∀ cursor e behind, IsPlace source cursor → skip cursor.rest = cursor.rest →
    (r cursor).result = some (e, behind) → e.ReadApart source

lemma isPlace_skipBlanks (hplace : IsPlace source cursor) : IsPlace source cursor.skipBlanks :=
  hplace.trans (leads_skipFrom false cursor.offset cursor.rest)

/-- What a reader takes behind a symbol and the blanks there. -/
lemma ReadsApart.behind_symbol {c : Char} (h : ReadsApart source nested)
    (hplace : IsPlace source cursor)
    (hresult : ((token [c] >>= fun _ => blanks >>= fun _ => nested) cursor).result =
      some (e, behind)) : e.ReadApart source := by
  obtain ⟨_, start, hsymbol, hnested⟩ := result_spaced_eq_some.mp hresult
  have hstart := isPlace_skipBlanks (hplace.trans (advances_token _ _ _ _ hsymbol))
  exact h _ _ _ hstart start.skip_skipBlanks hnested

/-- What stands before an operator, or where one may stand. -/
lemma exists_operand {op : Reader (Option β)} {body : Expr} {op? : Option β}
    (h : ((nested >>= fun body => blanks >>= fun _ => op >>= fun op? =>
      pure (body, op?)) cursor).result = some ((body, op?), behind)) :
    ∃ middle, (nested cursor).result = some (body, middle) := by
  obtain ⟨body', middle, hbody, hrest⟩ := result_spaced_eq_some.mp h
  obtain ⟨_, _, -, hpure⟩ := result_bind_eq_some.mp hrest
  obtain ⟨hsame, -⟩ := Prod.mk.inj (Option.some.inj hpure)
  obtain ⟨rfl, -⟩ := Prod.mk.inj hsame
  exact ⟨middle, hbody⟩

/-- With the operator of a level an expression is a node of its own, and without it its operand. -/
lemma readApart_of_operator (level : Precedence) {body : Expr} (hplace : IsPlace source cursor)
    (hbare : skip cursor.rest = cursor.rest)
    (h : (atLevel (expressionTo depth) level cursor).result = some (e, behind))
    (hcases : e = body ∨ e.operands = [body] ∧ e.span = ⟨cursor.offset, behind.offset⟩)
    (hbody : body.ReadApart source) : e.ReadApart source := by
  rcases hcases with rfl | ⟨hoperands, hspan⟩
  · exact hbody
  · refine .of_operands (readAlone_of_atLevel level hplace hbare h hspan) ?_
    rw [hoperands]
    exact List.forall_mem_singleton.mpr hbody

lemma applySuffix_cases (op? : Option Char) (body : Expr) (span : Span) :
    applySuffix op? body span = body ∨ (applySuffix op? body span).operands = [body] ∧
      (applySuffix op? body span).span = span := by
  unfold applySuffix
  split
  · exact .inr ⟨rfl, rfl⟩
  · exact .inr ⟨rfl, rfl⟩
  · exact .inr ⟨rfl, rfl⟩
  · exact .inl rfl

lemma applyLabel_cases (label? : Option String) (body : Expr) (span : Span) :
    applyLabel label? body span = body ∨ (applyLabel label? body span).operands = [body] ∧
      (applyLabel label? body span).span = span := by
  unfold applyLabel
  split
  · exact .inr ⟨rfl, rfl⟩
  · exact .inl rfl

lemma applyPredicate_cases (op? : Option Char) (body : Expr) (span : Span) :
    applyPredicate op? body span = body ∨ (applyPredicate op? body span).operands = [body] ∧
      (applyPredicate op? body span).span = span := by
  unfold applyPredicate
  split
  · exact .inr ⟨rfl, rfl⟩
  · exact .inr ⟨rfl, rfl⟩
  · exact .inr ⟨rfl, rfl⟩
  · exact .inl rfl

section Levels

variable (hnested : ReadsApart source (expressionTo depth))
include hnested

lemma readsApart_primary : ReadsApart source (primary (expressionTo depth)) := by
  intro cursor e behind hplace hbare h
  have hleaf : e.span = ⟨cursor.offset, behind.offset⟩ → e.operands = [] → e.ReadApart source :=
    fun hspan hnone => .of_operands (readAlone_of_atLevel .primary hplace hbare h hspan)
      (hnone ▸ List.forall_mem_nil _)
  have hread := h
  rw [primary, result_named] at hread
  rcases result_orElse_eq_some.mp hread with hreference | ⟨-, hread⟩
  · obtain ⟨read, middle, hname, hbehind⟩ := result_spaced_eq_some.mp hreference
    obtain ⟨⟨name, middle⟩, hidentifier, heq⟩ := Option.map_eq_some_iff.mp hname
    obtain ⟨rfl, rfl⟩ := Prod.mk.inj heq
    obtain ⟨_, last, -, hpure⟩ := result_bind_eq_some.mp hbehind
    obtain ⟨rfl, -⟩ := Prod.mk.inj (Option.some.inj hpure)
    exact .of_operands (readAlone_of_identifier hplace hbare hidentifier) (List.forall_mem_nil _)
  rcases result_orElse_eq_some.mp hread with hgroup | ⟨-, hread⟩
  · obtain ⟨_, start, hopen, hrest⟩ := result_spaced_eq_some.mp hgroup
    obtain ⟨inside, last, hinside, hclose⟩ := result_spaced_eq_some.mp hrest
    obtain ⟨_, _, -, hpure⟩ := result_bind_eq_some.mp hclose
    obtain ⟨rfl, -⟩ := Prod.mk.inj (Option.some.inj hpure)
    have hstart := isPlace_skipBlanks (hplace.trans (advances_token _ _ _ _ hopen))
    exact hnested _ _ _ hstart start.skip_skipBlanks hinside
  rcases result_orElse_eq_some.mp hread with hliteral | ⟨-, hread⟩
  · obtain ⟨value, -, rfl⟩ := result_node_eq_some.mp hliteral
    exact hleaf rfl rfl
  rcases result_orElse_eq_some.mp hread with hclass | ⟨-, hany⟩
  · obtain ⟨members, -, rfl⟩ := result_node_eq_some.mp hclass
    exact hleaf rfl rfl
  · obtain ⟨_, -, rfl⟩ := result_node_eq_some.mp hany
    exact hleaf rfl rfl

lemma readsApart_suffixed : ReadsApart source (suffixed (expressionTo depth)) := by
  intro cursor e behind hplace hbare h
  obtain ⟨⟨body, op?⟩, hread, rfl⟩ := result_node_eq_some.mp h
  obtain ⟨middle, hbody⟩ := exists_operand hread
  exact readApart_of_operator .suffix hplace hbare h (applySuffix_cases _ _ _)
    (readsApart_primary hnested _ _ _ hplace hbare hbody)

lemma readsApart_labeled : ReadsApart source (labeled (expressionTo depth)) := by
  intro cursor e behind hplace hbare h
  obtain ⟨⟨body, label?⟩, hread, rfl⟩ := result_node_eq_some.mp h
  obtain ⟨middle, hbody⟩ := exists_operand hread
  exact readApart_of_operator .labeled hplace hbare h (applyLabel_cases _ _ _)
    (readsApart_suffixed hnested _ _ _ hplace hbare hbody)

lemma readsApart_predicate : ReadsApart source (predicate (expressionTo depth)) := by
  intro cursor e behind hplace hbare h
  obtain ⟨⟨op?, body⟩, hread, rfl⟩ := result_node_eq_some.mp h
  obtain ⟨_, middle, hop, hrest⟩ := result_spaced_eq_some.mp hread
  obtain ⟨body', _, hbody, hpure⟩ := result_bind_eq_some.mp hrest
  obtain ⟨hsame, rfl⟩ := Prod.mk.inj (Option.some.inj hpure)
  obtain ⟨rfl, rfl⟩ := Prod.mk.inj hsame
  have hadvances : Advances (optional predicateOp) :=
    (cuts_predicateOp (n := 0) (p := fun _ => True)).advances
  have hstart := isPlace_skipBlanks (hplace.trans (hadvances _ _ _ hop))
  exact readApart_of_operator .predicate hplace hbare h (applyPredicate_cases _ _ _)
    (readsApart_labeled hnested _ _ _ hstart middle.skip_skipBlanks hbody)

omit hnested in
/-- A group of items is a node of its own unless it is its only item. -/
lemma readApart_collapse (level : Precedence) {group : List Expr → Span → Expr} {items : List Expr}
    (hgroup : ∀ items span, (group items span).operands = items ∧ (group items span).span = span)
    (hplace : IsPlace source cursor) (hbare : skip cursor.rest = cursor.rest)
    (h : (atLevel (expressionTo depth) level cursor).result =
      some (collapse group items ⟨cursor.offset, behind.offset⟩, behind))
    (hitems : ∀ item ∈ items, item.ReadApart source) :
    (collapse group items ⟨cursor.offset, behind.offset⟩).ReadApart source := by
  match items, h, hitems with
  | [only], _, hitems => exact hitems only (List.mem_singleton_self only)
  | [], h, hitems | _ :: _ :: _, h, hitems =>
    refine .of_operands (readAlone_of_atLevel level hplace hbare h (hgroup _ _).2) ?_
    change ∀ operand ∈ (group _ _).operands, _
    rw [(hgroup _ _).1]
    exact hitems

omit hnested in
lemma readApart_of_items {head item : Reader Expr} {items : List Expr}
    (hhead : ReadsApart source head) (hitem : ReadsApart source item) (hfirst : Advances head)
    (hnext : Advances item) (hplace : IsPlace source cursor) (hbare : skip cursor.rest = cursor.rest)
    (h : ((head >>= fun first => blanks >>= fun _ => many blanks item >>= fun others =>
      pure (first :: others)) cursor).result = some (items, behind)) :
    ∀ e ∈ items, e.ReadApart source := by
  obtain ⟨first, middle, hread, hrest⟩ := result_spaced_eq_some.mp h
  obtain ⟨others, _, hothers, hpure⟩ := result_bind_eq_some.mp hrest
  obtain ⟨rfl, rfl⟩ := Prod.mk.inj (Option.some.inj hpure)
  have hmiddle := isPlace_skipBlanks (hplace.trans (hfirst _ _ _ hread))
  have hrepeats := (repeats_of_many middle.skip_skipBlanks hothers).1
  refine List.forall_mem_cons.mpr ⟨hhead _ _ _ hplace hbare hread, fun e he => ?_⟩
  obtain ⟨start, stop, hleads, hstart, hresult⟩ := hrepeats.exists_of_mem hnext he
  exact hitem _ _ _ (hmiddle.trans hleads) hstart hresult

lemma readsApart_sequence : ReadsApart source (sequence (expressionTo depth)) := by
  intro cursor e behind hplace hbare h
  obtain ⟨items, hread, rfl⟩ := result_node_eq_some.mp h
  have hpredicate : Advances (predicate (expressionTo depth)) := advances_atLevel depth .predicate
  exact readApart_collapse .sequence (fun _ _ => ⟨rfl, rfl⟩) hplace hbare h
    (readApart_of_items (readsApart_predicate hnested) (readsApart_predicate hnested) hpredicate
      hpredicate hplace hbare hread)

lemma readsApart_expressionWith : ReadsApart source (expressionWith (expressionTo depth)) := by
  intro cursor e behind hplace hbare h
  obtain ⟨items, hread, rfl⟩ := result_node_eq_some.mp h
  have hsequence : Advances (sequence (expressionTo depth)) := advances_atLevel depth .sequence
  have halternative : Advances (alternative (expressionTo depth)) :=
    (advances_token _).bind fun _ => advances_blanks.bind fun _ => hsequence
  exact readApart_collapse .choice (fun _ _ => ⟨rfl, rfl⟩) hplace hbare h
    (readApart_of_items (readsApart_sequence hnested)
      (fun _ _ _ hplace _ hresult => (readsApart_sequence hnested).behind_symbol hplace hresult)
      hsequence halternative hplace hbare hread)

end Levels

lemma readsApart_expression : ReadsApart source expression := by
  have hdepth : ∀ depth, ReadsApart source (expressionTo depth) := by
    intro depth
    induction depth with
    | zero => exact fun _ _ _ _ _ h => nomatch h
    | succ depth ih => exact readsApart_expressionWith ih
  exact fun cursor => hdepth (cursor.rest.length + 1) cursor

end Nodes

/-! ## Definitions that are read alone -/

section Definitions

variable {g : Grammar} {d : Definition}

lemma readAlone_of_definition (hplace : IsPlace source cursor)
    (hbare : skip cursor.rest = cursor.rest) (h : (definition cursor).result = some (d, behind)) :
    d.body.ReadApart source ∧ d.ReadAlone source := by
  obtain ⟨⟨name, body⟩, hread, rfl⟩ := result_node_eq_some.mp h
  constructor
  · obtain ⟨_, first, hname, hrest⟩ := result_spaced_eq_some.mp hread
    obtain ⟨_, second, harrow, hrest'⟩ := result_spaced_eq_some.mp hrest
    obtain ⟨body', _, hbody, hpure⟩ := result_bind_eq_some.mp hrest'
    obtain ⟨hsame, -⟩ := Prod.mk.inj (Option.some.inj hpure)
    obtain ⟨-, rfl⟩ := Prod.mk.inj hsame
    have hfirst := isPlace_skipBlanks (hplace.trans
      ((cuts_identifier (n := 0) (p := fun _ => True)).advances _ _ _ hname))
    have hsecond := isPlace_skipBlanks (hfirst.trans (advances_token _ _ _ _ harrow))
    exact readsApart_expression _ _ _ hsecond second.skip_skipBlanks hbody
  · obtain ⟨text, d', stop, htext, hskip, -, hresult, hd⟩ :=
      exists_excerpt (fun k => moves_definition (k := k)) (fun _ => cuts_definition) hplace hbare h
    have hstart : (Cursor.ofString text).skipBlanks = .ofString text := skipBlanks_of_skip_eq hskip
    have hbegins := beginsDefinition_of_result hskip hresult
    have himports : (many blanks importClause (.ofString text)).result =
        some ([], .ofString text) :=
      (Repeats.nil _).many hskip (Nat.zero_le _) (hskip.symm ▸ refuses_importClause hbegins)
    have hrepeats : Repeats definition (.ofString text) [d'] ⟨stop, []⟩ :=
      .cons (by rwa [hstart]) (.nil _)
    obtain ⟨last, hwhole⟩ := wholeGrammar_eq_some_iff.mpr
      ⟨List.cons_ne_nil d' [], _, _, by rwa [hstart], hrepeats, skip_nil⟩
    have hnames : ([d'].map Rule.name).Nodup := List.nodup_singleton d'.name
    obtain ⟨g, hbuild, himports', hdefinitions⟩ :=
      Grammar.exists_build [] ⟨0, text.utf8ByteSize⟩ hnames
    refine ⟨text, g, htext, (Grammar.read_eq_build hwhole).trans hbuild, himports', ?_⟩
    rw [hdefinitions]
    exact congrArg (fun d => [d]) hd

/-- Where a definition of a grammar stands in its text. -/
lemma exists_result_of_mem (h : Grammar.read source = .ok g) (hd : d ∈ g.definitions) :
    ∃ cursor behind, IsPlace source cursor ∧ skip cursor.rest = cursor.rest ∧
      (definition cursor).result = some (d, behind) := by
  obtain ⟨behind, hresult⟩ := Grammar.exists_result_of_read h
  obtain ⟨-, middle, last, himports, hrepeats, -⟩ := wholeGrammar_eq_some_iff.mp ⟨behind, hresult⟩
  have hstart : IsPlace source (Cursor.ofString source).skipBlanks := isPlace_skipBlanks (.refl _)
  have hmiddle := ((marks_many (fun _ _ => marks_blanks) (fun _ => marks_importClause) hstart).value
    _ _ himports).1
  obtain ⟨cursor, stop, hleads, hbare, hdefinition⟩ :=
    hrepeats.exists_of_mem (cuts_definition (n := 0)).advances hd
  exact ⟨cursor, stop, (hstart.trans hmiddle).trans hleads, hbare, hdefinition⟩

end Definitions

end Source.Reader

open Source.Reader

/-- A span delimits the text of its own node. Wherever an expression is read, alone or in a grammar,
the text of every expression in it is read as this expression, with spans that count from where it
starts; and the text of a definition is read as a grammar of this definition only. -/
theorem readAlone_of_read (source : String) :
    (∀ e, Expr.read source = .ok e → ∀ node : Expr, node.Part e → node.ReadAlone source) ∧
    ∀ g, Grammar.read source = .ok g → ∀ d ∈ g.definitions,
      (∀ node : Expr, node.Part d.body → node.ReadAlone source) ∧ d.ReadAlone source := by
  refine ⟨fun e he => ?_, fun g hg d hd => ?_⟩
  · obtain ⟨behind, hwhole⟩ := readText_eq_ok he
    rw [wholeExpression, result_named, result_blanks_bind] at hwhole
    obtain ⟨_, middle, hresult, hrest⟩ := result_spaced_eq_some.mp hwhole
    obtain ⟨_, _, -, hpure⟩ := result_bind_eq_some.mp hrest
    obtain ⟨rfl, -⟩ := Prod.mk.inj (Option.some.inj hpure)
    have hstart : IsPlace source (Cursor.ofString source).skipBlanks := isPlace_skipBlanks (.refl _)
    exact readsApart_expression _ _ _ hstart (Cursor.skip_skipBlanks _) hresult
  · obtain ⟨cursor, behind, hplace, hbare, hresult⟩ := exists_result_of_mem hg hd
    exact readAlone_of_definition hplace hbare hresult

/-- `'ä' / !A // ö`, up to the end of the comment's line. -/
def umlautOrPredicate : Expr :=
  .choice [.literal "ä" ⟨2, 6⟩, .notPredicate (.identifier "A" ⟨10, 11⟩) ⟨9, 18⟩] ⟨2, 18⟩

/-- The same in parentheses, repeated and with a label, and a class behind it. -/
def labeledGroup : Expr :=
  .sequence [.labeled "l" (.zeroOrMore umlautOrPredicate ⟨0, 20⟩) ⟨0, 23⟩,
    .charClass [.literal "é" ⟨25, 27⟩] ⟨24, 28⟩] ⟨0, 28⟩

/-- A text that is read as `labeledGroup`. -/
def labeledGroupText : {text : String // Expr.read text = .ok labeledGroup} :=
  ⟨"( 'ä' / !A // ö\n)* ^l [é]", by decide +kernel⟩

lemma umlautOrPredicate_part : umlautOrPredicate.Part labeledGroup :=
  .deeper (List.mem_cons_self ..) (.deeper (List.mem_singleton_self _)
    (.deeper (List.mem_singleton_self _) .self))

/-- What is in the parentheses, with the comment at its end; and a definition that ends where the
name of the next one begins. -/
theorem readAlone_of_read_labeledGroup :
    (Expr.read "( 'ä' / !A // ö\n)* ^l [é]" = .ok labeledGroup ∧
      umlautOrPredicate.Part labeledGroup ∧
      umlautOrPredicate.ReadAlone "( 'ä' / !A // ö\n)* ^l [é]") ∧
    Grammar.read "A <- B // b\nB <- ." = .ok commented ∧
      Rule.ReadAlone "A <- B // b\nB <- ." ⟨"A", .identifier "B" ⟨5, 6⟩, ⟨0, 12⟩⟩ :=
  ⟨⟨labeledGroupText.2, umlautOrPredicate_part,
      (readAlone_of_read _).1 _ labeledGroupText.2 _ umlautOrPredicate_part⟩,
    commentedText.2, ((readAlone_of_read _).2 _ commentedText.2 _ (List.mem_cons_self ..)).2⟩

end LabeledPeg
