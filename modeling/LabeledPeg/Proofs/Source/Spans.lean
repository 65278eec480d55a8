import LabeledPeg.Proofs.Grammar.Equality
import LabeledPeg.Proofs.Grammar.Nodes
import LabeledPeg.Proofs.Source.Place
import LabeledPeg.Proofs.Source.Value

/-!
# Spans are sound

A node of a grammar text covers whole characters and all that it is made of, and what stands side by
side in it is told apart by the spans. A part may take the blanks behind it, but never anything of the
next part. What is refused is pointed at between two characters.
-/

namespace LabeledPeg

open Source

/-- Whether a span covers whole characters of a text. -/
structure Span.SoundIn (source : String) (span : Span) : Prop where
  start_le : span.start ≤ span.stop
  stop_le : span.stop ≤ source.utf8ByteSize
  start : IsBoundary source span.start
  stop : IsBoundary source span.stop

/-- Whether spans lie one behind the other. -/
def Span.InOrder (spans : List Span) : Prop := spans.Pairwise fun first second =>
  first.stop ≤ second.start

/-- Whether a node covers whole characters and the nodes right below it, one behind the other. -/
structure Expr.SoundNode (source : String) (e : Expr) : Prop where
  span : e.span.SoundIn source
  encloses : ∀ child ∈ e.children, e.span.encloses child.span = true
  inOrder : Span.InOrder (e.children.map Expr.span)

/-- Whether all nodes of an expression have sound spans. -/
def Expr.SoundSpans (source : String) (e : Expr) : Prop :=
  ∀ node : Expr, node.Within e → node.SoundNode source

/-- Whether a grammar covers its imports and its definitions, one behind the other, and each of the
definitions its body. -/
structure Grammar.SoundSpans (source : String) (g : Grammar) : Prop where
  span : g.span.SoundIn source
  clauses : ∀ span ∈ g.imports.map (·.span) ++ g.definitions.map (·.span),
    span.SoundIn source ∧ g.span.encloses span = true
  inOrder : Span.InOrder (g.imports.map (·.span) ++ g.definitions.map (·.span))
  bodies : ∀ d ∈ g.definitions, d.span.encloses d.body.span = true ∧ d.body.SoundSpans source

/-- Whether an expression with sound spans lies between two offsets. -/
structure Expr.Fits (source : String) (e : Expr) (start stop : Nat) : Prop where
  sound : e.SoundSpans source
  start_le : start ≤ e.span.start
  le_stop : e.span.stop ≤ stop

namespace Source.Reader

variable {α : Type} {p : α → Nat → Nat → Prop} {items : List α} {first last : Nat}

lemma Laid.to_le {last' : Nat} (h : Laid p first items last) (hlast : last ≤ last') :
    Laid p first items last' := by
  induction h with
  | nil h => exact .nil (Nat.le_trans h hlast)
  | cons hstart h _ ih => exact .cons hstart h (ih hlast)

lemma Laid.forall_mem {q : α → Prop} (h : Laid p first items last)
    (hq : ∀ item start stop, p item start stop → q item) : ∀ item ∈ items, q item := by
  induction h with
  | nil => simp
  | cons _ hitem _ ih => exact List.forall_mem_cons.mpr ⟨hq _ _ _ hitem, ih⟩

section Spans

variable {f : α → Span} (hp : ∀ item start stop, p item start stop →
  start ≤ (f item).start ∧ (f item).start ≤ (f item).stop ∧ (f item).stop ≤ stop)
include hp

lemma Laid.le (h : Laid p first items last) : first ≤ last := by
  induction h with
  | nil h => exact h
  | cons hfirst hitem _ ih =>
    obtain ⟨hstart, hspan, hstop⟩ := hp _ _ _ hitem
    omega

lemma Laid.bounds (h : Laid p first items last) :
    ∀ item ∈ items, first ≤ (f item).start ∧ (f item).stop ≤ last := by
  induction h with
  | nil => simp
  | @cons first _ _ last item items hfirst hitem hrest ih =>
    obtain ⟨hstart, hspan, hstop⟩ := hp _ _ _ hitem
    have hle := hrest.le hp
    refine List.forall_mem_cons.mpr ⟨⟨by omega, by omega⟩, fun other hother => ?_⟩
    obtain ⟨hlow, hhigh⟩ := ih other hother
    exact ⟨by omega, hhigh⟩

/-- Items that are laid one after the other have spans in order. -/
lemma Laid.inOrder (h : Laid p first items last) : Span.InOrder (items.map f) := by
  induction h with
  | nil => exact List.Pairwise.nil
  | cons _ hitem hrest ih =>
    obtain ⟨-, -, hstop⟩ := hp _ _ _ hitem
    refine List.Pairwise.cons (List.forall_mem_map.mpr fun other hother => ?_) ih
    exact Nat.le_trans hstop (hrest.bounds hp other hother).1

end Spans

end Source.Reader

namespace Expr

open Source.Reader

variable {source : String} {e body : Expr} {cursor behind : Cursor}

lemma Fits.mono {start start' stop stop' : Nat} (h : e.Fits source start stop)
    (hstart : start' ≤ start) (hstop : stop ≤ stop') : e.Fits source start' stop' :=
  ⟨h.sound, Nat.le_trans hstart h.start_le, Nat.le_trans h.le_stop hstop⟩

lemma Fits.span_le {start stop : Nat} (h : e.Fits source start stop) :
    start ≤ e.span.start ∧ e.span.start ≤ e.span.stop ∧ e.span.stop ≤ stop :=
  ⟨h.start_le, (h.sound e .self).span.start_le, h.le_stop⟩

lemma soundIn_of_leads (hplace : IsPlace source cursor) (h : cursor.Leads behind) :
    Span.SoundIn source ⟨cursor.offset, behind.offset⟩ :=
  ⟨h.offset_le, (hplace.trans h).isBoundary.le_utf8ByteSize, hplace.isBoundary,
    (hplace.trans h).isBoundary⟩

/-- A node that was read off a stretch of the text fits in there, if the nodes right below it do. -/
lemma fits_of_laid (hplace : IsPlace source cursor) (h : cursor.Leads behind)
    (hspan : e.span = ⟨cursor.offset, behind.offset⟩)
    (hchildren : Laid (Fits source) cursor.offset e.children behind.offset) :
    e.Fits source cursor.offset behind.offset := by
  have hle : ∀ (e : Expr) start stop, e.Fits source start stop →
      start ≤ e.span.start ∧ e.span.start ≤ e.span.stop ∧ e.span.stop ≤ stop :=
    fun _ _ _ => Fits.span_le
  have hnode : e.SoundNode source := by
    refine ⟨hspan ▸ soundIn_of_leads hplace h, fun child hchild => ?_, hchildren.inOrder hle⟩
    rw [Span.encloses_iff, hspan]
    exact hchildren.bounds hle child hchild
  refine ⟨fun node hnode' => ?_, hspan ▸ Nat.le_refl _, hspan ▸ Nat.le_refl _⟩
  cases hnode' with
  | self => exact hnode
  | deeper hchild hwithin =>
    have hsound := hchildren.forall_mem (q := SoundSpans source) fun _ _ _ => Fits.sound
    exact hsound _ hchild node hwithin

lemma fits_leaf (hplace : IsPlace source cursor) (h : cursor.Leads behind)
    (hspan : e.span = ⟨cursor.offset, behind.offset⟩) (hchildren : e.children = []) :
    e.Fits source cursor.offset behind.offset :=
  fits_of_laid hplace h hspan (hchildren ▸ .nil h.offset_le)

lemma fits_body (hplace : IsPlace source cursor) (h : cursor.Leads behind)
    (hspan : e.span = ⟨cursor.offset, behind.offset⟩) (hchildren : e.children = [body])
    (hbody : body.Fits source cursor.offset behind.offset) :
    e.Fits source cursor.offset behind.offset :=
  fits_of_laid hplace h hspan
    (hchildren ▸ .cons (Nat.le_refl _) hbody (.nil (Nat.le_refl _)))

end Expr

namespace Source.Reader

variable {source : String} {nested : Reader Expr}

/-- Whether a reader of expressions gives one that fits in where it was read. -/
def MarksExpr (source : String) (r : Reader Expr) : Prop :=
  ∀ cursor, IsPlace source cursor →
    Marks source r cursor fun e behind => e.Fits source cursor.offset behind.offset

lemma marks_literal : MarksExpr source literal := by
  intro cursor hplace
  refine Marks.named (((marks_quotedWith '\'').orElse (marks_quotedWith '"')).spanned.bind
    fun read behind hleads h => ?_) hplace _
  exact marks_pure (Expr.fits_leaf hplace hleads h.2 rfl)

lemma marks_classRange {cursor : Cursor} (hplace : IsPlace source cursor) :
    Marks source classRange cursor fun _ _ => True := by
  refine Marks.named ((marks_classChar hplace).bind fun lo middle hlo _ => ?_) hplace _
  refine (marks_token ['-']).bind fun _ middle' hdash _ => ?_
  exact (marks_classChar ((hplace.trans hlo).trans hdash)).bind fun _ _ _ _ => marks_pure trivial

lemma marks_classMember : MarksExpr source classMember := by
  intro cursor hplace
  refine Marks.named (Marks.congr (Marks.orElse ?_ ?_) rfl) hplace _
  · refine (marks_classRange hplace).spanned.bind fun read behind hleads h => ?_
    exact marks_pure (Expr.fits_leaf hplace hleads h.2 rfl)
  · refine (marks_classChar hplace).spanned.bind fun read behind hleads h => ?_
    exact marks_pure (Expr.fits_leaf hplace hleads h.2 rfl)

lemma marks_charClass : MarksExpr source charClass := by
  intro cursor hplace
  refine Marks.named (Marks.bind (Marks.spanned (q := fun members behind =>
    Laid (Expr.Fits source) cursor.offset members behind.offset) ?_)
    fun read behind hleads h => ?_) hplace _
  · refine (marks_token ['[']).bind fun _ inner hinner _ => ?_
    refine (marks_many (fun _ _ => marks_pure trivial) marks_classMember
      (hplace.trans hinner)).bind fun members last _ hmembers => ?_
    refine (marks_token [']']).bind fun _ behind hbehind _ => marks_pure ?_
    exact (hmembers.from_le hinner.offset_le).to_le hbehind.offset_le
  · exact marks_pure (Expr.fits_of_laid hplace hleads h.2 h.1)

lemma marks_any : MarksExpr source any := by
  intro cursor hplace
  refine Marks.named ((marks_token ['.']).spanned.bind fun read behind hleads h => ?_) hplace _
  exact marks_pure (Expr.fits_leaf hplace hleads h.2 rfl)

lemma marks_reference : MarksExpr source reference := by
  intro cursor hplace
  refine (marks_identifier hplace).spanned.bind fun read behind hleads h => ?_
  refine marks_blanks.bind fun _ behind' hblanks _ => ?_
  refine (marks_require _).bind fun _ behind'' hrequire _ => marks_pure ?_
  have hname : (Expr.identifier read.1 read.2).Fits source cursor.offset behind.offset :=
    Expr.fits_leaf hplace hleads h.2 rfl
  exact hname.mono (Nat.le_refl _) (hblanks.trans hrequire).offset_le

lemma marks_group (h : MarksExpr source nested) : MarksExpr source (group nested) := by
  intro cursor hplace
  refine (marks_token ['(']).bind fun _ first hfirst _ => ?_
  refine marks_blanks.bind fun _ start hstart _ => ?_
  have hbefore := hfirst.trans hstart
  refine (h start (hplace.trans hbefore)).bind fun e stop _ he => ?_
  refine marks_blanks.bind fun _ last hlast _ => ?_
  refine (marks_token [')']).bind fun _ behind hbehind _ => marks_pure ?_
  exact he.mono hbefore.offset_le (hlast.trans hbehind).offset_le

lemma marks_primary (h : MarksExpr source nested) : MarksExpr source (primary nested) := by
  intro cursor hplace
  exact ((marks_reference cursor hplace).orElse ((marks_group h cursor hplace).orElse
    ((marks_literal cursor hplace).orElse ((marks_charClass cursor hplace).orElse
      (marks_any cursor hplace))))).named hplace _

lemma marks_suffixed (h : MarksExpr source nested) : MarksExpr source (suffixed nested) := by
  intro cursor hplace
  refine Marks.named (Marks.bind (Marks.spanned (q := fun read behind =>
    read.1.Fits source cursor.offset behind.offset) ?_) fun read behind hleads hread => ?_) hplace _
  · refine (marks_primary h cursor hplace).bind fun body stop hstop hbody => ?_
    refine marks_blanks.bind fun _ last hlast _ => ?_
    have hop : Marks source suffixOp last fun _ _ => True :=
      marks_oneOf.named ((hplace.trans hstop).trans hlast) _
    refine hop.optional.bind fun op? behind hbehind _ => marks_pure ?_
    exact hbody.mono (Nat.le_refl _) (hlast.trans hbehind).offset_le
  · refine marks_pure ?_
    unfold applySuffix
    split
    · exact Expr.fits_body hplace hleads hread.2 rfl hread.1
    · exact Expr.fits_body hplace hleads hread.2 rfl hread.1
    · exact Expr.fits_body hplace hleads hread.2 rfl hread.1
    · exact hread.1

lemma marks_labeled (h : MarksExpr source nested) : MarksExpr source (labeled nested) := by
  intro cursor hplace
  refine Marks.named (Marks.bind (Marks.spanned (q := fun read behind =>
    read.1.Fits source cursor.offset behind.offset) ?_) fun read behind hleads hread => ?_) hplace _
  · refine (marks_suffixed h cursor hplace).bind fun body stop hstop hbody => ?_
    refine marks_blanks.bind fun _ last hlast _ => ?_
    have hlastPlace := (hplace.trans hstop).trans hlast
    have hlabel : Marks source label last fun _ _ => True :=
      (marks_token ['^']).bind fun _ first hfirst _ => marks_blanks.bind fun _ start hstart _ =>
        marks_identifier ((hlastPlace.trans hfirst).trans hstart)
    refine hlabel.optional.bind fun label? behind hbehind _ => marks_pure ?_
    exact hbody.mono (Nat.le_refl _) (hlast.trans hbehind).offset_le
  · refine marks_pure ?_
    unfold applyLabel
    split
    · exact Expr.fits_body hplace hleads hread.2 rfl hread.1
    · exact hread.1

lemma marks_predicate (h : MarksExpr source nested) : MarksExpr source (predicate nested) := by
  intro cursor hplace
  refine Marks.named (Marks.bind (Marks.spanned (q := fun read behind =>
    read.2.Fits source cursor.offset behind.offset) ?_) fun read behind hleads hread => ?_) hplace _
  · have hop : Marks source predicateOp cursor fun _ _ => True := marks_oneOf.named hplace _
    refine hop.optional.bind fun op? first hfirst _ => ?_
    refine marks_blanks.bind fun _ start hstart _ => ?_
    have hbefore := hfirst.trans hstart
    refine (marks_labeled h start (hplace.trans hbefore)).bind fun body behind _ hbody => ?_
    exact marks_pure (hbody.mono hbefore.offset_le (Nat.le_refl _))
  · refine marks_pure ?_
    unfold applyPredicate
    split
    · exact Expr.fits_body hplace hleads hread.2 rfl hread.1
    · exact Expr.fits_body hplace hleads hread.2 rfl hread.1
    · exact Expr.fits_body hplace hleads hread.2 rfl hread.1
    · exact hread.1

/-- One item after the other, the first one without what stands before the others. -/
lemma marks_items {head item : Reader Expr} (hhead : MarksExpr source head)
    (hitem : MarksExpr source item) {cursor : Cursor} (hplace : IsPlace source cursor) :
    Marks source (do
      let first ← head
      blanks
      return first :: (← many blanks item)) cursor
      fun items behind => Laid (Expr.Fits source) cursor.offset items behind.offset := by
  refine (hhead cursor hplace).bind fun first stop hstop hfirst => ?_
  refine marks_blanks.bind fun _ start hstart _ => ?_
  refine (marks_many (fun _ _ => marks_blanks) hitem ((hplace.trans hstop).trans hstart)).bind
    fun others behind _ hothers => marks_pure ?_
  exact .cons (Nat.le_refl _) hfirst (hothers.from_le hstart.offset_le)

/-- A group is its only item, or a node of its own above its items. -/
lemma fits_collapse {cursor behind : Cursor} (hplace : IsPlace source cursor)
    (hleads : cursor.Leads behind) {group : List Expr → Span → Expr}
    (hspan : ∀ items span, (group items span).span = span)
    (hchildren : ∀ items span, (group items span).children = items) {items : List Expr}
    (h : Laid (Expr.Fits source) cursor.offset items behind.offset) :
    (collapse group items ⟨cursor.offset, behind.offset⟩).Fits source cursor.offset behind.offset := by
  have hgroup : ∀ items, Laid (Expr.Fits source) cursor.offset items behind.offset →
      (group items ⟨cursor.offset, behind.offset⟩).Fits source cursor.offset behind.offset :=
    fun items h => Expr.fits_of_laid hplace hleads (hspan _ _) ((hchildren _ _).symm ▸ h)
  unfold collapse
  split
  · cases h with
    | cons hfirst honly hrest =>
      cases hrest with
      | nil hlast => exact honly.mono hfirst hlast
  · exact hgroup _ h

lemma marks_sequence (h : MarksExpr source nested) : MarksExpr source (sequence nested) := by
  intro cursor hplace
  refine Marks.named ((marks_items (marks_predicate h) (marks_predicate h) hplace).spanned.bind
    fun read behind hleads hread => marks_pure ?_) hplace _
  exact hread.2 ▸ fits_collapse hplace hleads (fun _ _ => rfl) (fun _ _ => rfl) hread.1

lemma marks_alternative (h : MarksExpr source nested) : MarksExpr source (alternative nested) := by
  intro cursor hplace
  refine (marks_token ['/']).bind fun _ first hfirst _ => ?_
  refine marks_blanks.bind fun _ start hstart _ => ?_
  have hbefore := hfirst.trans hstart
  exact (marks_sequence h start (hplace.trans hbefore)).mono fun e behind _ he =>
    he.mono hbefore.offset_le (Nat.le_refl _)

lemma marks_expressionWith (h : MarksExpr source nested) :
    MarksExpr source (expressionWith nested) := by
  intro cursor hplace
  refine Marks.named ((marks_items (marks_sequence h) (marks_alternative h) hplace).spanned.bind
    fun read behind hleads hread => marks_pure ?_) hplace _
  exact hread.2 ▸ fits_collapse hplace hleads (fun _ _ => rfl) (fun _ _ => rfl) hread.1

lemma marks_expression : MarksExpr source expression := by
  have hdepth : ∀ depth, MarksExpr source (expressionTo depth) := by
    intro depth
    induction depth with
    | zero => exact fun _ _ => marks_refuse
    | succ depth ih => exact marks_expressionWith ih
  intro cursor hplace
  exact (hdepth (cursor.rest.length + 1) cursor hplace).congr rfl

end Source.Reader

/-- Whether a span of whole characters lies between two offsets. -/
structure Span.Fits (source : String) (span : Span) (start stop : Nat) : Prop where
  sound : span.SoundIn source
  start_le : start ≤ span.start
  le_stop : span.stop ≤ stop

/-- Whether a definition lies between two offsets and covers its body. -/
structure Rule.Fits (source : String) (d : Definition) (start stop : Nat) : Prop where
  span : d.span.Fits source start stop
  encloses : d.span.encloses d.body.span = true
  sound : d.body.SoundSpans source

lemma Span.Fits.span_le {source : String} {span : Span} {start stop : Nat}
    (h : span.Fits source start stop) :
    start ≤ span.start ∧ span.start ≤ span.stop ∧ span.stop ≤ stop :=
  ⟨h.start_le, h.sound.start_le, h.le_stop⟩

namespace Source.Reader

variable {source : String} {cursor : Cursor}

lemma marks_furtherName (hplace : IsPlace source cursor) :
    Marks source furtherName cursor fun _ _ => True := by
  refine (marks_token [',']).bind fun _ first hfirst _ => ?_
  refine marks_blanks.bind fun _ start hstart _ => ?_
  exact marks_identifier ((hplace.trans hfirst).trans hstart)

lemma marks_importNames (hplace : IsPlace source cursor) :
    Marks source importNames cursor fun _ _ => True := by
  refine Marks.named (Marks.orElse ?_ ?_) hplace _
  · exact ((marks_token ['*']).named hplace _).bind fun _ _ _ _ => marks_pure trivial
  · refine (marks_identifier hplace).bind fun first stop hstop _ => ?_
    refine marks_blanks.bind fun _ start hstart _ => ?_
    have hothers := marks_many (p := fun _ _ _ => True) (fun _ _ => marks_blanks)
      (fun _ => marks_furtherName) ((hplace.trans hstop).trans hstart)
    exact hothers.bind fun _ _ _ _ => marks_pure trivial

lemma marks_importClause (hplace : IsPlace source cursor) :
    Marks source importClause cursor fun i behind =>
      i.span.Fits source cursor.offset behind.offset := by
  refine Marks.named (Marks.bind (Marks.spanned (q := fun _ _ => True) ?_)
    fun read behind hleads hread => marks_pure ?_) hplace _
  · refine (marks_keyword hplace _ _).bind fun _ a ha _ => ?_
    have ha' := hplace.trans ha
    refine marks_blanks.bind fun _ b hb _ => (marks_importNames (ha'.trans hb)).bind
      fun _ c hc _ => marks_blanks.bind fun _ d hd _ => ?_
    have hd' := ((ha'.trans hb).trans hc).trans hd
    refine (marks_keyword hd' _ _).bind fun _ e he _ => marks_blanks.bind fun _ f hf _ => ?_
    have hpath := (marks_quotedWith '"').named ((hd'.trans he).trans hf) .path
    exact hpath.bind fun _ _ _ _ => marks_pure trivial
  · exact hread.2 ▸ ⟨Expr.soundIn_of_leads hplace hleads, Nat.le_refl _, Nat.le_refl _⟩

lemma marks_definition (hplace : IsPlace source cursor) :
    Marks source definition cursor fun d behind =>
      Rule.Fits source d cursor.offset behind.offset := by
  refine Marks.named (Marks.bind (Marks.spanned (q := fun read behind =>
    read.2.Fits source cursor.offset behind.offset) ?_) fun read behind hleads hread => ?_) hplace _
  · refine (marks_identifier hplace).bind fun name a ha _ => ?_
    refine marks_blanks.bind fun _ b hb _ => (marks_token ['<', '-']).bind
      fun _ c hc _ => marks_blanks.bind fun _ d hd _ => ?_
    have hbefore := ((ha.trans hb).trans hc).trans hd
    refine (marks_expression d (hplace.trans hbefore)).bind fun body behind _ hbody => ?_
    exact marks_pure (hbody.mono hbefore.offset_le (Nat.le_refl _))
  · obtain ⟨hbody, hspan⟩ := hread
    refine marks_pure ⟨?_, ?_, hbody.sound⟩
    · exact hspan ▸ ⟨Expr.soundIn_of_leads hplace hleads, Nat.le_refl _, Nat.le_refl _⟩
    · exact Span.encloses_iff.mpr (hspan ▸ ⟨hbody.start_le, hbody.le_stop⟩)

lemma marks_endOfText (hplace : IsPlace source cursor) :
    Marks source endOfText cursor fun _ _ => True :=
  (marks_require _).named hplace _

lemma marks_wholeExpression (hplace : IsPlace source cursor) :
    Marks source wholeExpression cursor fun e _ => e.SoundSpans source := by
  refine Marks.named (marks_blanks.bind fun _ start hstart _ => ?_) hplace _
  refine (marks_expression start (hplace.trans hstart)).bind fun e stop hstop he => ?_
  refine marks_blanks.bind fun _ last hlast _ => ?_
  exact (marks_endOfText (((hplace.trans hstart).trans hstop).trans hlast)).bind
    fun _ _ _ _ => marks_pure he.sound

/-- Imports come first, and the definitions behind all of them. -/
lemma marks_wholeGrammar (hplace : IsPlace source cursor) :
    Marks source wholeGrammar cursor fun read behind => ∃ middle,
      Laid (fun i => i.span.Fits source) cursor.offset read.1 middle ∧
        Laid (Rule.Fits source) middle read.2 behind.offset := by
  refine Marks.named (marks_blanks.bind fun _ a ha _ => ?_) hplace _
  have ha' := hplace.trans ha
  refine (marks_many (fun _ _ => marks_blanks) (fun _ => marks_importClause) ha').bind
    fun imports b hb himports => marks_blanks.bind fun _ c hc _ => ?_
  have hc' := (ha'.trans hb).trans hc
  refine (marks_definition hc').bind fun first d hd hfirst => marks_blanks.bind fun _ e he _ => ?_
  have he' := (hc'.trans hd).trans he
  refine (marks_many (fun _ _ => marks_blanks) (fun _ => marks_definition) he').bind
    fun others f hf hothers => marks_blanks.bind fun _ last hlast _ => ?_
  refine (marks_endOfText ((he'.trans hf).trans hlast)).bind fun _ behind hbehind _ => ?_
  refine marks_pure ⟨b.offset, himports.from_le ha.offset_le, ?_⟩
  exact .cons hc.offset_le hfirst
    ((hothers.from_le he.offset_le).to_le (hlast.trans hbehind).offset_le)

/-- A reader that starts at the beginning of a text marks its places, and reports a boundary. -/
lemma readText_marks {α : Type} {r : Reader α} {q : α → Cursor → Prop}
    (h : Marks source r (.ofString source) q) :
    (∀ value, readText r source = .ok value →
      ∃ behind, (Cursor.ofString source).Leads behind ∧ q value behind) ∧
    ∀ e, readText r source = .error e →
      ∃ message place, e = .badSyntax message (.point place) ∧ IsBoundary source place := by
  unfold readText
  dsimp only
  cases hrun : (r (.ofString source)).result with
  | none =>
    refine ⟨fun value hvalue => ?_, fun e he => ?_⟩
    · cases hvalue
    · exact ⟨_, _, (Except.error.inj he).symm, h.expected⟩
  | some found =>
    refine ⟨fun value hvalue => ?_, fun e he => ?_⟩
    · obtain rfl := Except.ok.inj hvalue
      exact ⟨found.2, h.value _ _ hrun⟩
    · cases he

end Source.Reader

open Source.Reader

lemma firstRepeat?_go_sublist {α : Type} {earlier rules : List (Rule α)} {first second : Rule α}
    (h : Rule.firstRepeat?.go earlier rules = some (first, second)) :
    [first, second].Sublist (earlier ++ rules) := by
  induction rules generalizing earlier with
  | nil => cases h
  | cons rule rules ih =>
    unfold Rule.firstRepeat?.go at h
    split at h
    · next found hfound =>
      obtain ⟨rfl, rfl⟩ := Prod.mk.inj (Option.some.inj h)
      have hfirst : [found].Sublist earlier :=
        List.singleton_sublist.mpr (List.mem_of_find?_eq_some hfound)
      exact hfirst.append (List.singleton_sublist.mpr List.mem_cons_self)
    · simpa using ih h

/-- A definition that repeats a name stands behind the one that it repeats. -/
lemma Grammar.build_eq_duplicate {imports : List Import} {definitions : List Definition} {span : Span}
    {e : GrammarError} (h : Grammar.build imports definitions span = .error e) :
    ∃ first second, [first, second].Sublist definitions ∧
      e = .duplicateDefinition second.name first.span second.span := by
  unfold Grammar.build at h
  split at h
  · next first second hrepeat =>
    exact ⟨first, second, firstRepeat?_go_sublist hrepeat, (Except.error.inj h).symm⟩
  · cases h

variable {source : String}

/-- A grammar text is refused where it is read, or for a name that is defined twice. -/
lemma Grammar.read_eq_error {e : GrammarError} (h : Grammar.read source = .error e) :
    readText wholeGrammar source = .error e ∨ ∃ read first second,
      readText wholeGrammar source = .ok read ∧ [first, second].Sublist read.2 ∧
        e = .duplicateDefinition second.name first.span second.span := by
  rw [Grammar.read] at h
  cases hread : readText wholeGrammar source with
  | error e' =>
    rw [hread] at h
    exact .inl (congrArg Except.error (Except.error.inj h))
  | ok read =>
    rw [hread] at h
    obtain ⟨first, second, hsublist, he⟩ := Grammar.build_eq_duplicate h
    exact .inr ⟨read, first, second, rfl, hsublist, he⟩

lemma Grammar.soundSpans_of_laid {g : Grammar} {middle : Nat} {behind : Cursor}
    (hspan : g.span = ⟨0, source.utf8ByteSize⟩) (hbehind : (Cursor.ofString source).Leads behind)
    (himports : Laid (fun i => i.span.Fits source) 0 g.imports middle)
    (hdefinitions : Laid (Rule.Fits source) middle g.definitions behind.offset) :
    g.SoundSpans source := by
  have himport : ∀ (i : Import) start stop, i.span.Fits source start stop →
      start ≤ i.span.start ∧ i.span.start ≤ i.span.stop ∧ i.span.stop ≤ stop :=
    fun _ _ _ => Span.Fits.span_le
  have hdefinition : ∀ (d : Definition) start stop, Rule.Fits source d start stop →
      start ≤ d.span.start ∧ d.span.start ≤ d.span.stop ∧ d.span.stop ≤ stop :=
    fun _ _ _ h => h.span.span_le
  have hend : behind.offset ≤ source.utf8ByteSize := hbehind.isBoundary.le_utf8ByteSize
  have hmiddle := hdefinitions.le hdefinition
  refine ⟨?_, ?_, ?_, ?_⟩
  · rw [hspan]
    exact ⟨Nat.zero_le _, Nat.le_refl _, isBoundary_zero source, String.Pos.Raw.isValid_rawEndPos⟩
  · rw [hspan]
    simp only [Span.encloses_iff]
    refine List.forall_mem_append.mpr ⟨List.forall_mem_map.mpr fun i hi => ?_,
      List.forall_mem_map.mpr fun d hd => ?_⟩
    · have hbounds := himports.bounds himport i hi
      have hsound := himports.forall_mem (q := fun i => i.span.SoundIn source)
        (fun _ _ _ h => h.sound) i hi
      exact ⟨hsound, by omega, by omega⟩
    · have hbounds := hdefinitions.bounds hdefinition d hd
      have hsound := hdefinitions.forall_mem (q := fun d => d.span.SoundIn source)
        (fun _ _ _ h => h.span.sound) d hd
      exact ⟨hsound, by omega, by omega⟩
  · refine List.pairwise_append.mpr ⟨himports.inOrder himport, hdefinitions.inOrder hdefinition, ?_⟩
    intro first hfirst second hsecond
    obtain ⟨i, hi, rfl⟩ := List.mem_map.mp hfirst
    obtain ⟨d, hd, rfl⟩ := List.mem_map.mp hsecond
    exact Nat.le_trans (himports.bounds himport i hi).2 (hdefinitions.bounds hdefinition d hd).1
  · exact hdefinitions.forall_mem fun d _ _ h => ⟨h.encloses, h.sound⟩

/-- Spans are sound for every text. A tree that is read has sound spans throughout; a text that is
refused is pointed at between two characters, or it defines a name a second time, behind the first. -/
theorem spans_of_read (source : String) :
    (∀ e, Expr.read source = .ok e → e.SoundSpans source) ∧
    (∀ g, Grammar.read source = .ok g → g.SoundSpans source) ∧
    (∀ message span, Expr.read source = .error (.badSyntax message span) ∨
        Grammar.read source = .error (.badSyntax message span) →
      ∃ place, span = .point place ∧ place ≤ source.utf8ByteSize ∧ IsBoundary source place) ∧
    ∀ name first second, Grammar.read source = .error (.duplicateDefinition name first second) →
      first.stop ≤ second.start := by
  have hstart : IsPlace source (.ofString source) := .refl _
  obtain ⟨hexpr, hexprError⟩ := readText_marks (marks_wholeExpression hstart)
  obtain ⟨hgrammar, hgrammarError⟩ := readText_marks (marks_wholeGrammar hstart)
  refine ⟨fun e he => (hexpr e he).choose_spec.2, fun g hg => ?_, fun message span h => ?_, ?_⟩
  · obtain ⟨read, hread, hbuild⟩ := Grammar.read_eq_ok hg
    obtain ⟨behind, hbehind, middle, himports, hdefinitions⟩ := hgrammar read hread
    obtain ⟨hgimports, hgdefinitions, hgspan⟩ := Grammar.build_eq_ok hbuild
    rw [← hgimports] at himports
    rw [← hgdefinitions] at hdefinitions
    exact Grammar.soundSpans_of_laid hgspan hbehind himports hdefinitions
  · have hplace : ∃ message' place, GrammarError.badSyntax message span =
        .badSyntax message' (.point place) ∧ IsBoundary source place := by
      rcases h with h | h
      · exact hexprError _ h
      · obtain hread | ⟨_, _, _, -, -, he⟩ := Grammar.read_eq_error h
        · exact hgrammarError _ hread
        · cases he
    obtain ⟨message', place, heq, hboundary⟩ := hplace
    exact ⟨place, (GrammarError.badSyntax.inj heq).2, hboundary.le_utf8ByteSize, hboundary⟩
  · intro name first second h
    obtain hread | ⟨read, d, d', hread, hsublist, he⟩ := Grammar.read_eq_error h
    · obtain ⟨_, _, he, -⟩ := hgrammarError _ hread
      cases he
    · obtain ⟨behind, -, middle, -, hdefinitions⟩ := hgrammar read hread
      obtain ⟨-, rfl, rfl⟩ := GrammarError.duplicateDefinition.inj he
      have hle : ∀ (d : Definition) start stop, Rule.Fits source d start stop →
          start ≤ d.span.start ∧ d.span.start ≤ d.span.stop ∧ d.span.stop ≤ stop :=
        fun _ _ _ h => h.span.span_le
      have hpair : Span.InOrder [d.span, d'.span] :=
        (hdefinitions.inOrder hle).sublist (hsublist.map Rule.span)
      simpa [Span.InOrder] using hpair

/-- `A <- 'ä' // ö` and `/ [α-ω]`, a line each. -/
def umlautOrGreek : Grammar :=
  ⟨[], [⟨"A", .choice [.literal "ä" ⟨5, 9⟩, .charClass [.range 'α' 'ω' ⟨20, 25⟩] ⟨19, 26⟩] ⟨5, 26⟩,
    ⟨0, 26⟩⟩], ⟨0, 26⟩, by decide⟩

/-- A text that is read as `umlautOrGreek`. -/
def umlautOrGreekText : {text : String // Grammar.read text = .ok umlautOrGreek} :=
  ⟨"A <- 'ä' // ö\n / [α-ω]", by decide +kernel⟩

/-- An expression, a grammar, a text that stops making sense behind a literal, and one that defines
a name twice. -/
theorem spans_of_read_beyond_ascii :
    (Expr.read "'ä'  /C // ö" =
        .ok (.choice [.literal "ä" ⟨0, 4⟩, .identifier "C" ⟨7, 8⟩] ⟨0, 14⟩) ∧
      (Expr.choice [.literal "ä" ⟨0, 4⟩, .identifier "C" ⟨7, 8⟩] ⟨0, 14⟩).SoundSpans "'ä'  /C // ö") ∧
    umlautOrGreek.SoundSpans "A <- 'ä' // ö\n / [α-ω]" ∧
    IsBoundary "A <- 'ä'ö" 9 ∧
    (Grammar.read "A <- 'ä' A <- B" = .error (.duplicateDefinition "A" ⟨0, 10⟩ ⟨10, 16⟩) ∧
      Span.stop ⟨0, 10⟩ ≤ Span.start ⟨10, 16⟩) := by
  have hexpr : Expr.read "'ä'  /C // ö" =
      .ok (.choice [.literal "ä" ⟨0, 4⟩, .identifier "C" ⟨7, 8⟩] ⟨0, 14⟩) := by decide +kernel
  have hrefused : Grammar.read "A <- 'ä'ö" =
      .error (.badSyntax "expected EOI, prefix, suffix_op, or identifier" (.point 9)) := by
    decide +kernel
  have htwice : Grammar.read "A <- 'ä' A <- B" =
      .error (.duplicateDefinition "A" ⟨0, 10⟩ ⟨10, 16⟩) := by decide +kernel
  have hplace := (spans_of_read "A <- 'ä'ö").2.2.1 _ _ (.inr hrefused)
  obtain ⟨place, hpoint, -, hboundary⟩ := hplace
  have hnine : place = 9 := (Span.mk.inj hpoint).1.symm
  have hordered := (spans_of_read "A <- 'ä' A <- B").2.2.2 _ _ _ htwice
  exact ⟨⟨hexpr, (spans_of_read _).1 _ hexpr⟩, (spans_of_read _).2.1 _ umlautOrGreekText.2,
    hnine ▸ hboundary, htwice, hordered⟩

end LabeledPeg
