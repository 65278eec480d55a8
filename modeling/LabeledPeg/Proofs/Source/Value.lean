import LabeledPeg.Proofs.Grammar.Closure
import LabeledPeg.Proofs.Grammar.Normal
import LabeledPeg.Proofs.Source.Reader
import LabeledPeg.Source.Document

/-!
# What is read is in normal form

No reader makes a group of one item, or a range that stands outside a class, and the names that are
read are identifiers.
-/

namespace LabeledPeg

open Text

/-- Whether an expression is well formed and its own normal form. -/
structure Expr.IsNormal (e : Expr) : Prop where
  wellFormed : e.WellFormed
  normal_eq : e.normal = e

namespace Expr.IsNormal

variable {e body : Expr} {items : List Expr} {span : Span}

lemma any : (Expr.any span).IsNormal := ⟨.any, by simp only [normal]⟩

lemma literal {value : String} : (Expr.literal value span).IsNormal :=
  ⟨.literal, by simp only [normal]⟩

lemma identifier {name : String} (hname : isAsciiIdentifier name = true) :
    (Expr.identifier name span).IsNormal := ⟨.identifier hname, by simp only [normal]⟩

lemma charClass (h : ∀ e ∈ items, e.IsClassMember) : (Expr.charClass items span).IsNormal :=
  ⟨.charClass h, by simp only [normal]⟩

lemma labeled {label : String} (hlabel : isAsciiIdentifier label = true) (h : body.IsNormal) :
    (Expr.labeled label body span).IsNormal :=
  ⟨.labeled hlabel h.wellFormed, by rw [normal, h.normal_eq]⟩

lemma applySuffix {op? : Option Char} (h : body.IsNormal) :
    (Source.Reader.applySuffix op? body span).IsNormal := by
  unfold Source.Reader.applySuffix
  split
  · exact ⟨.optional h.wellFormed, by rw [normal, h.normal_eq]⟩
  · exact ⟨.zeroOrMore h.wellFormed, by rw [normal, h.normal_eq]⟩
  · exact ⟨.oneOrMore h.wellFormed, by rw [normal, h.normal_eq]⟩
  · exact h

lemma applyPredicate {op? : Option Char} (h : body.IsNormal) :
    (Source.Reader.applyPredicate op? body span).IsNormal := by
  unfold Source.Reader.applyPredicate
  split
  · exact ⟨.andPredicate h.wellFormed, by rw [normal, h.normal_eq]⟩
  · exact ⟨.notPredicate h.wellFormed, by rw [normal, h.normal_eq]⟩
  · exact ⟨.lexical h.wellFormed, by rw [normal, h.normal_eq]⟩
  · exact h

lemma applyLabel {label? : Option String} (hlabel : ∀ label ∈ label?, isAsciiIdentifier label = true)
    (h : body.IsNormal) : (Source.Reader.applyLabel label? body span).IsNormal := by
  cases label? with
  | some label => exact labeled (hlabel label rfl) h
  | none => exact h

lemma map_normal (h : ∀ e ∈ items, e.IsNormal) : items.map normal = items := by
  calc items.map normal = items.map id := List.map_congr_left fun e he => (h e he).normal_eq
    _ = items := List.map_id items

lemma sequence (hlength : 2 ≤ items.length) (h : ∀ e ∈ items, e.IsNormal) :
    (Expr.sequence items span).IsNormal := by
  refine ⟨.sequence (List.ne_nil_of_length_pos (by omega)) fun e he => (h e he).wellFormed, ?_⟩
  rw [normal_sequence_of_two_le hlength, map_normal h]

lemma choice (hlength : 2 ≤ items.length) (h : ∀ e ∈ items, e.IsNormal) :
    (Expr.choice items span).IsNormal := by
  refine ⟨.choice (List.ne_nil_of_length_pos (by omega)) fun e he => (h e he).wellFormed, ?_⟩
  rw [normal_choice_of_two_le hlength, map_normal h]

/-- A group of the items read is in normal form, if one of two items or more is. -/
lemma collapse {group : List Expr → Span → Expr} (hne : items ≠ []) (h : ∀ e ∈ items, e.IsNormal)
    (hgroup : 2 ≤ items.length → (group items span).IsNormal) :
    (Source.Reader.collapse group items span).IsNormal := by
  match items with
  | [] => exact absurd rfl hne
  | [only] => exact h only (by simp)
  | _ :: _ :: _ => exact hgroup (by simp)

end Expr.IsNormal

namespace Source.Reader

variable {α : Type} {nested : Reader Expr}

lemma yields_ofCursor {step : Cursor → Option (α × Cursor)} {p : α → Prop}
    (h : ∀ cursor value behind, step cursor = some (value, behind) → p value) :
    Yields (ofCursor step) p := h

lemma isAsciiContinue_of_mem_identifierTail (offset : Nat) (rest : List Char) :
    ∀ c ∈ (identifierTail offset rest).1, isAsciiContinue c = true := by
  induction rest generalizing offset with
  | nil => simp [identifierTail]
  | cons c rest ih =>
    rw [identifierTail]
    split
    · next hc => exact List.forall_mem_cons.mpr ⟨hc, ih _⟩
    · simp

lemma yields_identifier : Yields identifier fun name => isAsciiIdentifier name = true := by
  have htail : Yields (ofCursor fun cursor => some (identifierTail cursor.offset cursor.rest))
      fun tail => ∀ c ∈ tail, isAsciiContinue c = true := by
    refine yields_ofCursor fun cursor tail behind hstep => ?_
    have hresult := Option.some.inj hstep
    have hmem := isAsciiContinue_of_mem_identifierTail cursor.offset cursor.rest
    rwa [hresult] at hmem
  refine (yields_oneOf.bind fun first hfirst => htail.bind fun tail htail => ?_).named _
  refine yields_pure ?_
  simp only [isAsciiIdentifier, String.toList_ofList, Bool.and_eq_true, List.all_eq_true]
  exact ⟨hfirst, htail⟩

lemma yields_literal : Yields literal Expr.IsNormal :=
  (yields_true.spanned.bind fun _ _ => yields_pure .literal).named _

lemma yields_classMember : Yields classMember Expr.IsClassMember := by
  refine Yields.named (fun cursor => ?_) _
  refine Yields.orElse (yields_true.spanned.bind fun _ _ => yields_pure ?_)
    (yields_true.spanned.bind fun read _ => yields_pure ?_) cursor
  · exact trivial
  · simp [Expr.IsClassMember]

lemma yields_charClass : Yields charClass Expr.IsNormal := by
  refine (Yields.spanned (p := fun members => ∀ e ∈ members, e.IsClassMember) ?_).bind
    (fun read hread => yields_pure (.charClass hread)) |>.named _
  exact yields_true.bind fun _ _ => yields_classMember.many.bind fun members hmembers =>
    yields_true.bind fun _ _ => yields_pure hmembers

lemma yields_any : Yields any Expr.IsNormal :=
  (yields_true.spanned.bind fun _ _ => yields_pure .any).named _

lemma yields_reference : Yields reference Expr.IsNormal :=
  yields_identifier.spanned.bind fun _ hname => yields_true.bind fun _ _ =>
    yields_true.bind fun _ _ => yields_pure (.identifier hname)

lemma yields_group (h : Yields nested Expr.IsNormal) : Yields (group nested) Expr.IsNormal :=
  yields_true.bind fun _ _ => yields_true.bind fun _ _ => h.bind fun _ he =>
    yields_true.bind fun _ _ => yields_true.bind fun _ _ => yields_pure he

lemma yields_primary (h : Yields nested Expr.IsNormal) : Yields (primary nested) Expr.IsNormal :=
  (yields_reference.orElse ((yields_group h).orElse (yields_literal.orElse
    (yields_charClass.orElse yields_any)))).named _

lemma yields_suffixed (h : Yields nested Expr.IsNormal) : Yields (suffixed nested) Expr.IsNormal := by
  refine (Yields.spanned (p := fun read => read.1.IsNormal) ?_).bind
    (fun read hread => yields_pure hread.applySuffix) |>.named _
  exact (yields_primary h).bind fun body hbody => yields_true.bind fun _ _ =>
    yields_true.bind fun _ _ => yields_pure hbody

lemma yields_labeled (h : Yields nested Expr.IsNormal) : Yields (labeled nested) Expr.IsNormal := by
  refine (Yields.spanned (p := fun read => read.1.IsNormal ∧
    ∀ label ∈ read.2, isAsciiIdentifier label = true) ?_).bind
    (fun read hread => yields_pure (hread.1.applyLabel hread.2)) |>.named _
  have hlabel : Yields label fun name => isAsciiIdentifier name = true :=
    yields_true.bind fun _ _ => yields_true.bind fun _ _ => yields_identifier
  exact (yields_suffixed h).bind fun body hbody => yields_true.bind fun _ _ =>
    hlabel.optional.bind fun label? hlabel? => yields_pure ⟨hbody, hlabel?⟩

lemma yields_predicate (h : Yields nested Expr.IsNormal) :
    Yields (predicate nested) Expr.IsNormal := by
  refine (Yields.spanned (p := fun read => read.2.IsNormal) ?_).bind
    (fun read hread => yields_pure hread.applyPredicate) |>.named _
  exact yields_true.bind fun op? _ => yields_true.bind fun _ _ =>
    (yields_labeled h).bind fun body hbody => yields_pure hbody

lemma yields_items {head item : Reader Expr} (hhead : Yields head Expr.IsNormal)
    (hitem : Yields item Expr.IsNormal) :
    Yields (do
      let first ← head
      blanks
      return first :: (← many blanks item))
      fun items => items ≠ [] ∧ ∀ e ∈ items, e.IsNormal :=
  hhead.bind fun _ hfirst => yields_true.bind fun _ _ => hitem.many.bind fun _ hothers =>
    yields_pure ⟨by simp, List.forall_mem_cons.mpr ⟨hfirst, hothers⟩⟩

lemma yields_sequence (h : Yields nested Expr.IsNormal) : Yields (sequence nested) Expr.IsNormal :=
  ((yields_items (yields_predicate h) (yields_predicate h)).spanned.bind fun _ hread =>
    yields_pure (.collapse hread.1 hread.2 fun hlength => .sequence hlength hread.2)).named _

lemma yields_alternative (h : Yields nested Expr.IsNormal) :
    Yields (alternative nested) Expr.IsNormal :=
  yields_true.bind fun _ _ => yields_true.bind fun _ _ => yields_sequence h

lemma yields_expressionWith (h : Yields nested Expr.IsNormal) :
    Yields (expressionWith nested) Expr.IsNormal :=
  ((yields_items (yields_sequence h) (yields_alternative h)).spanned.bind fun _ hread =>
    yields_pure (.collapse hread.1 hread.2 fun hlength => .choice hlength hread.2)).named _

lemma yields_expressionTo (depth : Nat) : Yields (expressionTo depth) Expr.IsNormal := by
  induction depth with
  | zero => exact yields_refuse
  | succ depth ih => exact yields_expressionWith ih

lemma yields_expression : Yields expression Expr.IsNormal :=
  fun cursor => yields_expressionTo (cursor.rest.length + 1) cursor

lemma yields_wholeExpression : Yields wholeExpression Expr.IsNormal :=
  (yields_true.bind fun _ _ => yields_expression.bind fun _ he => yields_true.bind fun _ _ =>
    yields_true.bind fun _ _ => yields_pure he).named _

/-- What holds of the name and of the body that are read holds of the definition. -/
lemma yields_definition {p : Definition → Prop}
    (h : ∀ name body span, isAsciiIdentifier name = true → body.IsNormal → p ⟨name, body, span⟩) :
    Yields definition p := by
  refine Yields.named (Yields.bind (Yields.spanned (p := fun read : String × Expr =>
    isAsciiIdentifier read.1 = true ∧ read.2.IsNormal) ?_) fun read hread => yields_pure ?_) _
  · exact yields_identifier.bind fun _ hname => yields_true.bind fun _ _ => yields_true.bind fun _ _ =>
      yields_true.bind fun _ _ => yields_expression.bind fun _ he => yields_pure ⟨hname, he⟩
  · exact h _ _ _ hread.1 hread.2

lemma yields_wholeGrammar {p : Definition → Prop} (h : Yields definition p) :
    Yields wholeGrammar fun read : List Import × List Definition => ∀ d ∈ read.2, p d := by
  refine Yields.named ?_ _
  exact yields_true.bind fun _ _ => yields_true.bind fun _ _ => yields_true.bind fun _ _ =>
    h.bind fun first hfirst => yields_true.bind fun _ _ => h.many.bind fun others hothers =>
      yields_true.bind fun _ _ => yields_true.bind fun _ _ =>
        yields_pure (List.forall_mem_cons.mpr ⟨hfirst, hothers⟩)

lemma readText_eq_ok {reader : Reader α} {source : String} {value : α}
    (h : readText reader source = .ok value) :
    ∃ behind, (reader (.ofString source)).result = some (value, behind) := by
  unfold readText at h
  cases hresult : (reader (.ofString source)).result with
  | none => simp [hresult] at h
  | some found =>
    obtain rfl : found.1 = value := by simpa [hresult] using h
    exact ⟨found.2, rfl⟩

end Source.Reader

/-- Every expression that is read is well formed and in normal form. -/
lemma Expr.isNormal_of_read {source : String} {e : Expr} (h : Expr.read source = .ok e) :
    e.IsNormal := by
  obtain ⟨behind, hresult⟩ := Source.Reader.readText_eq_ok h
  exact Source.Reader.yields_wholeExpression _ _ _ hresult

/-- Whether a grammar was read from some text. -/
def Grammar.IsRead (g : Grammar) : Prop := ∃ source, Grammar.read source = .ok g

lemma Grammar.read_eq_ok {source : String} {g : Grammar} (h : Grammar.read source = .ok g) :
    ∃ read, Source.Reader.readText Source.Reader.wholeGrammar source = .ok read ∧
      Grammar.build read.1 read.2 ⟨0, source.utf8ByteSize⟩ = .ok g := by
  rw [Grammar.read] at h
  cases hread : Source.Reader.readText Source.Reader.wholeGrammar source with
  | error e =>
    rw [hread] at h
    cases h
  | ok read =>
    rw [hread] at h
    exact ⟨read, rfl, h⟩

lemma Grammar.IsRead.forall_definitions {g : Grammar} (hg : g.IsRead) {p : Definition → Prop}
    (h : ∀ name body span, isAsciiIdentifier name = true → body.IsNormal → p ⟨name, body, span⟩) :
    ∀ d ∈ g.definitions, p d := by
  obtain ⟨source, hsource⟩ := hg
  obtain ⟨read, hread, hbuild⟩ := Grammar.read_eq_ok hsource
  obtain ⟨behind, hresult⟩ := Source.Reader.readText_eq_ok hread
  rw [(Grammar.build_eq_ok hbuild).2.1]
  exact Source.Reader.yields_wholeGrammar (Source.Reader.yields_definition h) _ _ _ hresult

lemma Grammar.IsRead.isNormal {g : Grammar} (h : g.IsRead) : ∀ d ∈ g.definitions, d.body.IsNormal :=
  h.forall_definitions fun _ _ _ _ hbody => hbody

/-- Whether a grammar was read from a text, or put together from grammars that were. -/
def Grammar.FromTexts (g : Grammar) : Prop :=
  g.IsRead ∨ ∃ (resolve : Resolver) (depth : Nat) (rootPath? : Option String) (root : Grammar) (w : Walk),
    root.IsRead ∧ (∀ path found, resolve path = .ok found → found.IsRead) ∧
      resolve.assemble depth rootPath? root {} = .success g w

/-- What holds of every definition that is read holds of the definitions of a grammar from texts. -/
lemma Grammar.FromTexts.forall_definitions {g : Grammar} (hg : g.FromTexts) {p : Definition → Prop}
    (h : ∀ name body span, isAsciiIdentifier name = true → body.IsNormal → p ⟨name, body, span⟩) :
    ∀ d ∈ g.definitions, p d := by
  obtain hread | ⟨resolve, depth, rootPath?, root, w, hroot, hresolve, hassemble⟩ := hg
  · exact hread.forall_definitions h
  · obtain ⟨closed, hclosed, hfinish⟩ := Resolver.assemble_eq_success_iff.mp hassemble
    have hholds := (closeGrammar_holds
      (fun path found hfound => (hresolve path found hfound).forall_definitions h)
      (hroot.forall_definitions h) (by simp [Walk.Holds]) hclosed).1
    rw [(finishAssembly_eq_ok hfinish).2.1]
    exact List.forall_mem_map.mpr hholds

lemma Grammar.FromTexts.isPlain {g : Grammar} (hg : g.FromTexts) : g.isPlain = true :=
  List.all_eq_true.mpr <| hg.forall_definitions fun _ _ _ _ hbody => hbody.wellFormed.isPlain

end LabeledPeg
