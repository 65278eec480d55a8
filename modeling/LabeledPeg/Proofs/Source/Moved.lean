import LabeledPeg.Proofs.Parse.Shift
import LabeledPeg.Proofs.Source.Continuation

/-!
# The same text further on

A reader sees what is left of a text and not how much of it stands before. So a text is read as the
same tree wherever it stands, up to the spans, which all move by as much as the text does.
-/

namespace LabeledPeg

namespace Expr

mutual

/-- A node with all its spans `k` bytes further on. -/
def shift (k : Nat) : Expr → Expr
  | any span => any (span.shift k)
  | literal value span => literal value (span.shift k)
  | identifier name span => identifier name (span.shift k)
  | range lo hi span => range lo hi (span.shift k)
  | charClass members span => charClass (shiftAll k members) (span.shift k)
  | optional body span => optional (body.shift k) (span.shift k)
  | zeroOrMore body span => zeroOrMore (body.shift k) (span.shift k)
  | oneOrMore body span => oneOrMore (body.shift k) (span.shift k)
  | andPredicate body span => andPredicate (body.shift k) (span.shift k)
  | notPredicate body span => notPredicate (body.shift k) (span.shift k)
  | lexical body span => lexical (body.shift k) (span.shift k)
  | labeled label body span => labeled label (body.shift k) (span.shift k)
  | sequence items span => sequence (shiftAll k items) (span.shift k)
  | choice alternatives span => choice (shiftAll k alternatives) (span.shift k)
  | definition ⟨name, body, span⟩ => definition ⟨name, body.shift k, span.shift k⟩
  | imported ⟨path, names, span⟩ => imported ⟨path, names, span.shift k⟩
  | grammar imports definitions span =>
    grammar (imports.map fun i => ⟨i.path, i.names, i.span.shift k⟩)
      (shiftDefinitions k definitions) (span.shift k)

/-- The nodes of a list with all their spans `k` bytes further on. -/
def shiftAll (k : Nat) : List Expr → List Expr
  | [] => []
  | item :: items => item.shift k :: shiftAll k items

/-- The definitions of a list with all their spans `k` bytes further on. -/
def shiftDefinitions (k : Nat) : List Definition → List Definition
  | [] => []
  | ⟨name, body, span⟩ :: definitions =>
    ⟨name, body.shift k, span.shift k⟩ :: shiftDefinitions k definitions

end

lemma shiftAll_eq_map (k : Nat) (items : List Expr) : shiftAll k items = items.map (shift k) := by
  induction items with
  | nil => rfl
  | cons item items ih => exact congrArg (item.shift k :: ·) ih

end Expr

/-- A definition with all its spans `k` bytes further on. -/
def Rule.shift (k : Nat) (d : Definition) : Definition :=
  ⟨d.name, d.body.shift k, d.span.shift k⟩

namespace Source

/-- A place with `k` more bytes before it. -/
def Cursor.shift (k : Nat) (cursor : Cursor) : Cursor := ⟨cursor.offset + k, cursor.rest⟩

section Primitives

variable {k : Nat}

lemma next?_shift (cursor : Cursor) : (cursor.shift k).next? =
    cursor.next?.map fun (c, behind) => (c, behind.shift k) := by
  obtain ⟨offset, rest⟩ := cursor
  cases rest with
  | nil => rfl
  | cons c rest => simp [Cursor.next?, Cursor.shift, Nat.add_right_comm]

lemma after?_shift (text : List Char) (cursor : Cursor) :
    (cursor.shift k).after? text = (cursor.after? text).map (Cursor.shift k) := by
  induction text generalizing cursor with
  | nil => rfl
  | cons t text ih =>
    obtain ⟨offset, rest⟩ := cursor
    cases rest with
    | nil => rfl
    | cons c rest =>
      simp only [Cursor.shift, Cursor.after?, Nat.add_right_comm offset k]
      split
      · exact ih ⟨offset + c.utf8Size, rest⟩
      · rfl

lemma skipFrom_add (commented : Bool) (offset : Nat) (rest : List Char) :
    skipFrom commented (offset + k) rest = (skipFrom commented offset rest).shift k := by
  fun_induction skipFrom commented offset rest with
  | case1 => simp [skipFrom, Cursor.shift]
  | case2 offset rest ih => rw [skipFrom, Nat.add_right_comm, ih]
  | case3 offset c rest hcomment hblank ih =>
    rw [skipFrom.eq_3 _ c rest hcomment, if_pos hblank, Nat.add_right_comm, ih]
  | case4 offset c rest hcomment hblank =>
    rw [skipFrom.eq_3 _ c rest hcomment, if_neg hblank]
    rfl
  | case5 offset c rest ih => rw [skipFrom, Nat.add_right_comm, ih]

lemma skipBlanks_shift (cursor : Cursor) :
    (cursor.shift k).skipBlanks = cursor.skipBlanks.shift k :=
  skipFrom_add false cursor.offset cursor.rest

lemma identifierTail_add (offset : Nat) (rest : List Char) :
    identifierTail (offset + k) rest =
      ((identifierTail offset rest).1, (identifierTail offset rest).2.shift k) := by
  induction rest generalizing offset with
  | nil => rfl
  | cons c rest ih =>
    simp only [identifierTail, Nat.add_right_comm offset k, ih]
    split <;> rfl

lemma quotedBody_add (quote : Char) (offset : Nat) (rest : List Char) :
    quotedBody quote (offset + k) rest =
      ((quotedBody quote offset rest).1, (quotedBody quote offset rest).2.shift k) := by
  fun_induction quotedBody quote offset rest with
  | case1 => rfl
  | case2 offset c rest body behind hbody ih =>
    rw [hbody] at ih
    have hoffset : offset + k + 1 + c.utf8Size = offset + 1 + c.utf8Size + k := by omega
    rw [quotedBody, hoffset, ih]
  | case3 offset c rest hescape hstop =>
    rw [quotedBody.eq_3 _ _ c rest hescape, if_pos hstop]
    rfl
  | case4 offset c rest hescape hstop body behind hbody ih =>
    rw [hbody] at ih
    rw [quotedBody.eq_3 _ _ c rest hescape, if_neg hstop, Nat.add_right_comm, ih]

lemma classChar?_shift (cursor : Cursor) : classChar? (cursor.shift k) =
    (classChar? cursor).map fun (c, behind) => (c, behind.shift k) := by
  unfold Cursor.shift
  fun_cases classChar? cursor with
  | case1 offset c rest =>
    have hoffset : offset + k + 1 + c.utf8Size = offset + 1 + c.utf8Size + k := by omega
    simp [classChar?, hoffset]
  | case2 offset c rest hescape hstop => simp [classChar?.eq_2 _ c rest hescape, hstop]
  | case3 offset c rest hescape hstop =>
    simp [classChar?.eq_2 _ c rest hescape, hstop, Nat.add_right_comm]
  | case4 => rfl

end Primitives

namespace Reader

variable {α β : Type} {k : Nat} {r r' other other' : Reader α} {f : α → α} {g : β → β}

/-- Whether `r'` takes of every text that stands `k` bytes further on what `r` takes of the text, with
its values changed by `f`. -/
def Moves (k : Nat) (f : α → α) (r r' : Reader α) : Prop :=
  ∀ cursor : Cursor, (r' (cursor.shift k)).result =
    (r cursor).result.map fun (value, behind) => (f value, behind.shift k)

lemma moves_pure {value value' : α} (h : f value = value') :
    Moves k f (pure value) (pure value') := fun _ => h ▸ rfl

lemma moves_refuse : Moves k f (refuse : Reader α) refuse := fun _ => rfl

lemma Moves.bind {next next' : α → Reader β} (h : Moves k f r r')
    (hnext : ∀ value, Moves k g (next value) (next' (f value))) :
    Moves k g (r >>= next) (r' >>= next') := by
  intro cursor
  rw [result_bind, result_bind, h cursor]
  cases (r cursor).result with
  | none => rfl
  | some found => exact hnext found.1 found.2

/-- What is made of a value moves if it moves with the value. -/
lemma Moves.map {make make' : α → β} (h : Moves k f r r')
    (hmake : ∀ value, g (make value) = make' (f value)) :
    Moves k g (r >>= fun value => pure (make value)) (r' >>= fun value => pure (make' value)) :=
  h.bind fun value => moves_pure (hmake value)

lemma Moves.orElse (h : Moves k f r r') (hother : Moves k f other other') :
    Moves k f (orElse r other) (orElse r' other') := by
  intro cursor
  rw [result_orElse, result_orElse, h cursor, hother cursor]
  cases (r cursor).result <;> rfl

lemma Moves.named (h : Moves k f r r') (term : Term) :
    Moves k f (named term r) (named term r') := by
  intro cursor
  rw [result_named, result_named]
  exact h cursor

lemma Moves.spanned (h : Moves k f r r') :
    Moves k (Prod.map f (Span.shift k)) (spanned r) (spanned r') := by
  intro cursor
  rw [result_spanned, result_spanned, h cursor]
  cases (r cursor).result <;> rfl

/-- What is made of a value and its span. -/
lemma Moves.node {make : α × Span → β} (h : Moves k f r r')
    (hmake : ∀ read : α × Span, g (make read) = make (f read.1, read.2.shift k)) (term : Term) :
    Moves k g (Reader.named term (Reader.spanned r >>= fun read => pure (make read)))
      (Reader.named term (Reader.spanned r' >>= fun read => pure (make read))) :=
  Moves.named (h.spanned.map hmake) term

lemma Moves.optional (h : Moves k f r r') : Moves k (Option.map f) (optional r) (optional r') :=
  Moves.orElse (h.map fun _ => rfl) (moves_pure rfl)

lemma moves_ofCursor {step : Cursor → Option (α × Cursor)} (h : ∀ cursor : Cursor,
    step (cursor.shift k) = (step cursor).map fun (value, behind) => (f value, behind.shift k)) :
    Moves k f (ofCursor step) (ofCursor step) := h

lemma moves_require {condition : Cursor → Bool}
    (h : ∀ cursor : Cursor, condition (cursor.shift k) = condition cursor) :
    Moves k id (require condition) (require condition) := by
  refine moves_ofCursor fun cursor => ?_
  rw [h]
  split <;> rfl

section Many

variable {between : Reader Unit} {item item' : Reader α} (hbetween : Moves k id between between)
  (h : Moves k f item item')
include hbetween h

lemma moves_further (limit : Nat) :
    Moves k (List.map f) (further between item limit) (further between item' limit) := by
  induction limit with
  | zero => exact moves_pure rfl
  | succ limit ih =>
    refine Moves.orElse ?_ (moves_pure rfl)
    exact hbetween.bind fun _ => h.bind fun _ => ih.map fun _ => rfl

lemma moves_many : Moves k (List.map f) (many between item) (many between item') := by
  intro cursor
  have hsome : Moves k (List.map f)
      (item >>= fun first => further between item cursor.rest.length >>= fun others =>
        pure (first :: others))
      (item' >>= fun first => further between item' cursor.rest.length >>= fun others =>
        pure (first :: others)) :=
    h.bind fun _ => (moves_further hbetween h cursor.rest.length).map fun _ => rfl
  have hnone : Moves k (List.map f) (succeed []) (succeed []) := moves_pure rfl
  exact hsome.orElse hnone cursor

end Many

/-! ## Expressions -/

lemma moves_blanks : Moves k id blanks blanks :=
  moves_ofCursor fun cursor => congrArg some (Prod.ext rfl (skipBlanks_shift cursor))

lemma moves_oneOf (accepts : Char → Bool) : Moves k id (oneOf accepts) (oneOf accepts) := by
  refine moves_ofCursor fun cursor => ?_
  rw [next?_shift]
  cases cursor.next? with
  | none => rfl
  | some found => cases h : accepts found.1 <;> simp [Option.filter, h]

lemma moves_token (text : List Char) : Moves k id (token text) (token text) := by
  refine moves_ofCursor fun cursor => ?_
  rw [after?_shift]
  cases cursor.after? text <;> rfl

lemma moves_identifier : Moves k id identifier identifier := by
  have htail : Moves k id
      (ofCursor fun cursor => some (identifierTail cursor.offset cursor.rest))
      (ofCursor fun cursor => some (identifierTail cursor.offset cursor.rest)) :=
    moves_ofCursor fun cursor => congrArg some (identifierTail_add cursor.offset cursor.rest)
  exact Moves.named ((moves_oneOf _).bind fun _ => htail.map fun _ => by rfl) _

lemma moves_quotedWith (quote : Char) : Moves k id (quotedWith quote) (quotedWith quote) := by
  have hbody : Moves k id
      (ofCursor fun cursor => some (quotedBody quote cursor.offset cursor.rest))
      (ofCursor fun cursor => some (quotedBody quote cursor.offset cursor.rest)) :=
    moves_ofCursor fun cursor => congrArg some (quotedBody_add quote cursor.offset cursor.rest)
  exact (moves_token _).bind fun _ => hbody.bind fun _ => (moves_token _).map fun _ => rfl

lemma moves_literal : Moves k (Expr.shift k) literal literal :=
  ((moves_quotedWith '\'').orElse (moves_quotedWith '"')).node (fun _ => by rfl) _

lemma moves_classChar : Moves k id classChar classChar :=
  (moves_ofCursor classChar?_shift).named _

lemma moves_classMember : Moves k (Expr.shift k) classMember classMember := by
  have hrange : Moves k id classRange classRange := Moves.named (moves_classChar.bind fun _ =>
    (moves_token _).bind fun _ => moves_classChar.map fun _ => by rfl) _
  refine Moves.named (fun cursor => Moves.orElse ?_ ?_ cursor) _
  · exact hrange.spanned.map fun _ => rfl
  · exact moves_classChar.spanned.map fun _ => rfl

lemma moves_charClass : Moves k (Expr.shift k) charClass charClass := by
  refine Moves.node (f := List.map (Expr.shift k)) ?_
    (fun _ => by rw [← Expr.shiftAll_eq_map]; rfl) _
  exact (moves_token _).bind fun _ => (moves_many (moves_pure rfl) moves_classMember).bind fun _ =>
    (moves_token _).map fun _ => rfl

lemma moves_any : Moves k (Expr.shift k) any any :=
  (moves_token _).node (fun _ => by rfl) _

lemma moves_reference : Moves k (Expr.shift k) reference reference := by
  have harrow : Moves k id (require fun behind => !behind.startsWith ['<', '-'])
      (require fun behind => !behind.startsWith ['<', '-']) := by
    refine moves_require fun cursor => ?_
    rw [Cursor.startsWith, after?_shift, Option.isSome_map]
    rfl
  exact moves_identifier.spanned.bind fun _ => moves_blanks.bind fun _ => harrow.map fun _ => rfl

lemma shift_applySuffix (op? : Option Char) (body : Expr) (span : Span) :
    (applySuffix op? body span).shift k = applySuffix op? (body.shift k) (span.shift k) := by
  unfold applySuffix
  split <;> rfl

lemma shift_applyLabel (label? : Option String) (body : Expr) (span : Span) :
    (applyLabel label? body span).shift k = applyLabel label? (body.shift k) (span.shift k) := by
  unfold applyLabel
  split <;> rfl

lemma shift_applyPredicate (op? : Option Char) (body : Expr) (span : Span) :
    (applyPredicate op? body span).shift k = applyPredicate op? (body.shift k) (span.shift k) := by
  unfold applyPredicate
  split <;> rfl

/-- A group moves if the node of its own that it may become does. -/
lemma shift_collapse {group : List Expr → Span → Expr} (hgroup : ∀ items span,
      (group items span).shift k = group (items.map (Expr.shift k)) (span.shift k))
    (items : List Expr) (span : Span) : (collapse group items span).shift k =
      collapse group (items.map (Expr.shift k)) (span.shift k) := by
  match items with
  | [] | _ :: _ :: _ => exact hgroup _ _
  | [only] => rfl

section Levels

variable {nested : Reader Expr} (h : Moves k (Expr.shift k) nested nested)
include h

lemma moves_primary : Moves k (Expr.shift k) (primary nested) (primary nested) := by
  have hgroup : Moves k (Expr.shift k) (group nested) (group nested) :=
    (moves_token _).bind fun _ => moves_blanks.bind fun _ => h.bind fun _ =>
      moves_blanks.bind fun _ => (moves_token _).map fun _ => rfl
  exact (moves_reference.orElse (hgroup.orElse (moves_literal.orElse
    (moves_charClass.orElse moves_any)))).named _

lemma moves_suffixed : Moves k (Expr.shift k) (suffixed nested) (suffixed nested) := by
  have hop : Moves k id suffixOp suffixOp := (moves_oneOf _).named _
  refine Moves.node (f := Prod.map (Expr.shift k) (Option.map id)) ?_
    (fun read => by rw [shift_applySuffix, Option.map_id]; rfl) _
  exact (moves_primary h).bind fun _ => moves_blanks.bind fun _ => hop.optional.map fun _ => rfl

lemma moves_labeled : Moves k (Expr.shift k) (labeled nested) (labeled nested) := by
  have hlabel : Moves k id label label :=
    (moves_token _).bind fun _ => moves_blanks.bind fun _ => moves_identifier
  refine Moves.node (f := Prod.map (Expr.shift k) (Option.map id)) ?_
    (fun read => by rw [shift_applyLabel, Option.map_id]; rfl) _
  exact (moves_suffixed h).bind fun _ => moves_blanks.bind fun _ => hlabel.optional.map fun _ => rfl

lemma moves_predicate : Moves k (Expr.shift k) (predicate nested) (predicate nested) := by
  have hop : Moves k id predicateOp predicateOp := (moves_oneOf _).named _
  refine Moves.node (f := Prod.map (Option.map id) (Expr.shift k)) ?_
    (fun read => by rw [shift_applyPredicate, Option.map_id]; rfl) _
  exact hop.optional.bind fun _ => moves_blanks.bind fun _ => (moves_labeled h).map fun _ => rfl

omit h in
/-- One item after the other, the first one without what stands before the others. -/
lemma moves_collapsed {head item : Reader Expr} {group : List Expr → Span → Expr}
    (hhead : Moves k (Expr.shift k) head head) (hitem : Moves k (Expr.shift k) item item)
    (hgroup : ∀ items span,
      (group items span).shift k = group (items.map (Expr.shift k)) (span.shift k)) (term : Term) :
    let r : Reader Expr := named term do
      let (items, span) ← spanned do
        let first ← head
        blanks
        return first :: (← many blanks item)
      return collapse group items span
    Moves k (Expr.shift k) r r := by
  refine Moves.node (f := List.map (Expr.shift k)) ?_ (fun read => shift_collapse hgroup _ _) _
  exact hhead.bind fun _ => moves_blanks.bind fun _ =>
    (moves_many moves_blanks hitem).map fun _ => rfl

lemma moves_sequence : Moves k (Expr.shift k) (sequence nested) (sequence nested) :=
  moves_collapsed (moves_predicate h) (moves_predicate h)
    (fun _ _ => by rw [← Expr.shiftAll_eq_map]; rfl) _

lemma moves_expressionWith :
    Moves k (Expr.shift k) (expressionWith nested) (expressionWith nested) := by
  have halternative : Moves k (Expr.shift k) (alternative nested) (alternative nested) :=
    (moves_token _).bind fun _ => moves_blanks.bind fun _ => moves_sequence h
  exact moves_collapsed (moves_sequence h) halternative
    (fun _ _ => by rw [← Expr.shiftAll_eq_map]; rfl) _

end Levels

lemma moves_expressionTo (depth : Nat) :
    Moves k (Expr.shift k) (expressionTo depth) (expressionTo depth) := by
  induction depth with
  | zero => exact moves_refuse
  | succ depth ih => exact moves_expressionWith ih

lemma moves_atLevel (depth : Nat) (level : Precedence) :
    Moves k (Expr.shift k) (atLevel (expressionTo depth) level)
      (atLevel (expressionTo depth) level) := by
  have hnested := moves_expressionTo (k := k) depth
  cases level with
  | choice => exact moves_expressionWith hnested
  | sequence => exact moves_sequence hnested
  | predicate => exact moves_predicate hnested
  | labeled => exact moves_labeled hnested
  | suffix => exact moves_suffixed hnested
  | primary => exact moves_primary hnested

lemma moves_definition : Moves k (Rule.shift k) definition definition := by
  have hexpression : Moves k (Expr.shift k) expression expression :=
    fun cursor => moves_expressionTo (cursor.rest.length + 1) cursor
  refine Moves.node (f := Prod.map id (Expr.shift k)) ?_ (fun _ => by rfl) _
  exact moves_identifier.bind fun _ => moves_blanks.bind fun _ => (moves_token _).bind fun _ =>
    moves_blanks.bind fun _ => hexpression.map fun _ => rfl

end Reader

end Source

end LabeledPeg
