import LabeledPeg.Proofs.Source.Cutting

/-!
# Expressions cut out of a text

A token ends where it ends, also with the text cut off behind it. The operators behind an
expression, and the blanks before them, belong to it, and what may follow it at its level ends it as
the end of the text does. So an expression that is cut out of a text is read again, level by level.
-/

namespace LabeledPeg

open Text Source

namespace Source

open Cursor

namespace Reader

variable {α β : Type} {r r' other other' : Reader α} {cursor middle behind : Cursor} {value : α}
  {tail : List Char} {n : Nat} {p q : Char → Prop}

/-! ## Tokens -/

lemma cuts_identifier : Cuts n p identifier identifier := by
  refine cuts_of_token oneToken_identifier (Advances.named ((advances_oneOf _).bind fun _ => ?_) _)
  exact (advances_ofCursor fun cursor => leads_identifierTail cursor.offset cursor.rest).bind
    fun _ => advances_pure _

lemma require_eq_some_iff {condition : Cursor → Bool} :
    (require condition cursor).result = some ((), behind) ↔
      condition cursor = true ∧ cursor = behind := by
  simp [require]

/-- No arrow comes about where the text is cut off. -/
lemma cuts_noArrow : Cuts n p (require fun cursor => !cursor.startsWith ['<', '-'])
    (require fun cursor => !cursor.startsWith ['<', '-']) := by
  refine ⟨fun cursor _ behind h => (require_eq_some_iff.mp h).2 ▸ .refl cursor,
    fun {cursor _ behind tail} _ _ hresult _ => ?_⟩
  obtain ⟨hnone, hsame⟩ := require_eq_some_iff.mp hresult
  refine require_eq_some_iff.mpr ⟨?_, eq_of_append hsame⟩
  simp only [startsWith_eq_isSome, Bool.not_eq_true', Option.isSome_eq_false_iff,
    Option.isNone_iff_eq_none] at hnone ⊢
  exact (local_token _).result_eq_none hnone

lemma advances_quotedWith (quote : Char) : Advances (quotedWith quote) := by
  refine (advances_token _).bind fun _ => Advances.bind ?_ fun _ => (advances_token _).bind fun _ =>
    advances_pure _
  exact advances_ofCursor fun cursor => leads_quotedBody quote cursor.offset cursor.rest

lemma cuts_literal : Cuts n p literal literal := by
  have hquoted : Cuts n p (orElse (quotedWith '\'') (quotedWith '"'))
      (orElse (quotedWith '\'') (quotedWith '"')) :=
    cuts_of_token ((oneToken_quotedWith rfl).orElse (oneToken_quotedWith rfl))
      ((advances_quotedWith _).orElse (advances_quotedWith _))
  exact hquoted.node _

/-! ## Classes -/

lemma local_classChar : Local classChar := by
  have hadvances : Advances classChar := fun cursor c behind h => by
    rw [classChar, result_named] at h
    exact leads_classChar h
  refine local_of_spelling (s := fun c written =>
    (∃ d, written = ['\\', d] ∧ unescape d = c) ∨ written = [c] ∧ ¬ (c = ']' ∨ c = '\\'))
    hadvances (fun cursor c behind h => ?_) ?_
  · rw [classChar, result_named, result_ofCursor] at h
    revert h
    fun_cases classChar? cursor with
    | case1 offset d rest =>
      intro h
      obtain ⟨rfl, rfl⟩ := Prod.mk.inj (Option.some.inj h)
      exact ⟨['\\', d], .inl ⟨d, rfl, rfl⟩, rfl⟩
    | case2 => simp
    | case3 offset d rest hescape hstop =>
      intro h
      obtain ⟨rfl, rfl⟩ := Prod.mk.inj (Option.some.inj h)
      exact ⟨[d], .inr ⟨rfl, hstop⟩, rfl⟩
    | case4 => simp
  · rintro c _ rest (⟨d, rfl, rfl⟩ | ⟨rfl, hstop⟩)
    · exact fun offset => ⟨_, _, rfl, rfl⟩
    · intro offset
      have hescape : ∀ d others, c = '\\' → rest = d :: others → False :=
        fun _ _ hc _ => hstop (.inr hc)
      refine ⟨c, offset + c.utf8Size, ?_, rfl⟩
      rw [classChar, result_named, result_ofCursor, List.singleton_append,
        classChar?.eq_2 _ c rest hescape, if_neg hstop]

lemma local_classRange : Local classRange :=
  Local.named (local_classChar.bind fun _ => (local_token _).bind fun _ =>
    local_classChar.bind fun _ => local_pure _) _

/-- A range as a class member. -/
def rangeMember : Reader Expr :=
  spanned classRange >>= fun read => pure (.range read.1.1 read.1.2 read.2)

/-- A single character as a class member. -/
def charMember : Reader Expr :=
  spanned classChar >>= fun read => pure (.literal read.1.toString read.2)

lemma result_classMember (cursor : Cursor) :
    (classMember cursor).result = (orElse rangeMember charMember cursor).result :=
  result_named _ (orElse rangeMember charMember) cursor

lemma local_rangeMember : Local rangeMember := local_classRange.spanned.bind fun _ => local_pure _

lemma local_charMember : Local charMember := local_classChar.spanned.bind fun _ => local_pure _

lemma advances_classMember : Advances classMember := fun cursor member behind h => by
  rw [result_classMember] at h
  exact local_rangeMember.advances.orElse local_charMember.advances _ _ _ h

lemma classMember_of_append {member : Expr}
    (h : (classMember (cursor.append tail)).result = some (member, behind.append tail)) :
    (classMember cursor).result = some (member, behind) := by
  rw [result_classMember] at h ⊢
  exact local_rangeMember.orElse_of_append local_charMember h

lemma length_classMember_lt {member : Expr}
    (h : (classMember cursor).result = some (member, behind)) :
    behind.rest.length < cursor.rest.length := by
  refine advances_classMember.length_lt (fun hnone => ?_) h
  have hcut : (classMember ⟨cursor.offset, []⟩).result = some (member, ⟨cursor.offset, []⟩) :=
    classMember_of_append (show (classMember (append ⟨_, []⟩ cursor.rest)).result = _ from hnone)
  rw [result_classMember] at hcut
  cases hcut

section Members

variable {members : List Expr} {limit limit' : Nat}

lemma further_members_of_close (hclose : cursor.rest.head? = some ']') :
    (further (succeed ()) classMember limit cursor).result = some ([], cursor) := by
  cases limit with
  | zero => rfl
  | succ limit =>
    have hnone : (classMember cursor).result = none := refuses_classMember hclose cursor.offset
    refine result_orElse_eq_some.mpr (.inr ⟨?_, rfl⟩)
    change ((classMember >>= fun first => further (succeed ()) classMember limit >>= fun others =>
      pure (first :: others)) cursor).result = none
    rw [result_bind, hnone, Option.bind_none]

/-- Class members up to the closing bracket are the same with the text cut off behind it. -/
lemma further_members_of_append (hclose : behind.rest.head? = some ']')
    (h : (further (succeed ()) classMember limit (cursor.append tail)).result =
      some (members, behind.append tail)) (hlimit : cursor.rest.length ≤ limit') :
    (further (succeed ()) classMember limit' cursor).result = some (members, behind) := by
  have hstop : ∀ {cursor : Cursor} {limit members}, some (([] : List Expr), cursor.append tail) =
      some (members, behind.append tail) →
        (further (succeed ()) classMember limit cursor).result = some (members, behind) := by
    intro cursor limit members h
    obtain ⟨rfl, hsame⟩ := Prod.mk.inj (Option.some.inj h)
    obtain rfl := eq_of_append hsame
    exact further_members_of_close hclose
  induction limit generalizing cursor limit' members with
  | zero => exact hstop h
  | succ limit ih =>
    rcases result_orElse_eq_some.mp h with hmore | ⟨-, hnone⟩
    · have hfurther : Advances (further (succeed ()) classMember limit) :=
        advances_further (advances_pure ()) advances_classMember limit
      obtain ⟨first, middle, hfirst, hmore, -⟩ := exists_middle advances_classMember
        (fun _ => hfurther.bind fun _ => advances_pure _) hmore
      obtain ⟨others, last, hothers, hpure⟩ := result_bind_eq_some.mp hmore
      obtain ⟨rfl, rfl⟩ := Prod.mk.inj (Option.some.inj hpure)
      have hcut := classMember_of_append hfirst
      have hshorter := length_classMember_lt hcut
      obtain ⟨limit', rfl⟩ : ∃ k, limit' = k + 1 := ⟨limit' - 1, by omega⟩
      refine result_orElse_eq_some.mpr (.inl ?_)
      refine result_bind_eq_some.mpr ⟨(), cursor, rfl, ?_⟩
      refine result_bind_eq_some.mpr ⟨first, middle, hcut, ?_⟩
      exact result_bind_eq_some.mpr ⟨others, behind, ih hothers (by omega), rfl⟩
    · exact hstop hnone

lemma result_many_members (cursor : Cursor) : (many (succeed ()) classMember cursor).result =
    (further (succeed ()) classMember (cursor.rest.length + 1) cursor).result := by
  rw [further, result_orElse]
  exact result_orElse _ _ _

end Members

lemma cuts_charClass : Cuts n p charClass charClass := by
  have hmembers : Advances (many (succeed ()) classMember) :=
    advances_many (advances_pure ()) advances_classMember
  have hclose : ∀ members : List Expr, Local (token [']'] >>= fun _ => pure members) :=
    fun members => (local_token _).bind fun _ => local_pure _
  refine Cuts.node (r := token ['['] >>= fun _ => many (succeed ()) classMember >>= fun members =>
    token [']'] >>= fun _ => pure members) ⟨(advances_token _).bind fun _ => hmembers.bind
      fun members => (hclose members).advances, fun {cursor members last tail} _ _ hresult _ => ?_⟩ _
  obtain ⟨_, inner, hopen, hresult, -⟩ := exists_middle (advances_token _)
    (fun _ => hmembers.bind fun members => (hclose members).advances) hresult
  obtain ⟨members', behind, hread, hresult, -⟩ := exists_middle hmembers
    (fun members => (hclose members).advances) hresult
  have hend := (hclose members').cut hresult
  have hbracket : behind.rest.head? = some ']' := by
    obtain ⟨_, middle, htoken, -⟩ := result_bind_eq_some.mp hend
    rw [rest_of_token htoken]
    rfl
  rw [result_many_members] at hread
  refine result_bind_eq_some.mpr ⟨(), inner, (local_token _).cut hopen, result_bind_eq_some.mpr
    ⟨members', behind, ?_, hend⟩⟩
  rw [result_many_members]
  exact further_members_of_append hbracket hread (Nat.le_succ _)

/-! ## Expressions -/

lemma cuts_any : Cuts n p any any := (local_token _).cuts.node _

lemma cuts_reference : Cuts n p reference reference :=
  cuts_identifier.spanned.bind_free fun _ => cuts_noArrow.map

lemma cuts_suffixOp : Cuts n p (optional suffixOp) (optional suffixOp) :=
  ((local_oneOf _).named _).cuts.optional ((local_oneOf _).named _).result_eq_none

lemma cuts_predicateOp : Cuts n p (optional predicateOp) (optional predicateOp) :=
  ((local_oneOf _).named _).cuts.optional ((local_oneOf _).named _).result_eq_none

lemma exists_identifier {c : Char} (hc : c ∈ cursor.rest.head?) (hletter : isAsciiStart c = true) :
    ∃ found, (identifier cursor).result = some found := by
  obtain ⟨offset, rest⟩ := cursor
  obtain ⟨others, rfl⟩ := List.head?_eq_some_iff.mp hc
  have htakes : Takes (oneOf isAsciiStart) (fun value => value = c) (c :: others) others :=
    takes_oneOf hletter
  obtain ⟨first, offset', hfirst, -⟩ := htakes offset
  refine ⟨(String.ofList (first :: (identifierTail offset' others).1),
    (identifierTail offset' others).2), ?_⟩
  rw [identifier, result_named]
  exact result_bind_eq_some.mpr ⟨first, _, hfirst, rfl⟩

/-- Where no label comes with more text at the end none comes with the text cut off. -/
lemma cuts_label : Cuts n p (optional label) (optional label) := by
  have hlabel : Cuts n p label label := (local_token _).cuts.bind_free fun _ => cuts_identifier
  refine hlabel.optional fun {cursor tail} hnone => ?_
  cases hresult : (label cursor).result with
  | none => rfl
  | some found =>
    obtain ⟨_, middle, hsign, hname⟩ := result_spaced_eq_some.mp hresult
    obtain ⟨c, hc, hletter⟩ := exists_head_of_refuses (p := fun c => isAsciiStart c = true)
      (fun _ h => refuses_identifier fun c hc => Bool.eq_false_iff.mpr (h c hc)) hname
    rw [middle.rest_skipBlanks] at hc
    have hmore : c ∈ (middle.append tail).skipBlanks.rest.head? := by
      rw [Cursor.rest_skipBlanks]
      exact head?_skip_append hc (ne_of_isAsciiStart hletter '/' (by decide))
    obtain ⟨found', hfound⟩ := exists_identifier hmore hletter
    cases hnone.symm.trans
      (result_spaced_eq_some.mpr ⟨(), _, (local_token _).append tail hsign, hfound⟩)

lemma refuses_charClass {source : List Char} (h : ∀ c ∈ source.head?, c ≠ '[') :
    Refuses charClass source := (refuses_token h).bind.node _

lemma refuses_any {source : List Char} (h : ∀ c ∈ source.head?, c ≠ '.') : Refuses any source :=
  (refuses_token h).node _

/-- The first character tells which of the tokens it is. -/
lemma cuts_enclosed : Cuts n p (orElse literal (orElse charClass any))
    (orElse literal (orElse charClass any)) := by
  refine cuts_literal.orElse (cuts_charClass.orElse cuts_any ?_) ?_
  · intro cursor value behind tail _ hresult
    refine refuses_of_append hresult (fun _ => refuses_any) (fun _ => refuses_charClass) ?_ _
    rintro _ rfl
    decide
  · intro cursor value behind tail _ hresult
    refine refuses_of_append (p := fun c => c = '[' ∨ c = '.') hresult (fun _ h => ?_)
      (q := fun c => c = '\'' ∨ c = '"') (fun _ h => refuses_literal fun c hc => ?_) ?_ _
    · exact (refuses_charClass fun c hc => (not_or.mp (h c hc)).1).orElse
        (refuses_any fun c hc => (not_or.mp (h c hc)).2)
    · exact not_or.mp (h c hc)
    · rintro c (rfl | rfl) <;> decide

section Levels

variable {nested nested' : Reader Expr} (hr : Advances nested)
  (h : ∀ m < n, Cuts m (fun c => Precedence.choice.ends c = true) nested nested')
include hr h

lemma cuts_group : Cuts n p (group nested) (group nested') := by
  have hclose : ∀ {m} (e : Expr), Cuts m p (token [')'] >>= fun _ => pure e)
      (token [')'] >>= fun _ => pure e) := fun e => (local_token _).cuts.map
  have hinside : Advances (nested >>= fun e => blanks >>= fun _ => token [')'] >>= fun _ => pure e) :=
    hr.bind fun e => advances_blanks.bind fun _ => (hclose (m := 0) e).advances
  refine cuts_behind_symbol hinside fun m hm => (h m hm).bind hclose fun e cursor value last _ hresult => .inl ?_
  -- the closing parenthesis ends what is inside
  obtain ⟨c, hc, rfl⟩ := exists_head_of_refuses (fun _ hne => (refuses_token hne).bind) hresult
  simp [Opens, hc, Precedence.ends]

/-- The first character tells which primary expression it is. -/
lemma cuts_primary : Cuts n p (primary nested) (primary nested') := by
  refine Cuts.named (cuts_reference.orElse ((cuts_group hr h).orElse cuts_enclosed ?_) ?_) _
  · intro cursor value behind tail _ hresult
    refine refuses_of_append hresult (fun _ => refuses_enclosed) (fun _ => refuses_group) ?_ _
    rintro c hc rfl
    exact absurd hc (by decide)
  · have hletters : ∀ c ∈ ['(', '\'', '"', '[', '.'], (!isAsciiStart c) = true :=
      List.all_eq_true.mp (by decide)
    intro cursor value behind tail _ hresult
    refine refuses_of_append hresult (fun _ => refuses_unnamed)
      (fun _ hletter => refuses_reference fun c hc => Bool.eq_false_iff.mpr (hletter c hc)) ?_ _
    exact fun c hc => by simpa using hletters c hc

lemma cuts_suffixed : Cuts n p (suffixed nested) (suffixed nested') :=
  Cuts.node ((cuts_primary hr h).bind_free fun _ => cuts_suffixOp.map) _

lemma cuts_labeled : Cuts n p (labeled nested) (labeled nested') :=
  Cuts.node ((cuts_suffixed hr h).bind_free fun _ => cuts_label.map) _

lemma cuts_predicate : Cuts n p (predicate nested) (predicate nested') :=
  Cuts.node (cuts_predicateOp.bind_free fun _ => (cuts_labeled hr h).map) _

omit hr h in
/-- A group of items, or the only one of them, up to where no item follows. -/
lemma cuts_collapsed {head head' item item' : Reader Expr} {group : List Expr → Span → Expr}
    (hhead : Cuts n p head head') (hitem : Cuts n p item item')
    (hbegins : ∀ {r}, r = item ∨ r = item' → ∀ cursor value behind, skip cursor.rest = cursor.rest →
      (r cursor).result = some (value, behind) → Opens p cursor.rest)
    (hqp : ∀ c, q c → p c)
    (hstop : ∀ rest, skip rest = rest → Opens q rest → Refuses item' rest) (term : Term) :
    Cuts n q
      (named term do
        let (items, span) ← spanned do
          let first ← head
          blanks
          return first :: (← many blanks item)
        return collapse group items span)
      (named term do
        let (items, span) ← spanned do
          let first ← head'
          blanks
          return first :: (← many blanks item')
        return collapse group items span) := by
  refine Cuts.node (hhead.bind (fun _ => (cuts_many hitem (hbegins (.inr rfl)) hqp hstop).map)
    fun first cursor values last hskip hresult => ?_) _
  obtain ⟨others, behind, hothers, hpure⟩ := result_bind_eq_some.mp hresult
  obtain ⟨rfl, rfl⟩ := Prod.mk.inj (Option.some.inj hpure)
  cases (repeats_of_many hskip hothers).1 with
  | nil => exact .inr ⟨rfl, hqp⟩
  | cons hvalue _ =>
    rw [skipBlanks_of_skip_eq hskip] at hvalue
    exact .inl (hbegins (.inl rfl) _ _ _ hskip hvalue)

lemma cuts_sequence :
    Cuts n (fun c => Precedence.sequence.ends c = true) (sequence nested) (sequence nested') :=
  cuts_collapsed (p := fun _ => True) (cuts_predicate hr h) (cuts_predicate hr h)
    (fun _ _ _ _ _ _ _ _ => trivial) (fun _ _ => trivial)
    (fun _ hskip hends => refuses_predicate hskip (.inl hends)) _

lemma cuts_expressionWith :
    Cuts n (fun c => Precedence.choice.ends c = true) (expressionWith nested)
      (expressionWith nested') := by
  have halternative : Cuts n (fun c => Precedence.sequence.ends c = true) (alternative nested)
      (alternative nested') := (local_token _).cuts.bind_free fun _ => cuts_sequence hr h
  refine cuts_collapsed (cuts_sequence hr h) halternative ?_
    (fun c => Precedence.ends_mono (by decide)) (fun _ _ hends => refuses_alternative (.inl hends)) _
  rintro r (rfl | rfl) cursor value behind _ hresult
  · obtain ⟨c, hc, rfl⟩ := exists_head_of_refuses (fun _ hne => (refuses_token hne).bind) hresult
    simp [Opens, hc, Precedence.ends]
  · obtain ⟨c, hc, rfl⟩ := exists_head_of_refuses (fun _ hne => (refuses_token hne).bind) hresult
    simp [Opens, hc, Precedence.ends]

end Levels

lemma cuts_expressionTo {depth depth' : Nat} (h : n < depth') :
    Cuts n (fun c => Precedence.choice.ends c = true) (expressionTo depth)
      (expressionTo depth') := by
  induction depth generalizing n depth' with
  | zero => exact ⟨advances_refuse, fun _ _ hresult _ => nomatch hresult⟩
  | succ depth ih =>
    obtain ⟨depth', rfl⟩ : ∃ k, depth' = k + 1 := ⟨depth' - 1, by omega⟩
    exact cuts_expressionWith (ih (Nat.zero_lt_succ 0)).advances fun m hm => ih (by omega)

/-- An expression at a level that is cut out of a text is read at this level, if there is room for
the parentheses in what is left of the text. -/
lemma cuts_atLevel {depth depth' : Nat} (level : Precedence) (h : n ≤ depth') :
    Cuts n (fun c => Precedence.choice.ends c = true) (atLevel (expressionTo depth) level)
      (atLevel (expressionTo depth') level) := by
  have hr : Advances (expressionTo depth) := (cuts_expressionTo (Nat.zero_lt_succ 0)).advances
  have hnested : ∀ m < n, Cuts m (fun c => Precedence.choice.ends c = true) (expressionTo depth)
      (expressionTo depth') := fun m hm => cuts_expressionTo (by omega)
  cases level with
  | choice => exact cuts_expressionWith hr hnested
  | sequence => exact (cuts_sequence hr hnested).mono fun c => Precedence.ends_mono (by decide)
  | predicate => exact cuts_predicate hr hnested
  | labeled => exact cuts_labeled hr hnested
  | suffix => exact cuts_suffixed hr hnested
  | primary => exact cuts_primary hr hnested

lemma cuts_expression :
    Cuts n (fun c => Precedence.choice.ends c = true) expression expression := by
  refine ⟨fun cursor => ?_, fun {cursor _ _ _} _ hbare hresult hrest => ?_⟩
  · have hadvances : Advances (expressionTo (cursor.rest.length + 1)) :=
      (cuts_expressionTo (Nat.zero_lt_succ 0)).advances
    exact hadvances cursor
  · exact (cuts_expressionTo (Nat.lt_succ_self cursor.rest.length)).cut (Nat.le_refl _) hbare hresult
      hrest

lemma cuts_definition :
    Cuts n (fun c => Precedence.choice.ends c = true) definition definition := by
  refine Cuts.node (cuts_identifier.bind_free fun name => ?_) _
  exact (local_token _).cuts.bind_free fun _ => cuts_expression.map

end Reader

end Source

end LabeledPeg
