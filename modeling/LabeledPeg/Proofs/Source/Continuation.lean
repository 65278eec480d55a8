import LabeledPeg.Proofs.Source.Insertion
import LabeledPeg.Proofs.Source.Place

/-!
# A text with more text behind it

Text that is put behind a grammar text, from a line break on, changes nothing of what is read before
it: a comment at the end is over with the line, and where the text was over, a definition begins, which
goes on with no expression.
-/

namespace LabeledPeg

open Text Source

namespace Source

variable {more rest piece behind : List Char}

lemma length_skipFrom_le (commented : Bool) (offset : Nat) (source : List Char) :
    (skipFrom commented offset source).rest.length ≤ source.length := by
  obtain ⟨taken, hrest, -⟩ := leads_skipFrom commented offset source
  have hlength : source.length =
      taken.toList.length + (skipFrom commented offset source).rest.length := by
    rw [← List.length_append]
    exact congrArg List.length hrest
  omega

lemma skip_eq_self_iff {c : Char} :
    skip (c :: rest) = c :: rest ↔ isBlank c = false ∧ (c = '/' → rest.head? ≠ some '/') := by
  constructor
  · intro h
    -- what is skipped makes a text shorter
    have hshorter : ∀ commented offset, skip (c :: rest) ≠ (skipFrom commented offset rest).rest := by
      intro commented offset heq
      have hle := length_skipFrom_le commented offset rest
      rw [← heq, h, List.length_cons] at hle
      omega
    refine ⟨by_contra fun hblank => ?_, ?_⟩
    · exact hshorter false 0 (skip_blank (by simpa using hblank))
    · rintro rfl hslash
      obtain ⟨others, rfl⟩ := List.head?_eq_some_iff.mp hslash
      refine hshorter true 1 ?_
      rw [skip, skipFrom, skipFrom]
      exact rest_skipFrom _ _ _ _
  · rintro ⟨hblank, hslash⟩
    by_cases hc : c = '/'
    · subst hc
      cases rest with
      | nil => simp [skip, skipFrom, isBlank]
      | cons d rest => exact skip_slash fun hd => hslash rfl (by rw [hd]; rfl)
    · exact skip_cons hblank hc

/-- A token that has the character that ends it still ends where a line does. -/
lemma Ends.append (h : Ends piece behind.head?) (hclosed : IsClosed piece)
    (hline : ∀ c ∈ more.head?, isLineEnd c = true) : Ends piece (behind ++ more).head? := by
  cases behind with
  | cons c behind => exact h
  | nil =>
    cases more with
    | nil => exact h
    | cons c more =>
      have hc := hline c rfl
      have hslash : piece = ['/'] → c ≠ '/' := by
        rintro - rfl
        exact absurd hc (by decide)
      rcases h.before_blank hclosed (.inl (isBlank_of_isLineEnd hc)) hslash with
        hends | ⟨body, rfl, hbody, -⟩
      · exact hends
      · exact .comment hbody hline

lemma skip_skip_append (hline : ∀ c ∈ more.head?, isLineEnd c = true) (rest : List Char) :
    skip (skip rest ++ more) = skip (rest ++ more) := by
  generalize hpieces : pieces rest = all
  induction all generalizing rest with
  | nil =>
    obtain rfl : rest = [] := by rw [← flatten_pieces rest, hpieces]; rfl
    rw [skip_nil]
  | cons piece others ih =>
    obtain ⟨behind, rfl, hends, hbehind⟩ := pieces_eq_cons hpieces
    rw [skip_of_ends hends]
    split
    · next hgap =>
      rw [ih behind hbehind, List.append_assoc,
        skip_of_ends (hends.append (isClosed_of_isGap hgap) hline), if_pos hgap]
    · rfl

/-- Nothing is skipped before a text that is not over either if more is put behind it. -/
lemma skip_append_of_skip_eq (hline : ∀ c ∈ more.head?, isLineEnd c = true)
    (hskip : skip rest = rest) (hne : rest ≠ []) : skip (rest ++ more) = rest ++ more := by
  obtain ⟨c, rest, rfl⟩ := List.exists_cons_of_ne_nil hne
  obtain ⟨hblank, hslash⟩ := skip_eq_self_iff.mp hskip
  refine skip_eq_self_iff.mpr ⟨hblank, fun hc => ?_⟩
  cases rest with
  | nil => exact fun hmore => absurd (hline '/' hmore) (by decide)
  | cons d rest => exact hslash hc

end Source

section Joins

variable {more rest : List Char} {level : Precedence}

lemma BeginsDefinition.append {source : List Char} (h : BeginsDefinition source)
    (hline : ∀ c ∈ more.head?, isLineEnd c = true) : BeginsDefinition (source ++ more) := by
  obtain ⟨name, behind, after, hname, rfl, hword, hskip⟩ := h
  have hne : behind ≠ [] := by
    rintro rfl
    simp [skip_nil] at hskip
  refine ⟨name, behind ++ more, after ++ more, hname, List.append_assoc _ _ _, ?_, ?_⟩
  · rwa [List.head?_append_of_ne_nil _ hne]
  · rw [← skip_skip_append hline, hskip]
    exact skip_cons (by decide) (by decide)

/-- Whether a text can stand behind a grammar text: if there is any, it begins with a line break, and
then with a definition. -/
structure Joins (more : List Char) : Prop where
  line : ∀ c ∈ more.head?, isLineEnd c = true
  start : skip more = [] ∨ BeginsDefinition (skip more)

/-- Where a text is over, a definition begins or nothing is left. Elsewhere it goes on as it did. -/
lemma Joins.cases (h : Joins more) (rest : List Char) :
    skip rest = [] ∧ (skip (rest ++ more) = [] ∨ BeginsDefinition (skip (rest ++ more))) ∨
      skip rest ≠ [] ∧ skip (rest ++ more) = skip rest ++ more := by
  rw [← skip_skip_append h.line]
  by_cases hnil : skip rest = []
  · rw [hnil]
    exact .inl ⟨rfl, h.start⟩
  · exact .inr ⟨hnil, skip_append_of_skip_eq h.line (skip_skip rest) hnil⟩

lemma BeginsDefinition.skip_append (h : BeginsDefinition (skip rest)) (hmore : Joins more) :
    BeginsDefinition (skip (rest ++ more)) := by
  rcases hmore.cases rest with ⟨hnil, -⟩ | ⟨-, hrest⟩
  · obtain ⟨name, behind, after, -, heq, -, hskip⟩ := h
    rw [hnil] at heq
    rw [(List.append_eq_nil_iff.mp heq.symm).2, skip_nil] at hskip
    cases hskip
  · rw [hrest]
    exact h.append hmore.line

/-- A character that comes first only with more text is a letter. -/
lemma Joins.head (h : Joins more) (rest : List Char) : ∀ c ∈ (skip (rest ++ more)).head?,
    (skip rest).head? = some c ∨ isAsciiStart c = true := by
  intro c hc
  rcases h.cases rest with ⟨-, hover | hdefinition⟩ | ⟨hne, hrest⟩
  · rw [hover] at hc
    cases hc
  · exact .inr (hdefinition.isAsciiStart c hc)
  · rw [hrest, List.head?_append_of_ne_nil _ hne] at hc
    exact .inl hc

lemma Precedence.Stops.append (h : level.Stops (skip rest)) (hmore : Joins more) :
    level.Stops (skip (rest ++ more)) := by
  rcases h with hends | hdefinition
  · rcases hmore.cases rest with ⟨-, hover | hdefinition⟩ | ⟨hne, hrest⟩
    · rw [hover]
      exact .inl (by simp)
    · exact .inr hdefinition
    · rw [hrest]
      exact .inl (by rwa [List.head?_append_of_ne_nil _ hne])
  · exact .inr (hdefinition.skip_append hmore)

end Joins

namespace Source

/-- Whether the same is left at two places, blanks apart, but that the second one has more text behind
it. -/
def Cursor.Continued (more : List Char) (cursor cursor' : Cursor) : Prop :=
  skip cursor'.rest = skip (cursor.rest ++ more)

/-- Whether the second of two places has more text behind it, with nothing to skip before either. -/
structure Cursor.Ready (more : List Char) (cursor cursor' : Cursor) : Prop where
  skip_eq : skip cursor.rest = cursor.rest
  rest_eq : cursor'.rest = skip (cursor.rest ++ more)

namespace Cursor

variable {more : List Char} {cursor cursor' : Cursor}

lemma skipBlanks_of_skip_eq (h : skip cursor.rest = cursor.rest) : cursor.skipBlanks = cursor := by
  obtain ⟨taken, hrest, hoffset⟩ := leads_skipFrom false cursor.offset cursor.rest
  have hsame : cursor.skipBlanks.rest = cursor.rest := cursor.rest_skipBlanks.trans h
  obtain rfl : taken = "" := by
    change cursor.rest = taken.toList ++ cursor.skipBlanks.rest at hrest
    simpa [hsame] using hrest
  have hstart : cursor.skipBlanks.offset = cursor.offset := hoffset.trans (by simp)
  calc cursor.skipBlanks = ⟨cursor.skipBlanks.offset, cursor.skipBlanks.rest⟩ := rfl
    _ = ⟨cursor.offset, cursor.rest⟩ := by rw [hstart, hsame]
    _ = cursor := rfl

lemma skip_skipBlanks (cursor : Cursor) : skip cursor.skipBlanks.rest = cursor.skipBlanks.rest := by
  rw [cursor.rest_skipBlanks, skip_skip]

lemma skipBlanks_skipBlanks (cursor : Cursor) : cursor.skipBlanks.skipBlanks = cursor.skipBlanks :=
  skipBlanks_of_skip_eq cursor.skip_skipBlanks

lemma Continued.skipBlanks (h : Continued more cursor cursor') (hmore : Joins more) :
    Ready more cursor.skipBlanks cursor'.skipBlanks := by
  refine ⟨cursor.skip_skipBlanks, ?_⟩
  rw [cursor.rest_skipBlanks, cursor'.rest_skipBlanks, skip_skip_append hmore.line]
  exact h

lemma Ready.continued (h : Ready more cursor cursor') : Continued more cursor cursor' := by
  rw [Continued, h.rest_eq, skip_skip]

lemma Ready.skip_eq' (h : Ready more cursor cursor') : skip cursor'.rest = cursor'.rest := by
  rw [h.rest_eq, skip_skip]

/-- Where a text is over, a definition begins or nothing is left. Elsewhere it goes on as it did. -/
lemma Ready.cases (h : Ready more cursor cursor') (hmore : Joins more) :
    cursor.rest = [] ∧ (cursor'.rest = [] ∨ BeginsDefinition cursor'.rest) ∨
      cursor.rest ≠ [] ∧ cursor'.rest = cursor.rest ++ more := by
  have hcases := hmore.cases cursor.rest
  rwa [h.skip_eq, ← h.rest_eq] at hcases

lemma Ready.head (h : Ready more cursor cursor') (hmore : Joins more) :
    ∀ c ∈ cursor'.rest.head?, cursor.rest.head? = some c ∨ isAsciiStart c = true := by
  have hhead := hmore.head cursor.rest
  rwa [h.skip_eq, ← h.rest_eq] at hhead

lemma Ready.head_eq {c : Char} (h : Ready more cursor cursor') (hmore : Joins more)
    (hc : cursor.rest.head? = some c) : cursor'.rest.head? = some c := by
  rcases h.cases hmore with ⟨hnil, -⟩ | ⟨hne, hrest⟩
  · rw [hnil] at hc
    cases hc
  · rw [hrest, List.head?_append_of_ne_nil _ hne, hc]

lemma Ready.length_le (h : Ready more cursor cursor') (hmore : Joins more) :
    cursor.rest.length ≤ cursor'.rest.length := by
  rcases h.cases hmore with ⟨hrest, -⟩ | ⟨-, hrest⟩
  · rw [hrest]
    exact Nat.zero_le _
  · rw [hrest, List.length_append]
    exact Nat.le_add_right _ _

end Cursor

namespace Reader

open Cursor

variable {α β : Type} {more : List Char} {r r' other other' : Reader α} {rel : α → α → Prop}
  {follows follows' : List Char → Prop}

/-- Whether `r'` takes, where there is more text behind, what `r` takes where the text is over. What
is left behind it, blanks apart, has to satisfy `follows`: otherwise `r` may have stopped for want of
text. -/
def Continues (more : List Char) (rel : α → α → Prop) (follows : List Char → Prop)
    (r r' : Reader α) : Prop :=
  ∀ cursor cursor' value behind, Ready more cursor cursor' →
    (r cursor).result = some (value, behind) → follows (skip behind.rest) →
      ∃ value' behind', (r' cursor').result = some (value', behind') ∧ rel value value' ∧
        Continued more behind behind'

lemma Continues.named (h : Continues more rel follows r r') (term : Term) :
    Continues more rel follows (named term r) (named term r') := by
  intro cursor cursor' value behind hready hresult hrest
  rw [result_named] at hresult ⊢
  exact h cursor cursor' value behind hready hresult hrest

lemma Continues.spanned (h : Continues more rel follows r r') :
    Continues more (fun read read' => rel read.1 read'.1) follows (spanned r) (spanned r') := by
  intro cursor cursor' read behind hready hresult hrest
  rw [result_spanned] at hresult
  obtain ⟨⟨value, behind⟩, hvalue, heq⟩ := Option.map_eq_some_iff.mp hresult
  obtain ⟨rfl, rfl⟩ := Prod.mk.inj heq
  obtain ⟨value', behind', hvalue', hrel, hbehind⟩ :=
    h cursor cursor' value behind hready hvalue hrest
  exact ⟨(value', ⟨cursor'.offset, behind'.offset⟩), behind', by rw [result_spanned, hvalue']; rfl,
    hrel, hbehind⟩

lemma Continues.map {rel' : β → β → Prop} {f f' : α → β} (h : Continues more rel follows r r')
    (hf : ∀ value value', rel value value' → rel' (f value) (f' value')) :
    Continues more rel' follows (r >>= fun value => pure (f value))
      (r' >>= fun value => pure (f' value)) := by
  intro cursor cursor' result behind hready hresult hrest
  obtain ⟨value, behind, hvalue, hpure⟩ := result_bind_eq_some.mp hresult
  obtain ⟨rfl, rfl⟩ := Prod.mk.inj (Option.some.inj hpure)
  obtain ⟨value', behind', hvalue', hrel, hbehind⟩ :=
    h cursor cursor' value behind hready hvalue hrest
  exact ⟨f' value', behind', (result_bind_of_result hvalue').trans rfl, hf _ _ hrel, hbehind⟩

/-- What is made of a value and its span. -/
lemma Continues.node {q : α → α → Prop} {rel' : β → β → Prop} {f f' : α × Span → β}
    (h : Continues more q follows r r')
    (hf : ∀ read read', q read.1 read'.1 → rel' (f read) (f' read')) (term : Term) :
    Continues more rel' follows (Reader.named term (Reader.spanned r >>= fun read => pure (f read)))
      (Reader.named term (Reader.spanned r' >>= fun read => pure (f' read))) :=
  (h.spanned.map hf).named term

lemma result_blanks_bind (cursor : Cursor) :
    ((blanks >>= fun _ => r) cursor).result = (r cursor.skipBlanks).result :=
  result_bind_of_result (show (blanks cursor).result = some ((), cursor.skipBlanks) from rfl)

/-- One reader behind another, blanks between them, reads what the two of them read. -/
lemma result_spaced_eq_some {r : Reader α} {next : α → Reader β} {cursor last : Cursor} {value : β} :
    ((r >>= fun first => blanks >>= fun _ => next first) cursor).result = some (value, last) ↔
      ∃ first middle, (r cursor).result = some (first, middle) ∧
        (next first middle.skipBlanks).result = some (value, last) := by
  simp only [result_bind_eq_some (r := r), result_blanks_bind]

/-- One reader behind another, blanks between them. What the second one takes has to follow the
first. -/
lemma Continues.bind {rel' : β → β → Prop} {next next' : α → Reader β}
    (h : Continues more rel follows r r') (hmore : Joins more)
    (hfollows : ∀ first cursor value last, skip cursor.rest = cursor.rest →
      (next first cursor).result = some (value, last) → follows' (skip last.rest) →
        follows cursor.rest)
    (hnext : ∀ first first', rel first first' →
      Continues more rel' follows' (next first) (next' first')) :
    Continues more rel' follows' (r >>= fun value => blanks >>= fun _ => next value)
      (r' >>= fun value => blanks >>= fun _ => next' value) := by
  intro cursor cursor' value last hready hresult hrest
  obtain ⟨first, middle, hfirst, hvalue⟩ := result_bind_eq_some.mp hresult
  rw [result_blanks_bind] at hvalue
  have hmiddle := hfollows first _ _ _ middle.skip_skipBlanks hvalue hrest
  rw [middle.rest_skipBlanks] at hmiddle
  obtain ⟨first', middle', hfirst', hrel, hcontinued⟩ := h _ _ _ _ hready hfirst hmiddle
  obtain ⟨value', last', hvalue', hrel', hlast⟩ :=
    hnext first first' hrel _ _ _ _ (hcontinued.skipBlanks hmore) hvalue hrest
  refine ⟨value', last', ?_, hrel', hlast⟩
  rw [result_bind_of_result hfirst', result_blanks_bind, hvalue']

/-- One reader behind another that does not look at what is behind it. -/
lemma Continues.bind_free {rel' : β → β → Prop} {next next' : α → Reader β}
    (h : Continues more rel (fun _ => True) r r') (hmore : Joins more)
    (hnext : ∀ first first', rel first first' →
      Continues more rel' follows' (next first) (next' first')) :
    Continues more rel' follows' (r >>= fun value => blanks >>= fun _ => next value)
      (r' >>= fun value => blanks >>= fun _ => next' value) :=
  h.bind hmore (fun _ _ _ _ _ _ _ => trivial) hnext

/-- One of two readers. The first one has to refuse also with more text behind it what the second one
takes. -/
lemma Continues.orElse (h : Continues more rel follows r r')
    (hother : Continues more rel follows other other')
    (hrefuses : ∀ cursor cursor' value behind, Ready more cursor cursor' →
      (r cursor).result = none → (other cursor).result = some (value, behind) →
        follows (skip behind.rest) → Refuses r' cursor'.rest) :
    Continues more rel follows (orElse r other) (orElse r' other') := by
  intro cursor cursor' value behind hready hresult hrest
  rcases result_orElse_eq_some.mp hresult with hfirst | ⟨hnone, hsecond⟩
  · obtain ⟨value', behind', hvalue', hread⟩ := h _ _ _ _ hready hfirst hrest
    exact ⟨value', behind', result_orElse_eq_some.mpr (.inl hvalue'), hread⟩
  · obtain ⟨value', behind', hvalue', hread⟩ := hother _ _ _ _ hready hsecond hrest
    have hnone' := hrefuses _ _ _ _ hready hnone hsecond hrest cursor'.offset
    exact ⟨value', behind', result_orElse_eq_some.mpr (.inr ⟨hnone', hvalue'⟩), hread⟩

lemma continues_pure {value value' : α} (h : rel value value') :
    Continues more rel follows (pure value) (pure value') := by
  intro cursor cursor' result behind hready hresult _
  obtain ⟨rfl, rfl⟩ := Prod.mk.inj (Option.some.inj hresult)
  exact ⟨value', cursor', rfl, h, hready.continued⟩

lemma Continues.optional (h : Continues more Eq follows r r)
    (hrefuses : ∀ cursor cursor', Ready more cursor cursor' → (r cursor).result = none →
      follows cursor.rest → Refuses r cursor'.rest) :
    Continues more Eq follows (optional r) (optional r) := by
  refine (h.map fun _ _ hvalue => congrArg some hvalue).orElse (continues_pure rfl)
    fun cursor cursor' value? behind hready hnone hresult hrest => ?_
  obtain ⟨-, rfl⟩ := Prod.mk.inj (Option.some.inj hresult)
  have hrefused : (r cursor).result = none := by
    rw [result_bind] at hnone
    cases hvalue : (r cursor).result with
    | none => rfl
    | some found => simp [hvalue] at hnone
  rw [hready.skip_eq] at hrest
  exact (hrefuses cursor cursor' hready hrefused hrest).bind

/-! ## Items -/

/-- Whether items are taken one after the other, blanks before each, from one place to another. -/
inductive Repeats (item : Reader α) : Cursor → List α → Cursor → Prop
  | nil (cursor : Cursor) : Repeats item cursor [] cursor
  | cons {cursor middle last : Cursor} {value : α} {values : List α}
    (h : (item cursor.skipBlanks).result = some (value, middle))
    (hrest : Repeats item middle values last) : Repeats item cursor (value :: values) last

section Items

variable {item item' : Reader α} {cursor cursor' middle last : Cursor} {values others : List α}
  {limit : Nat}

lemma Repeats.append (h : Repeats item cursor values middle)
    (hothers : Repeats item middle others last) : Repeats item cursor (values ++ others) last := by
  induction h with
  | nil => exact hothers
  | cons h _ ih => exact .cons h (ih hothers)

lemma repeats_of_further (h : (further blanks item limit cursor).result = some (values, last)) :
    Repeats item cursor values last ∧ values.length ≤ limit := by
  induction limit generalizing cursor values with
  | zero =>
    obtain ⟨rfl, rfl⟩ := Prod.mk.inj (Option.some.inj h)
    exact ⟨.nil _, Nat.le_refl 0⟩
  | succ limit ih =>
    rcases result_orElse_eq_some.mp h with hmore | ⟨-, hstop⟩
    · rw [result_blanks_bind] at hmore
      obtain ⟨first, middle, hfirst, hmore⟩ := result_bind_eq_some.mp hmore
      obtain ⟨others, behind, hothers, hpure⟩ := result_bind_eq_some.mp hmore
      obtain ⟨rfl, rfl⟩ := Prod.mk.inj (Option.some.inj hpure)
      obtain ⟨hrepeats, hlength⟩ := ih hothers
      exact ⟨.cons hfirst hrepeats, Nat.succ_le_succ hlength⟩
    · obtain ⟨rfl, rfl⟩ := Prod.mk.inj (Option.some.inj hstop)
      exact ⟨.nil _, Nat.zero_le _⟩

lemma Repeats.further (h : Repeats item cursor values last) (hlength : values.length ≤ limit)
    (hstop : Refuses item (skip last.rest)) :
    (further blanks item limit cursor).result = some (values, last) := by
  induction h generalizing limit with
  | nil cursor =>
    cases limit with
    | zero => rfl
    | succ limit =>
      rw [← cursor.rest_skipBlanks] at hstop
      refine result_orElse_eq_some.mpr (.inr ⟨?_, rfl⟩)
      rw [result_blanks_bind]
      exact hstop.bind cursor.skipBlanks.offset
  | cons hvalue _ ih =>
    obtain ⟨limit, rfl⟩ : ∃ k, limit = k + 1 := ⟨limit - 1, by simp at hlength; omega⟩
    refine result_orElse_eq_some.mpr (.inl ?_)
    rw [result_blanks_bind]
    refine result_bind_eq_some.mpr ⟨_, _, hvalue, result_bind_eq_some.mpr ⟨_, _, ih ?_ hstop, rfl⟩⟩
    simpa using hlength

lemma repeats_of_many (hskip : skip cursor.rest = cursor.rest)
    (h : (many blanks item cursor).result = some (values, last)) :
    Repeats item cursor values last ∧ values.length ≤ cursor.rest.length + 1 := by
  rcases result_orElse_eq_some.mp h with hmore | ⟨-, hstop⟩
  · obtain ⟨first, middle, hfirst, hmore⟩ := result_bind_eq_some.mp hmore
    obtain ⟨others, behind, hothers, hpure⟩ := result_bind_eq_some.mp hmore
    obtain ⟨rfl, rfl⟩ := Prod.mk.inj (Option.some.inj hpure)
    obtain ⟨hrepeats, hlength⟩ := repeats_of_further hothers
    rw [← skipBlanks_of_skip_eq hskip] at hfirst
    exact ⟨.cons hfirst hrepeats, Nat.succ_le_succ hlength⟩
  · obtain ⟨rfl, rfl⟩ := Prod.mk.inj (Option.some.inj hstop)
    exact ⟨.nil _, Nat.zero_le _⟩

lemma Repeats.many (h : Repeats item cursor values last) (hskip : skip cursor.rest = cursor.rest)
    (hlength : values.length ≤ cursor.rest.length + 1) (hstop : Refuses item (skip last.rest)) :
    (many blanks item cursor).result = some (values, last) := by
  cases h with
  | nil =>
    rw [hskip] at hstop
    exact result_orElse_eq_some.mpr (.inr ⟨hstop.bind cursor.offset, rfl⟩)
  | cons hvalue hrest =>
    rw [skipBlanks_of_skip_eq hskip] at hvalue
    have hothers := hrest.further (Nat.le_of_succ_le_succ hlength) hstop
    refine result_orElse_eq_some.mpr (.inl ?_)
    exact result_bind_eq_some.mpr ⟨_, _, hvalue, result_bind_eq_some.mpr ⟨_, _, hothers, rfl⟩⟩

/-- What holds where an item begins and where the items are over holds where they begin. -/
lemma Repeats.start (h : Repeats item cursor values last)
    (hbegins : ∀ cursor value behind, skip cursor.rest = cursor.rest →
      (item cursor).result = some (value, behind) → follows cursor.rest)
    (hlast : follows (skip last.rest)) : follows (skip cursor.rest) := by
  cases h with
  | nil => exact hlast
  | cons hvalue =>
    rw [← cursor.rest_skipBlanks]
    exact hbegins _ _ _ cursor.skip_skipBlanks hvalue

/-- Blanks before the items make no difference. -/
lemma Repeats.of_skipBlanks (h : Repeats item cursor values last)
    (hblanks : cursor'.skipBlanks = cursor.skipBlanks) :
    ∃ last', Repeats item cursor' values last' ∧ skip last'.rest = skip last.rest := by
  cases h with
  | nil =>
    refine ⟨cursor', .nil _, ?_⟩
    rw [← cursor'.rest_skipBlanks, hblanks, cursor.rest_skipBlanks]
  | cons hvalue hrest => exact ⟨last, .cons (hblanks ▸ hvalue) hrest, rfl⟩

/-- Each item takes a token. -/
lemma Repeats.length_le (h : Repeats item cursor values last)
    (hitem : ∀ all n, Alike all n rel item item) : values.length ≤ (tokens cursor.rest).length := by
  induction h with
  | nil => exact Nat.zero_le _
  | @cons cursor middle last value values hvalue _ ih =>
    have hpoised : Poised (tokens cursor.skipBlanks.rest) (tokens cursor.skipBlanks.rest).length
        cursor.skipBlanks cursor.skipBlanks :=
      ⟨⟨rfl, ⟨[], rfl, List.forall_mem_nil _⟩, Nat.le_refl _⟩, cursor.skip_skipBlanks,
        cursor.skip_skipBlanks⟩
    rcases (hitem _ _ _ _ hpoised).cases with ⟨hnone, -⟩ | ⟨_, _, behind, _, hread, -, -, m, hm, hpast⟩
    · cases hnone.symm.trans hvalue
    · obtain ⟨rfl, rfl⟩ := Prod.mk.inj (Option.some.inj (hread.symm.trans hvalue))
      have hfewer := hpast.length_le
      rw [cursor.rest_skipBlanks, tokens_skip] at hm
      rw [List.length_cons]
      omega

/-- With more text behind them items are taken likewise if each of them can follow another. -/
lemma Repeats.continues (h : Repeats item cursor values last) (hmore : Joins more)
    (hitem : Continues more rel follows item item')
    (hbegins : ∀ cursor value behind, skip cursor.rest = cursor.rest →
      (item cursor).result = some (value, behind) → follows cursor.rest)
    (hlast : follows (skip last.rest)) (hcursor : Continued more cursor cursor') :
    ∃ values' last', Repeats item' cursor' values' last' ∧ List.Forall₂ rel values values' ∧
      Continued more last last' := by
  induction h generalizing cursor' with
  | nil => exact ⟨[], cursor', .nil cursor', .nil, hcursor⟩
  | cons hvalue hrest ih =>
    obtain ⟨value', middle', hvalue', hrel, hmiddle⟩ :=
      hitem _ _ _ _ (hcursor.skipBlanks hmore) hvalue (hrest.start hbegins hlast)
    obtain ⟨values', last', hrest', hrels, hlast'⟩ := ih hlast hmiddle
    exact ⟨value' :: values', last', .cons hvalue' hrest', .cons hrel hrels, hlast'⟩

/-- A repetition that is over at some place is over there with more text behind it, too. -/
lemma continues_many (hmore : Joins more) (hitem : Continues more rel follows item item')
    (hbegins : ∀ cursor value behind, skip cursor.rest = cursor.rest →
      (item cursor).result = some (value, behind) → follows cursor.rest)
    (hfollows : ∀ rest, follows' rest → follows rest)
    (happend : ∀ rest, follows' (skip rest) → follows' (skip (rest ++ more)))
    (hstop : ∀ rest, skip rest = rest → follows' rest → Refuses item' rest) :
    Continues more (List.Forall₂ rel) follows' (many blanks item) (many blanks item') := by
  intro cursor cursor' values last hready hresult hlast
  obtain ⟨hrepeats, hlength⟩ := repeats_of_many hready.skip_eq hresult
  obtain ⟨values', last', hrepeats', hrels, hlast'⟩ :=
    hrepeats.continues hmore hitem hbegins (hfollows _ hlast) hready.continued
  have hstop' : Refuses item' (skip last'.rest) :=
    hstop _ (skip_skip _) (hlast' ▸ happend _ hlast)
  have hlength' : values'.length ≤ cursor'.rest.length + 1 := by
    have hmost := hready.length_le hmore
    rw [← hrels.length_eq]
    omega
  exact ⟨values', last', hrepeats'.many hready.skip_eq' hlength' hstop', hrels, hlast'⟩

end Items

/-! ## Tokens -/

/-- A token is the same with more text behind it, since it is over before a line break. -/
lemma continues_of_token (hmore : Joins more) (h : OneToken rel r) :
    Continues more rel follows r r := by
  intro cursor cursor' value behind hready hresult _
  obtain ⟨offset, rest⟩ := cursor
  obtain ⟨offset', rest'⟩ := cursor'
  have hcases := hready.cases hmore
  rcases hready.skip_eq ▸ exists_token rest with hnil | ⟨piece, after, hrest, hends, hgap⟩
  · obtain rfl : rest = [] := hnil
    cases (h.nil offset).symm.trans hresult
  · obtain rfl : rest = piece ++ after := hrest
    obtain ⟨hnil, -⟩ | ⟨-, hrest'⟩ := hcases
    · exact absurd (List.append_eq_nil_iff.mp hnil).1 hends.ne_nil
    · obtain rfl : rest' = piece ++ (after ++ more) := hrest'.trans (List.append_assoc _ _ _)
      -- read twice alike, the token turns out to have the character that ends it
      rcases (h.token piece after after hends hends hgap offset offset).cases with
        ⟨hnone, -⟩ | ⟨_, _, _, _, -, -, -, hclosed, -⟩
      · cases hnone.symm.trans hresult
      · rcases (h.token piece after (after ++ more) hends (hends.append hclosed hmore.line) hgap offset
          offset').cases with ⟨hnone, -⟩ | ⟨_, value', _, behind', hvalue, hvalue', hread⟩
        · cases hnone.symm.trans hresult
        · obtain ⟨rfl, rfl⟩ := Prod.mk.inj (Option.some.inj (hvalue.symm.trans hresult))
          obtain ⟨hrel, -, hbehind, hbehind'⟩ := hread
          exact ⟨value', behind', hvalue', hrel, by rw [Continued, hbehind, hbehind']⟩

lemma continues_symbol (hmore : Joins more) {c : Char} (hc : isSymbol c = true) :
    Continues more (fun _ _ => True) follows (token [c]) (token [c]) :=
  continues_of_token hmore (oneToken_symbol hc)

lemma continues_identifier (hmore : Joins more) :
    Continues more Eq follows identifier identifier :=
  continues_of_token hmore oneToken_identifier

/-- An operator that is no letter is there or not, whatever text is behind. -/
lemma continues_optional_op (hmore : Joins more) {accepts : Char → Bool} {term : Term}
    (h : OneToken Eq (named term (oneOf accepts)))
    (hletter : ∀ c, isAsciiStart c = true → accepts c = false) :
    Continues more Eq follows (optional (named term (oneOf accepts)))
      (optional (named term (oneOf accepts))) := by
  refine (continues_of_token hmore h).optional fun cursor cursor' hready hnone _ =>
    (refuses_oneOf fun c hc => ?_).named _
  rcases hready.head hmore c hc with hsame | hstart
  · obtain ⟨others, hrest⟩ := List.head?_eq_some_iff.mp hsame
    by_contra haccepts
    have htakes : Takes (named term (oneOf accepts)) (fun value => value = c) (c :: others) others :=
      (takes_oneOf (by simpa using haccepts)).named term
    obtain ⟨_, _, hvalue, -⟩ := htakes cursor.offset
    rw [← hrest] at hvalue
    cases hnone.symm.trans hvalue
  · exact hletter c hstart

/-- What a reader takes begins with a character of those without which it refuses a text. -/
lemma exists_head_of_refuses {p : Char → Prop} {cursor : Cursor} {found : α × Cursor}
    (h : ∀ source, (∀ c ∈ source.head?, ¬ p c) → Refuses r source)
    (hresult : (r cursor).result = some found) : ∃ c, cursor.rest.head? = some c ∧ p c := by
  by_contra hnone
  have hrefuses : Refuses r cursor.rest := h cursor.rest fun c hc hp => hnone ⟨c, hc, hp⟩
  cases (hrefuses cursor.offset).symm.trans hresult

/-- What one reader takes another one refuses, also with more text behind it, if no character can
begin both. -/
lemma refuses_of_head {other : Reader β} {p q : Char → Prop} {cursor cursor' : Cursor}
    {found : α × Cursor} (hmore : Joins more) (hready : Ready more cursor cursor')
    (hresult : (r cursor).result = some found)
    (h : ∀ source, (∀ c ∈ source.head?, ¬ p c) → Refuses r source)
    (hother : ∀ source, (∀ c ∈ source.head?, ¬ q c) → Refuses other source)
    (hne : ∀ c, p c → ¬ q c) : Refuses other cursor'.rest := by
  obtain ⟨c, hc, hp⟩ := exists_head_of_refuses h hresult
  refine hother _ fun d hd => ?_
  obtain rfl := Option.some.inj ((hready.head_eq hmore hc).symm.trans hd)
  exact hne c hp

/-- No arrow comes about where the line ends. -/
lemma not_arrow_append {rest : List Char} (hline : ∀ c ∈ more.head?, isLineEnd c = true)
    (hne : rest ≠ []) (h : ¬ ['<', '-'] <+: rest) : ¬ ['<', '-'] <+: rest ++ more := by
  rintro ⟨tail, htail⟩
  cases rest with
  | nil => exact hne rfl
  | cons c rest =>
    obtain ⟨rfl, hbehind⟩ := List.cons.inj htail
    cases rest with
    | nil =>
      obtain rfl : '-' :: tail = more := hbehind
      exact absurd (hline '-' rfl) (by decide)
    | cons d rest =>
      obtain ⟨rfl, -⟩ := List.cons.inj hbehind
      exact h ⟨rest, rfl⟩

lemma continues_noArrow (hmore : Joins more) :
    Continues more (fun _ _ => True) follows (require fun cursor => !cursor.startsWith ['<', '-'])
      (require fun cursor => !cursor.startsWith ['<', '-']) := by
  intro cursor cursor' value behind hready hresult _
  cases hstarts : cursor.startsWith ['<', '-'] with
  | true => simp [require, hstarts] at hresult
  | false =>
    obtain rfl : cursor = behind := by simpa [require, hstarts] using hresult
    have hrefuses : Refuses (token ['<', '-']) cursor'.rest := by
      rcases hready.cases hmore with ⟨-, hover | hdefinition⟩ | ⟨hne, hrest⟩
      · rw [hover]
        exact refuses_token (by simp)
      · exact refuses_token fun c hc =>
          ne_of_isAsciiStart (hdefinition.isAsciiStart c hc) '<' (by decide)
      · rw [hrest]
        refine refuses_absent_token (not_arrow_append hmore.line hne ?_)
        rintro ⟨tail, htail⟩
        have htakes : Takes (token ['<', '-']) (fun _ => True) (['<', '-'] ++ tail) tail :=
          takes_token _
        obtain ⟨_, _, hvalue, -⟩ := htakes cursor.offset
        rw [htail] at hvalue
        simp [startsWith_eq_isSome, hvalue] at hstarts
    have hnone : (token ['<', '-'] cursor').result = none := hrefuses cursor'.offset
    refine ⟨(), cursor', ?_, trivial, hready.continued⟩
    simp [require, startsWith_eq_isSome, hnone]

end Reader

end Source

end LabeledPeg
