import LabeledPeg.Source.Reader
import Mathlib.Data.List.Basic
import Mathlib.Data.List.Forall2

/-!
# What readers take

Whether a reader takes a value off a text, and what it leaves, does not depend on how many bytes
stand before the text. For every way of putting readers together it is said here when the result
takes a value, when it refuses, and what its values have in common.
-/

namespace LabeledPeg.Source

/-- What is left of a text behind its blanks and comments. -/
def skip (source : List Char) : List Char := (skipFrom false 0 source).rest

lemma rest_skipFrom (commented : Bool) (offset offset' : Nat) (source : List Char) :
    (skipFrom commented offset source).rest = (skipFrom commented offset' source).rest := by
  fun_induction skipFrom commented offset source generalizing offset' with
  | case1 => simp [skipFrom]
  | case2 offset rest ih => rw [ih (offset' + 2), skipFrom]
  | case3 offset c rest hcomment hblank ih =>
    rw [ih (offset' + c.utf8Size), skipFrom.eq_3 offset' c rest hcomment, if_pos hblank]
  | case4 offset c rest hcomment hblank =>
    rw [skipFrom.eq_3 offset' c rest hcomment, if_neg hblank]
  | case5 offset c rest ih => rw [ih (offset' + c.utf8Size), skipFrom]

lemma Cursor.rest_skipBlanks (cursor : Cursor) : cursor.skipBlanks.rest = skip cursor.rest :=
  rest_skipFrom false cursor.offset 0 cursor.rest

/-- Nothing is skipped where no blank and no comment begins. -/
lemma skip_cons {c : Char} {rest : List Char} (hblank : isBlank c = false) (hslash : c ≠ '/') :
    skip (c :: rest) = c :: rest := by
  rw [skip, skipFrom.eq_3 0 c rest (by simp [hslash]), if_neg (by simp [hblank])]

lemma skip_nil : skip [] = [] := by simp [skip, skipFrom]

lemma skip_blank {c : Char} {rest : List Char} (hblank : isBlank c = true) :
    skip (c :: rest) = skip rest := by
  have hslash : c ≠ '/' := by
    rintro rfl
    simp [isBlank] at hblank
  rw [skip, skipFrom.eq_3 0 c rest (by simp [hslash]), if_pos hblank, rest_skipFrom _ _ 0]
  rfl

lemma skip_slash {c : Char} {rest : List Char} (hc : c ≠ '/') :
    skip ('/' :: c :: rest) = '/' :: c :: rest := by
  rw [skip, skipFrom.eq_3 0 '/' (c :: rest) (by simp [hc]), if_neg (by decide)]

/-- Behind blanks and comments there are none left. -/
lemma skip_skip (source : List Char) : skip (skip source) = skip source := by
  have hfrom : ∀ commented offset, skip (skipFrom commented offset source).rest =
      (skipFrom commented offset source).rest := by
    intro commented offset
    fun_induction skipFrom commented offset source with
    | case1 => exact skip_nil
    | case2 offset rest ih => exact ih
    | case3 offset c rest hcomment hblank ih => exact ih
    | case4 offset c rest hcomment hblank =>
      rw [skip, skipFrom.eq_3 0 c rest hcomment, if_neg hblank]
    | case5 offset c rest ih => exact ih
  exact hfrom false 0

namespace Reader

variable {α β : Type}

/-- Whether a reader takes a value with a property off a text, and what it leaves. -/
def Takes (r : Reader α) (p : α → Prop) (source rest : List Char) : Prop :=
  ∀ offset, ∃ value offset', (r ⟨offset, source⟩).result = some (value, ⟨offset', rest⟩) ∧ p value

/-- Whether a reader refuses a text. -/
def Refuses (r : Reader α) (source : List Char) : Prop :=
  ∀ offset, (r ⟨offset, source⟩).result = none

variable {r : Reader α} {p q : α → Prop} {source middle rest : List Char}

lemma Takes.mono (h : Takes r p source rest) (hpq : ∀ value, p value → q value) :
    Takes r q source rest := by
  intro offset
  obtain ⟨value, offset', hresult, hvalue⟩ := h offset
  exact ⟨value, offset', hresult, hpq value hvalue⟩

lemma takes_pure {value : α} (h : p value) : Takes (pure value) p source source :=
  fun offset => ⟨value, offset, rfl, h⟩

lemma result_bind_of_result {next : α → Reader β} {cursor behind : Cursor} {value : α}
    (h : (r cursor).result = some (value, behind)) :
    ((r >>= next) cursor).result = (next value behind).result := by
  rw [result_bind, h]
  rfl

lemma result_bind_eq_some {next : α → Reader β} {cursor last : Cursor} {value : β} :
    ((r >>= next) cursor).result = some (value, last) ↔ ∃ first middle,
      (r cursor).result = some (first, middle) ∧ (next first middle).result = some (value, last) := by
  rw [result_bind, Option.bind_eq_some_iff, Prod.exists]

lemma result_orElse_eq_some {other : Reader α} {cursor : Cursor} {found : α × Cursor} :
    (orElse r other cursor).result = some found ↔ (r cursor).result = some found ∨
      (r cursor).result = none ∧ (other cursor).result = some found := by
  rw [result_orElse]
  cases (r cursor).result <;> simp

lemma Takes.bind {next : α → Reader β} {q : β → Prop} (h : Takes r p source middle)
    (hnext : ∀ value, p value → Takes (next value) q middle rest) :
    Takes (r >>= next) q source rest := by
  intro offset
  obtain ⟨value, offset', hresult, hvalue⟩ := h offset
  obtain ⟨value', offset'', hresult', hvalue'⟩ := hnext value hvalue offset'
  exact ⟨value', offset'', (result_bind_of_result hresult).trans hresult', hvalue'⟩

lemma Refuses.bind {next : α → Reader β} (h : Refuses r source) : Refuses (r >>= next) source := by
  intro offset
  rw [result_bind, h offset, Option.bind_none]

lemma Takes.bind_refuses {next : α → Reader β} (h : Takes r p source middle)
    (hnext : ∀ value, p value → Refuses (next value) middle) : Refuses (r >>= next) source := by
  intro offset
  obtain ⟨value, offset', hresult, hvalue⟩ := h offset
  exact (result_bind_of_result hresult).trans (hnext value hvalue offset')

lemma Takes.orElse {other : Reader α} (h : Takes r p source rest) :
    Takes (orElse r other) p source rest := by
  intro offset
  obtain ⟨value, offset', hresult, hvalue⟩ := h offset
  exact ⟨value, offset', by rw [result_orElse, hresult, Option.orElse_eq_orElse]; rfl, hvalue⟩

lemma Refuses.orElse_takes {other : Reader α} (h : Refuses r source)
    (hother : Takes other p source rest) : Takes (orElse r other) p source rest := by
  intro offset
  obtain ⟨value, offset', hresult, hvalue⟩ := hother offset
  exact ⟨value, offset', by rw [result_orElse, h offset, hresult]; rfl, hvalue⟩

lemma Refuses.orElse {other : Reader α} (h : Refuses r source) (hother : Refuses other source) :
    Refuses (orElse r other) source := by
  intro offset
  rw [result_orElse, h offset, hother offset]
  rfl

lemma Takes.named (h : Takes r p source rest) (term : Term) : Takes (named term r) p source rest := by
  intro offset
  obtain ⟨value, offset', hresult, hvalue⟩ := h offset
  exact ⟨value, offset', by rw [result_named, hresult], hvalue⟩

lemma Refuses.named (h : Refuses r source) (term : Term) : Refuses (named term r) source := by
  intro offset
  rw [result_named, h offset]

lemma Takes.spanned (h : Takes r p source rest) :
    Takes (spanned r) (fun valued => p valued.1) source rest := by
  intro offset
  obtain ⟨value, offset', hresult, hvalue⟩ := h offset
  exact ⟨(value, ⟨offset, offset'⟩), offset', by rw [result_spanned, hresult]; rfl, hvalue⟩

lemma Refuses.spanned (h : Refuses r source) : Refuses (spanned r) source := by
  intro offset
  rw [result_spanned, h offset]
  rfl

/-- A node is what is made of a value and the span that it was read from. -/
lemma Takes.node {q : β → Prop} {next : α × Span → Reader β} (h : Takes r p source rest)
    (hnext : ∀ read, p read.1 → Takes (next read) q rest rest) (term : Term) :
    Takes (Reader.named term (Reader.spanned r >>= next)) q source rest :=
  (h.spanned.bind hnext).named term

lemma Refuses.node {next : α × Span → Reader β} (h : Refuses r source) (term : Term) :
    Refuses (Reader.named term (Reader.spanned r >>= next)) source :=
  h.spanned.bind.named term

lemma Takes.optional (h : Takes r p source rest) :
    Takes (optional r) (fun value? => ∃ value, value? = some value ∧ p value) source rest :=
  (h.bind fun value hvalue => takes_pure ⟨value, rfl, hvalue⟩).orElse

lemma Refuses.optional (h : Refuses r source) :
    Takes (optional r) (fun value? => value? = none) source source :=
  h.bind.orElse_takes (takes_pure rfl)

lemma takes_blanks : Takes blanks (fun _ => True) source (skip source) := by
  intro offset
  refine ⟨(), (skipFrom false offset source).offset, ?_, trivial⟩
  rw [skip, rest_skipFrom false 0 offset source]
  rfl

lemma takes_blanks_of_skip (h : skip source = rest) : Takes blanks (fun _ => True) source rest :=
  h ▸ takes_blanks

lemma takes_space (h : skip source = source) : Takes blanks (fun _ => True) (' ' :: source) source :=
  takes_blanks_of_skip ((skip_blank (by decide)).trans h)

lemma takes_oneOf {accepts : Char → Bool} {c : Char} (h : accepts c = true) :
    Takes (oneOf accepts) (fun value => value = c) (c :: rest) rest := by
  intro offset
  exact ⟨c, offset + c.utf8Size, by simp [oneOf, Cursor.next?, Option.filter, h], rfl⟩

lemma refuses_oneOf {accepts : Char → Bool} (h : ∀ c ∈ source.head?, accepts c = false) :
    Refuses (oneOf accepts) source := by
  intro offset
  cases source with
  | nil => rfl
  | cons c source => simp [oneOf, Cursor.next?, Option.filter, h c rfl]

lemma takes_token (text : List Char) : Takes (token text) (fun _ => True) (text ++ rest) rest := by
  intro offset
  have hafter : ∀ offset, ∃ offset', Cursor.after? text ⟨offset, text ++ rest⟩ =
      some ⟨offset', rest⟩ := by
    induction text with
    | nil => exact fun offset => ⟨offset, rfl⟩
    | cons c text ih =>
      intro offset
      obtain ⟨offset', h⟩ := ih (offset + c.utf8Size)
      exact ⟨offset', by simpa [Cursor.after?] using h⟩
  obtain ⟨offset', h⟩ := hafter offset
  exact ⟨(), offset', by rw [token, result_ofCursor, h]; rfl, trivial⟩

lemma takes_symbol (c : Char) : Takes (token [c]) (fun _ => True) (c :: rest) rest :=
  takes_token [c]

lemma refuses_token {c : Char} {text : List Char} (h : ∀ c' ∈ source.head?, c' ≠ c) :
    Refuses (token (c :: text)) source := by
  intro offset
  cases source with
  | nil => rfl
  | cons c' source => simp [token, Cursor.after?, h c' rfl]

section Repetition

/-- Whether `item` can be taken off a text again and again, with `between` before each, with values
that have the given properties in order, and then no more. -/
inductive Series (between : Reader Unit) (item : Reader α) :
    List (α → Prop) → List Char → List Char → Prop where
  | stop {source middle : List Char} (hbetween : Takes between (fun _ => True) source middle)
    (hitem : Refuses item middle) : Series between item [] source source
  | more {p : α → Prop} {properties : List (α → Prop)} {source middle behind rest : List Char}
    (hbetween : Takes between (fun _ => True) source middle) (hitem : Takes item p middle behind)
    (hrest : Series between item properties behind rest) :
    Series between item (p :: properties) source rest

variable {between : Reader Unit} {item : Reader α} {properties : List (α → Prop)}

/-- Whether values have the given properties, in order. -/
abbrev Fit (properties : List (α → Prop)) (values : List α) : Prop :=
  List.Forall₂ (fun p value => p value) properties values

lemma Series.takes_further (h : Series between item properties source rest) {limit : Nat}
    (hlimit : properties.length ≤ limit) :
    Takes (further between item limit) (Fit properties) source rest := by
  induction h generalizing limit with
  | stop hbetween hitem =>
    cases limit with
    | zero => exact takes_pure .nil
    | succ limit =>
      exact (hbetween.bind_refuses fun _ _ => hitem.bind).orElse_takes (takes_pure .nil)
  | more hbetween hitem _ ih =>
    obtain ⟨limit, rfl⟩ : ∃ k, limit = k + 1 := ⟨limit - 1, by simp at hlimit; omega⟩
    refine (hbetween.bind fun _ _ => hitem.bind fun value hvalue => ?_).orElse
    exact (ih (by simpa using hlimit)).bind fun values hvalues => takes_pure (.cons hvalue hvalues)

lemma Takes.many (h : Takes item p source middle)
    (hrest : Series between item properties middle rest)
    (hlength : properties.length ≤ source.length) :
    Takes (many between item) (Fit (p :: properties)) source rest := by
  intro offset
  refine Takes.orElse (h.bind fun value hvalue => ?_) offset
  exact (hrest.takes_further hlength).bind fun values hvalues => takes_pure (.cons hvalue hvalues)

lemma Refuses.many (h : Refuses item source) :
    Takes (many between item) (fun values => values = []) source source := by
  intro offset
  have hnone : Takes (succeed []) (fun values : List α => values = []) source source :=
    takes_pure rfl
  exact Refuses.orElse_takes h.bind hnone offset

lemma fit_map_iff {means : β → α → Prop} {written : List β} {values : List α} :
    Fit (written.map means) values ↔ List.Forall₂ means written values :=
  List.forall₂_map_left_iff (f := means)

lemma Fit.map_eq {γ : Type} {f : α → γ} {g : β → γ} {written : List β} {values : List α}
    (h : Fit (written.map fun b a => f a = g b) values) : values.map f = written.map g := by
  induction written generalizing values with
  | nil =>
    cases h
    rfl
  | cons b written ih =>
    cases h with
    | cons hvalue hvalues => rw [List.map_cons, List.map_cons, hvalue, ih hvalues]

lemma length_le_length_flatMap {f : α → List β} {items : List α} (h : ∀ a ∈ items, f a ≠ []) :
    items.length ≤ (items.flatMap f).length := by
  induction items with
  | nil => simp
  | cons a items ih =>
    have hrest := ih fun b hb => h b (by simp [hb])
    have hfirst : 0 < (f a).length := List.length_pos_of_ne_nil (h a (by simp))
    simp only [List.flatMap_cons, List.length_append, List.length_cons]
    omega

end Repetition

section Separation

variable {item : Reader α} {follows : List Char → Prop} {gap : List Char} {text : β → List Char}
  {means : β → α → Prop} {written : List β}

/-- Whether `item` takes the text of something for what it means, behind a gap of blanks or none.
Where `follows` holds a text may end, and it holds where another text comes next. -/
structure Separated (item : Reader α) (follows : List Char → Prop) (gap : List Char)
    (text : β → List Char) (means : β → α → Prop) (b : β) : Prop where
  takes : ∀ rest, follows rest →
    ∃ rest', Takes item (means b) (text b ++ rest) rest' ∧ skip rest' = skip rest
  skip_eq : ∀ rest, skip (gap ++ text b ++ rest) = text b ++ rest
  follows : ∀ rest, follows (gap ++ text b ++ rest)
  ne_nil : text b ≠ []

lemma follows_separated (h : ∀ b ∈ written, Separated item follows gap text means b)
    (hrest : follows rest) : follows (written.flatMap (fun b => gap ++ text b) ++ rest) := by
  cases written with
  | nil => exact hrest
  | cons b written =>
    rw [List.flatMap_cons, List.append_assoc]
    exact (h b (by simp)).follows _

lemma series_separated (h : ∀ b ∈ written, Separated item follows gap text means b)
    (hrest : follows rest) (hstop : Refuses item (skip rest))
    (hsource : skip source = skip (written.flatMap (fun b => gap ++ text b) ++ rest)) :
    ∃ rest', Series blanks item (written.map means) source rest' ∧ skip rest' = skip rest := by
  induction written generalizing source with
  | nil => exact ⟨source, .stop (takes_blanks_of_skip hsource) hstop, hsource⟩
  | cons b written ih =>
    have hb := h b (by simp)
    have hwritten : ∀ b ∈ written, Separated item follows gap text means b :=
      fun b hb => h b (by simp [hb])
    obtain ⟨middle, htakes, hmiddle⟩ := hb.takes _ (follows_separated hwritten hrest)
    obtain ⟨rest', hseries, hrest'⟩ := ih hwritten hmiddle
    have hblanks := takes_blanks_of_skip hsource
    rw [List.flatMap_cons, List.append_assoc, hb.skip_eq] at hblanks
    exact ⟨rest', .more hblanks htakes hseries, hrest'⟩

/-- Texts that are written one after the other, each behind the gap, are taken in order. -/
lemma takes_many_separated (h : ∀ b ∈ written, Separated item follows gap text means b)
    (hrest : follows rest) (hstop : Refuses item (skip rest)) :
    ∃ rest', Takes (many blanks item) (Fit (written.map means))
      (skip (written.flatMap (fun b => gap ++ text b) ++ rest)) rest' ∧ skip rest' = skip rest := by
  cases written with
  | nil =>
    refine ⟨skip rest, hstop.many.mono fun values hvalues => ?_, skip_skip rest⟩
    rw [hvalues]
    exact .nil
  | cons b written =>
    have hb := h b (by simp)
    have hwritten : ∀ b ∈ written, Separated item follows gap text means b :=
      fun b hb => h b (by simp [hb])
    obtain ⟨middle, htakes, hmiddle⟩ := hb.takes _ (follows_separated hwritten hrest)
    obtain ⟨rest', hseries, hrest'⟩ := series_separated hwritten hrest hstop hmiddle
    have hlength : written.length ≤ (written.flatMap fun b => gap ++ text b).length :=
      length_le_length_flatMap fun b hb => by simp [(hwritten b hb).ne_nil]
    have hmany := htakes.many hseries (by
      simp only [List.length_map, List.length_append]
      omega)
    rw [List.flatMap_cons, List.append_assoc, hb.skip_eq]
    exact ⟨rest', hmany, hrest'⟩

end Separation

/-!
### Values of readers
-/

/-- Whether all values that a reader takes have a property. -/
def Yields (r : Reader α) (p : α → Prop) : Prop :=
  ∀ cursor value behind, (r cursor).result = some (value, behind) → p value

lemma yields_true : Yields r fun _ => True := fun _ _ _ _ => trivial

lemma yields_pure {value : α} (h : p value) : Yields (pure value) p := by
  intro cursor value' behind hresult
  obtain ⟨rfl, rfl⟩ : value = value' ∧ cursor = behind := by simpa using hresult
  exact h

lemma yields_refuse : Yields (refuse : Reader α) p := by
  intro cursor value behind hresult
  cases hresult

lemma Yields.bind {next : α → Reader β} {q : β → Prop} (h : Yields r p)
    (hnext : ∀ value, p value → Yields (next value) q) : Yields (r >>= next) q := by
  intro cursor value behind hresult
  obtain ⟨value', behind', hfirst, hsecond⟩ := result_bind_eq_some.mp hresult
  exact hnext value' (h cursor value' behind' hfirst) behind' value behind hsecond

lemma Yields.orElse {other : Reader α} (h : Yields r p) (hother : Yields other p) :
    Yields (orElse r other) p := by
  intro cursor value behind hresult
  rcases result_orElse_eq_some.mp hresult with hfirst | ⟨-, hsecond⟩
  · exact h cursor value behind hfirst
  · exact hother cursor value behind hsecond

lemma Yields.named (h : Yields r p) (term : Term) : Yields (named term r) p := by
  intro cursor value behind hresult
  rw [result_named] at hresult
  exact h cursor value behind hresult

lemma Yields.spanned (h : Yields r p) : Yields (spanned r) fun valued => p valued.1 := by
  intro cursor valued behind hresult
  rw [result_spanned] at hresult
  obtain ⟨⟨value, behind'⟩, hfirst, heq⟩ := Option.map_eq_some_iff.mp hresult
  obtain ⟨rfl, rfl⟩ := Prod.mk.inj heq
  exact h cursor value behind' hfirst

lemma Yields.optional (h : Yields r p) : Yields (optional r) fun value? => ∀ value ∈ value?, p value :=
  (h.bind fun value hvalue => yields_pure (by simpa using hvalue)).orElse (yields_pure (by simp))

lemma yields_oneOf {accepts : Char → Bool} :
    Yields (oneOf accepts) fun c => accepts c = true := by
  intro cursor c behind hresult
  have hnext := (Option.filter_eq_some_iff.mp hresult).2
  exact hnext

lemma Yields.further {between : Reader Unit} {item : Reader α} (h : Yields item p) (limit : Nat) :
    Yields (further between item limit) fun values => ∀ value ∈ values, p value := by
  induction limit with
  | zero => exact yields_pure (by simp)
  | succ limit ih =>
    refine (yields_true.bind fun _ _ => h.bind fun value hvalue =>
      ih.bind fun values hvalues => yields_pure ?_).orElse (yields_pure (by simp))
    simpa using ⟨hvalue, hvalues⟩

lemma Yields.many {between : Reader Unit} {item : Reader α} (h : Yields item p) :
    Yields (many between item) fun values => ∀ value ∈ values, p value := by
  intro cursor
  refine Yields.orElse (h.bind fun value hvalue =>
    (h.further cursor.rest.length).bind fun values hvalues => yields_pure ?_)
    (yields_pure (by simp)) cursor
  simpa using ⟨hvalue, hvalues⟩

end Reader

end LabeledPeg.Source
