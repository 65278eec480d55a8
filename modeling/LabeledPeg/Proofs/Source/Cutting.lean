import LabeledPeg.Proofs.Source.Moved

/-!
# Texts cut off

Where a reader stops it may have looked at what stands there: whether a name goes on, an operator or
an arrow follows, or one more item. With the text cut off at this place it still takes the same, at
the same places, if what is cut off did not keep it from going on. So what follows has to end what
was taken, as the end of the text does.
-/

namespace LabeledPeg

open Text Source

namespace Source

/-- A place with more text at the end. -/
def Cursor.append (cursor : Cursor) (tail : List Char) : Cursor :=
  ⟨cursor.offset, cursor.rest ++ tail⟩

namespace Cursor

variable {cursor middle behind behind' : Cursor} {tail : List Char}

/-- What is left at a place tells how far behind another one it is. -/
lemma Leads.eq_of_rest (h : cursor.Leads behind) (h' : cursor.Leads behind')
    (hrest : behind.rest = behind'.rest) : behind = behind' := by
  obtain ⟨taken, htaken, hoffset⟩ := h
  obtain ⟨taken', htaken', hoffset'⟩ := h'
  rw [htaken, hrest] at htaken'
  obtain rfl := String.toList_injective (List.append_cancel_right htaken')
  obtain ⟨offset, rest⟩ := behind
  obtain ⟨offset', rest'⟩ := behind'
  simp_all

lemma Leads.length_le (h : cursor.Leads behind) : behind.rest.length ≤ cursor.rest.length := by
  obtain ⟨taken, hrest, -⟩ := h
  rw [hrest, List.length_append]
  omega

lemma leads_append_iff : (cursor.append tail).Leads (behind.append tail) ↔ cursor.Leads behind := by
  refine exists_congr fun taken => and_congr_left fun _ => ?_
  simp only [append, ← List.append_assoc, List.append_cancel_right_eq]

lemma eq_of_append (h : cursor.append tail = behind.append tail) : cursor = behind := by
  obtain ⟨hoffset, hrest⟩ := Cursor.mk.inj h
  obtain ⟨offset, rest⟩ := cursor
  obtain ⟨offset', rest'⟩ := behind
  obtain rfl : offset = offset' := hoffset
  obtain rfl : rest = rest' := List.append_cancel_right hrest
  rfl

/-- What lies before a place where only the tail and some text is left is a place with the tail. -/
lemma Leads.exists_append (h : (cursor.append tail).Leads middle)
    (h' : middle.Leads (behind.append tail)) :
    ∃ middle', middle = middle'.append tail ∧ cursor.Leads middle' ∧ middle'.Leads behind := by
  obtain ⟨taken, hrest, hoffset⟩ := h'
  obtain ⟨offset, rest⟩ := middle
  obtain rfl : rest = (taken.toList ++ behind.rest) ++ tail := by
    rw [List.append_assoc]
    exact hrest
  exact ⟨⟨offset, taken.toList ++ behind.rest⟩, rfl, leads_append_iff.mp h, taken, rfl, hoffset⟩

lemma mem_head?_append {c : Char} (h : c ∈ cursor.rest.head?) :
    c ∈ (cursor.append tail).rest.head? := by
  obtain ⟨rest, hrest⟩ := List.head?_eq_some_iff.mp h
  simp [append, hrest]

end Cursor

open Cursor

section Blanks

variable {source left tail : List Char}

/-- Blanks before the place of the cut are skipped up to there. -/
lemma rest_skipFrom_of_append {commented : Bool} {offset : Nat}
    (h : (skipFrom commented offset (source ++ tail)).rest = left ++ tail) :
    (skipFrom commented offset source).rest = left := by
  -- what is cut off cannot have been skipped
  have hkept : ∀ {commented offset source}, (skipFrom commented offset source).rest = left ++ tail →
      left.length + tail.length ≤ source.length := fun {commented offset source} h => by
    rw [← List.length_append, ← h]
    exact length_skipFrom_le commented offset source
  fun_induction skipFrom commented offset source with
  | case1 commented offset =>
    have hle := hkept h
    rw [List.nil_append] at hle
    exact (List.eq_nil_of_length_eq_zero (by omega)).symm
  | case2 offset rest ih =>
    rw [List.cons_append, List.cons_append, skipFrom] at h
    exact ih h
  | case3 offset c rest hcomment hblank ih =>
    have hslash : c ≠ '/' := by
      rintro rfl
      simp [isBlank] at hblank
    rw [List.cons_append, skipFrom.eq_3 _ c _ (by simp [hslash]), if_pos hblank] at h
    exact ih h
  | case4 offset c rest hcomment hblank =>
    by_cases hslashes : ∃ others, c = '/' ∧ rest ++ tail = '/' :: others
    · obtain ⟨others, rfl, hothers⟩ := hslashes
      cases rest with
      | nil =>
        obtain rfl : tail = '/' :: others := hothers
        rw [List.cons_append, List.nil_append, skipFrom] at h
        have hle := hkept h
        simp at hle
        omega
      | cons d rest =>
        obtain ⟨rfl, -⟩ := List.cons.inj hothers
        exact absurd rfl (hcomment rest rfl)
    · have hcomment' : ∀ others, c = '/' → rest ++ tail = '/' :: others → False :=
        fun others hc hothers => hslashes ⟨others, hc, hothers⟩
      rw [List.cons_append, skipFrom.eq_3 _ c _ hcomment', if_neg hblank, ← List.cons_append] at h
      exact List.append_cancel_right h
  | case5 offset c rest ih =>
    rw [List.cons_append, skipFrom] at h
    exact ih h

lemma skip_of_append (h : skip (source ++ tail) = left ++ tail) : skip source = left :=
  rest_skipFrom_of_append h

/-- A text that goes on, blanks apart, with another character than a slash goes on with it also if
there is more text at the end. -/
lemma head?_skip_append {c : Char} (h : (skip source).head? = some c) (hc : c ≠ '/') :
    (skip (source ++ tail)).head? = some c := by
  have hfrom : ∀ commented offset, (skipFrom commented offset source).rest.head? = some c →
      (skipFrom commented offset (source ++ tail)).rest.head? = some c := by
    clear h
    intro commented offset h
    fun_induction skipFrom commented offset source with
    | case1 => cases h
    | case2 offset rest ih =>
      rw [List.cons_append, List.cons_append, skipFrom]
      exact ih h
    | case3 offset d rest hcomment hblank ih =>
      have hslash : d ≠ '/' := by
        rintro rfl
        simp [isBlank] at hblank
      rw [List.cons_append, skipFrom.eq_3 _ d _ (by simp [hslash]), if_pos hblank]
      exact ih h
    | case4 offset d rest hcomment hblank =>
      obtain rfl : d = c := Option.some.inj h
      rw [List.cons_append, skipFrom.eq_3 _ d _ (by simp [hc]), if_neg hblank]
      rfl
    | case5 offset d rest ih =>
      rw [List.cons_append, skipFrom]
      exact ih h
  exact hfrom false 0 h

lemma skipBlanks_of_append {cursor behind : Cursor}
    (h : (cursor.append tail).skipBlanks = behind.append tail) : cursor.skipBlanks = behind := by
  have hleads : (cursor.append tail).Leads (behind.append tail) :=
    h ▸ leads_skipFrom false cursor.offset (cursor.rest ++ tail)
  refine (leads_skipFrom false cursor.offset cursor.rest).eq_of_rest (leads_append_iff.mp hleads) ?_
  exact rest_skipFrom_of_append (congrArg Cursor.rest h)

/-- A piece that ends before some character ends where the text does. -/
lemma Ends.cut {piece : List Char} {next? : Option Char} (h : Ends piece next?) :
    Ends piece none := by
  cases h with
  | closed hclose hlength => exact .closed hclose hlength
  | unclosed hclose hlength => exact .unclosed hclose hlength
  | comment hbody _ => exact .comment hbody (by simp)
  | arrow => exact .arrow
  | name hfirst hothers _ => exact .name hfirst hothers (by simp)
  | symbol hclose hname _ _ => exact .symbol hclose hname (by simp) (by simp)

end Blanks

namespace Reader

variable {α β : Type} {r r' other other' : Reader α} {cursor middle behind : Cursor} {value : α}
  {tail : List Char} {n : Nat} {p q : Char → Prop}

/-! ## Readers that only move forward -/

/-- Whether a reader only moves forward. -/
def Advances (r : Reader α) : Prop :=
  ∀ cursor value behind, (r cursor).result = some (value, behind) → cursor.Leads behind

/-- How far a reader gets tells where it stops. -/
lemma Takes.result_eq (h : Takes r (· = value) cursor.rest behind.rest) (hr : Advances r)
    (hleads : cursor.Leads behind) : (r cursor).result = some (value, behind) := by
  obtain ⟨value', offset, hresult, rfl⟩ := h cursor.offset
  have hsame : (⟨offset, behind.rest⟩ : Cursor) = behind :=
    (hr cursor value' _ hresult).eq_of_rest hleads rfl
  rwa [hsame] at hresult

lemma advances_pure (value : α) : Advances (pure value) := by
  intro cursor value' behind h
  obtain ⟨-, rfl⟩ := Prod.mk.inj (Option.some.inj h)
  exact .refl cursor

lemma advances_refuse : Advances (refuse : Reader α) := fun _ _ _ h => nomatch h

lemma advances_blanks : Advances blanks := by
  intro cursor _ behind h
  obtain ⟨-, rfl⟩ := Prod.mk.inj (Option.some.inj h)
  exact leads_skipFrom false cursor.offset cursor.rest

lemma advances_oneOf (accepts : Char → Bool) : Advances (oneOf accepts) :=
  fun _ _ _ h => leads_next (Option.filter_eq_some_iff.mp h).1

lemma advances_token (text : List Char) : Advances (token text) := by
  intro cursor _ behind h
  obtain ⟨middle, hafter, heq⟩ := Option.map_eq_some_iff.mp h
  obtain ⟨-, rfl⟩ := Prod.mk.inj heq
  exact leads_after hafter

lemma advances_ofCursor {step : Cursor → α × Cursor}
    (h : ∀ cursor : Cursor, cursor.Leads (step cursor).2) :
    Advances (ofCursor fun cursor => some (step cursor)) := by
  intro cursor value behind hresult
  have hstep : step cursor = (value, behind) := Option.some.inj hresult
  have hleads := h cursor
  rwa [hstep] at hleads

lemma Advances.bind {next : α → Reader β} (h : Advances r)
    (hnext : ∀ value, Advances (next value)) : Advances (r >>= next) := by
  intro cursor value last hresult
  obtain ⟨first, middle, hfirst, hvalue⟩ := result_bind_eq_some.mp hresult
  exact (h _ _ _ hfirst).trans (hnext first _ _ _ hvalue)

lemma Advances.orElse (h : Advances r) (hother : Advances other) : Advances (orElse r other) := by
  intro cursor value behind hresult
  rcases result_orElse_eq_some.mp hresult with hfirst | ⟨-, hsecond⟩
  · exact h _ _ _ hfirst
  · exact hother _ _ _ hsecond

lemma Advances.named (h : Advances r) (term : Term) : Advances (named term r) := by
  intro cursor value behind hresult
  rw [result_named] at hresult
  exact h _ _ _ hresult

lemma Advances.spanned (h : Advances r) : Advances (spanned r) := by
  intro cursor read behind hresult
  rw [result_spanned] at hresult
  obtain ⟨⟨value, middle⟩, hvalue, heq⟩ := Option.map_eq_some_iff.mp hresult
  obtain ⟨-, rfl⟩ := Prod.mk.inj heq
  exact h _ _ _ hvalue

lemma Advances.length_lt (hr : Advances r) (hne : (r cursor).result ≠ some (value, cursor))
    (hresult : (r cursor).result = some (value, behind)) :
    behind.rest.length < cursor.rest.length := by
  obtain ⟨taken, hrest, -⟩ := hr _ _ _ hresult
  by_contra hlength
  have htaken : taken.toList = [] := by
    rw [hrest, List.length_append] at hlength
    exact List.eq_nil_of_length_eq_zero (by omega)
  have hsame : behind = cursor :=
    (hr _ _ _ hresult).eq_of_rest (.refl cursor) (by rw [hrest, htaken, List.nil_append])
  exact hne (hsame ▸ hresult)

/-- What one reader takes up to some place before the tail, the next one from there on. -/
lemma exists_middle {next : α → Reader β} {value : β} (h : Advances r)
    (hnext : ∀ value, Advances (next value))
    (hresult : ((r >>= next) (cursor.append tail)).result = some (value, behind.append tail)) :
    ∃ (first : α) (middle : Cursor),
      (r (cursor.append tail)).result = some (first, middle.append tail) ∧
        (next first (middle.append tail)).result = some (value, behind.append tail) ∧
          middle.rest.length ≤ cursor.rest.length := by
  obtain ⟨first, middle, hfirst, hvalue⟩ := result_bind_eq_some.mp hresult
  obtain ⟨middle, rfl, hleads, -⟩ :=
    (h _ _ _ hfirst).exists_append (hnext first _ _ _ hvalue)
  exact ⟨first, middle, hfirst, hvalue, hleads.length_le⟩

section Items

variable {item : Reader α} {first last : Cursor} {values : List α} {between : Reader Unit}

lemma advances_further (hbetween : Advances between) (h : Advances item) (limit : Nat) :
    Advances (further between item limit) := by
  induction limit with
  | zero => exact advances_pure []
  | succ limit ih =>
    refine Advances.orElse ?_ (advances_pure [])
    exact hbetween.bind fun _ => h.bind fun _ => ih.bind fun _ => advances_pure _

lemma advances_many (hbetween : Advances between) (h : Advances item) :
    Advances (many between item) := by
  intro cursor
  have hsome : Advances (item >>= fun first =>
      further between item cursor.rest.length >>= fun others => pure (first :: others)) :=
    h.bind fun _ => (advances_further hbetween h _).bind fun _ => advances_pure _
  exact hsome.orElse (advances_pure []) cursor

lemma Repeats.leads (h : Repeats item first values last) (hitem : Advances item) :
    first.Leads last := by
  induction h with
  | nil cursor => exact .refl cursor
  | @cons cursor _ _ _ _ hvalue _ ih =>
    exact ((leads_skipFrom false cursor.offset cursor.rest).trans (hitem _ _ _ hvalue)).trans ih

lemma Repeats.exists_of_mem (h : Repeats item first values last) (hitem : Advances item)
    (hvalue : value ∈ values) : ∃ cursor behind, first.Leads cursor ∧
      skip cursor.rest = cursor.rest ∧ (item cursor).result = some (value, behind) := by
  induction h with
  | nil => cases hvalue
  | @cons cursor middle _ _ _ hfirst _ ih =>
    have hblanks : cursor.Leads cursor.skipBlanks := leads_skipFrom false cursor.offset cursor.rest
    cases hvalue with
    | head => exact ⟨cursor.skipBlanks, middle, hblanks, cursor.skip_skipBlanks, hfirst⟩
    | tail _ hothers =>
      obtain ⟨start, stop, hleads, hbare, hresult⟩ := ih hothers
      exact ⟨start, stop, (hblanks.trans (hitem _ _ _ hfirst)).trans hleads, hbare, hresult⟩

end Items

/-! ## Readers that look at nothing behind -/

/-- Whether a reader looks at no more of a text than it takes. -/
structure Local (r : Reader α) : Prop where
  advances : Advances r
  append : ∀ {cursor value behind} (tail : List Char), (r cursor).result = some (value, behind) →
    (r (cursor.append tail)).result = some (value, behind.append tail)
  cut : ∀ {cursor : Cursor} {value : α} {behind : Cursor} {tail : List Char},
    (r (cursor.append tail)).result = some (value, behind.append tail) →
      (r cursor).result = some (value, behind)

/-- A reader that takes some fixed texts, whatever follows, looks at nothing behind them. -/
lemma local_of_spelling {s : α → List Char → Prop} (hr : Advances r)
    (hspells : ∀ cursor value behind, (r cursor).result = some (value, behind) →
      ∃ written, s value written ∧ cursor.rest = written ++ behind.rest)
    (htakes : ∀ value written rest, s value written → Takes r (· = value) (written ++ rest) rest) :
    Local r := by
  refine ⟨hr, fun {cursor value behind} tail h => ?_, fun {cursor value behind tail} h => ?_⟩
  · obtain ⟨written, hwritten, hrest⟩ := hspells _ _ _ h
    refine Takes.result_eq ?_ hr (leads_append_iff.mpr (hr _ _ _ h))
    have hall : (cursor.append tail).rest = written ++ (behind.append tail).rest := by
      rw [Cursor.append, hrest, List.append_assoc]
      rfl
    exact hall ▸ htakes value written _ hwritten
  · obtain ⟨written, hwritten, hrest⟩ := hspells _ _ _ h
    refine Takes.result_eq ?_ hr (leads_append_iff.mp (hr _ _ _ h))
    have hall : cursor.rest = written ++ behind.rest := by
      rw [Cursor.append, Cursor.append, ← List.append_assoc] at hrest
      exact List.append_cancel_right hrest
    exact hall ▸ htakes value written _ hwritten

lemma local_oneOf (accepts : Char → Bool) : Local (oneOf accepts) := by
  refine local_of_spelling (s := fun c written => written = [c] ∧ accepts c = true)
    (advances_oneOf accepts) (fun cursor c behind h => ?_) ?_
  · obtain ⟨hnext, hc⟩ := Option.filter_eq_some_iff.mp h
    obtain ⟨offset, rest⟩ := cursor
    cases rest with
    | nil => cases hnext
    | cons d rest =>
      obtain ⟨rfl, rfl⟩ := Prod.mk.inj (Option.some.inj hnext)
      exact ⟨[d], ⟨rfl, hc⟩, rfl⟩
  · rintro c _ rest ⟨rfl, hc⟩
    exact takes_oneOf hc

lemma rest_of_token {text : List Char} (h : (token text cursor).result = some ((), behind)) :
    cursor.rest = text ++ behind.rest := by
  by_cases hbegins : text <+: cursor.rest
  · obtain ⟨rest, hrest⟩ := hbegins
    have htakes : Takes (token text) (fun _ => True) cursor.rest rest := hrest ▸ takes_token text
    obtain ⟨_, offset, hresult, -⟩ := htakes cursor.offset
    obtain ⟨-, rfl⟩ := Prod.mk.inj (Option.some.inj (hresult.symm.trans h))
    exact hrest.symm
  · cases (refuses_absent_token hbegins cursor.offset).symm.trans h

lemma local_token (text : List Char) : Local (token text) := by
  refine local_of_spelling (s := fun _ written => written = text) (advances_token text)
    (fun cursor _ behind h => ⟨text, rfl, rest_of_token h⟩) ?_
  rintro _ _ rest rfl
  exact (takes_token _).mono fun _ _ => rfl

lemma local_pure (value : α) : Local (pure value) := by
  refine ⟨advances_pure value, fun {cursor value' behind} tail h => ?_,
    fun {cursor value' behind tail} h => ?_⟩
  · obtain ⟨rfl, rfl⟩ := Prod.mk.inj (Option.some.inj h)
    rfl
  · obtain ⟨rfl, hcursor⟩ := Prod.mk.inj (Option.some.inj h)
    rw [eq_of_append hcursor]
    rfl

lemma Local.bind {next : α → Reader β} (h : Local r) (hnext : ∀ value, Local (next value)) :
    Local (r >>= next) := by
  refine ⟨h.advances.bind fun value => (hnext value).advances,
    fun {cursor value behind} tail hresult => ?_, fun {cursor value behind tail} hresult => ?_⟩
  · obtain ⟨first, middle, hfirst, hvalue⟩ := result_bind_eq_some.mp hresult
    exact result_bind_eq_some.mpr
      ⟨first, _, h.append tail hfirst, (hnext first).append tail hvalue⟩
  · obtain ⟨first, middle, hfirst, hvalue, -⟩ :=
      exists_middle h.advances (fun value => (hnext value).advances) hresult
    exact result_bind_eq_some.mpr ⟨first, middle, h.cut hfirst, (hnext first).cut hvalue⟩

lemma Local.named (h : Local r) (term : Term) : Local (named term r) := by
  refine ⟨fun cursor value behind hresult => ?_, fun {cursor value behind} tail hresult => ?_,
    fun {cursor value behind tail} hresult => ?_⟩
  · rw [result_named] at hresult
    exact h.advances _ _ _ hresult
  · rw [result_named] at hresult ⊢
    exact h.append tail hresult
  · rw [result_named] at hresult ⊢
    exact h.cut hresult

lemma Local.spanned (h : Local r) : Local (spanned r) := by
  refine ⟨h.advances.spanned, fun {cursor read behind} tail hresult => ?_,
    fun {cursor read behind tail} hresult => ?_⟩
  · rw [result_spanned] at hresult ⊢
    obtain ⟨⟨value, middle⟩, hvalue, heq⟩ := Option.map_eq_some_iff.mp hresult
    obtain ⟨rfl, rfl⟩ := Prod.mk.inj heq
    rw [h.append tail hvalue]
    rfl
  · rw [result_spanned] at hresult ⊢
    obtain ⟨⟨value, middle⟩, hvalue, heq⟩ := Option.map_eq_some_iff.mp hresult
    obtain ⟨rfl, rfl⟩ := Prod.mk.inj heq
    rw [h.cut hvalue]
    rfl

/-- Where such a reader refuses a text with more at the end, it refuses the text. -/
lemma Local.result_eq_none (h : Local r) (hnone : (r (cursor.append tail)).result = none) :
    (r cursor).result = none := by
  cases hresult : (r cursor).result with
  | none => rfl
  | some found => cases hnone.symm.trans (h.append tail hresult)

/-- One of two such readers: where the first one refuses the text, it does so with the text cut off. -/
lemma Local.orElse_of_append (h : Local r) (hother : Local other)
    (hresult : (orElse r other (cursor.append tail)).result = some (value, behind.append tail)) :
    (orElse r other cursor).result = some (value, behind) := by
  rcases result_orElse_eq_some.mp hresult with hfirst | ⟨hnone, hsecond⟩
  · exact result_orElse_eq_some.mpr (.inl (h.cut hfirst))
  · exact result_orElse_eq_some.mpr (.inr ⟨h.result_eq_none hnone, hother.cut hsecond⟩)

/-! ## Readers whose text is cut off -/

/-- Whether a text is empty or begins with a character that satisfies `p`. -/
def Opens (p : Char → Prop) (source : List Char) : Prop := ∀ c ∈ source.head?, p c

lemma opens_nil : Opens p [] := by simp [Opens]

lemma Opens.mono {source : List Char} (h : Opens p source) (hpq : ∀ c, p c → q c) :
    Opens q source := fun c hc => hpq c (h c hc)

/-- Whether `r'` takes of a text, of no more than `n` characters, what `r` takes of it with more text
at the end. What is left of the text, blanks apart, has to be empty or to begin with a character that
satisfies `p`: otherwise `r'` may go on. -/
structure Cuts (n : Nat) (p : Char → Prop) (r r' : Reader α) : Prop where
  advances : Advances r
  cut : ∀ {cursor : Cursor} {value : α} {behind : Cursor} {tail : List Char},
    cursor.rest.length ≤ n → skip (cursor.rest ++ tail) = cursor.rest ++ tail →
      (r (cursor.append tail)).result = some (value, behind.append tail) →
        Opens p (skip behind.rest) → (r' cursor).result = some (value, behind)

lemma Cuts.mono (h : Cuts n p r r') (hpq : ∀ c, q c → p c) : Cuts n q r r' :=
  ⟨h.advances, fun hn hbare hresult hrest => h.cut hn hbare hresult (hrest.mono hpq)⟩

lemma Local.cuts (h : Local r) : Cuts n p r r :=
  ⟨h.advances, fun _ _ hresult _ => h.cut hresult⟩

/-- A token is the same with the text cut off behind it. -/
lemma cuts_of_token (h : OneToken Eq r) (hr : Advances r) : Cuts n p r r := by
  refine ⟨hr, fun {cursor value behind tail} _ hbare hresult _ => ?_⟩
  have hleads := leads_append_iff.mp (hr _ _ _ hresult)
  rcases hbare ▸ exists_token (cursor.rest ++ tail) with hnil | ⟨piece, after, hrest, hends, hgap⟩
  · rw [Cursor.append, hnil] at hresult
    cases (h.nil cursor.offset).symm.trans hresult
  · rw [Cursor.append, hrest] at hresult
    -- the token read twice: what is left behind it is what the reader leaves
    obtain rfl : after = behind.rest ++ tail := by
      rcases (h.token piece after after hends hends hgap cursor.offset cursor.offset).cases with
        ⟨hnone, -⟩ | ⟨_, _, next, _, hsome, -, -, -, hnext, -⟩
      · cases hnone.symm.trans hresult
      · obtain ⟨-, rfl⟩ := Prod.mk.inj (Option.some.inj (hsome.symm.trans hresult))
        exact hnext.symm
    have hcut : cursor.rest = piece ++ behind.rest :=
      List.append_cancel_right (hrest.trans (List.append_assoc _ _ _).symm)
    have hends' : Ends piece behind.rest.head? := by
      cases hbehind : behind.rest with
      | nil => exact hends.cut
      | cons c others => simpa [hbehind] using hends
    rcases (h.token piece _ behind.rest hends hends' hgap cursor.offset cursor.offset).cases with
      ⟨hnone, -⟩ | ⟨_, value', _, next, hsome, hsome', rfl, -, -, hnext⟩
    · cases hnone.symm.trans hresult
    · obtain ⟨rfl, -⟩ := Prod.mk.inj (Option.some.inj (hsome.symm.trans hresult))
      rw [← hcut] at hsome'
      have hsame : next = behind := (hr _ _ _ hsome').eq_of_rest hleads hnext
      exact hsame ▸ hsome'

lemma Cuts.named (h : Cuts n p r r') (term : Term) : Cuts n p (named term r) (named term r') := by
  refine ⟨h.advances.named term, fun hn hbare hresult hrest => ?_⟩
  rw [result_named] at hresult ⊢
  exact h.cut hn hbare hresult hrest

lemma Cuts.spanned (h : Cuts n p r r') : Cuts n p (spanned r) (spanned r') := by
  refine ⟨h.advances.spanned, fun {cursor read behind tail} hn hbare hresult hrest => ?_⟩
  rw [result_spanned] at hresult
  obtain ⟨⟨value, middle⟩, hvalue, heq⟩ := Option.map_eq_some_iff.mp hresult
  obtain ⟨rfl, rfl⟩ := Prod.mk.inj heq
  rw [result_spanned, h.cut hn hbare hvalue hrest]
  rfl

lemma Cuts.map {make : α → β} (h : Cuts n p r r') :
    Cuts n p (r >>= fun value => pure (make value)) (r' >>= fun value => pure (make value)) := by
  refine ⟨h.advances.bind fun _ => advances_pure _, fun hn hbare hresult hrest => ?_⟩
  obtain ⟨value, middle, hvalue, hpure⟩ := result_bind_eq_some.mp hresult
  obtain ⟨rfl, rfl⟩ := Prod.mk.inj (Option.some.inj hpure)
  exact result_bind_eq_some.mpr ⟨value, _, h.cut hn hbare hvalue hrest, rfl⟩

/-- What is made of a value and its span. -/
lemma Cuts.node {make : α × Span → β} (h : Cuts n p r r') (term : Term) :
    Cuts n p (Reader.named term (Reader.spanned r >>= fun read => pure (make read)))
      (Reader.named term (Reader.spanned r' >>= fun read => pure (make read))) :=
  h.spanned.map.named term

lemma length_skipBlanks_le (cursor : Cursor) :
    cursor.skipBlanks.rest.length ≤ cursor.rest.length :=
  (leads_skipFrom false cursor.offset cursor.rest).length_le

/-- What is taken behind blanks begins at the same place with the text cut off. -/
lemma result_behind_blanks (hr : Advances r)
    (h : ((blanks >>= fun _ => r) (cursor.append tail)).result = some (value, behind.append tail)) :
    skip (cursor.skipBlanks.rest ++ tail) = cursor.skipBlanks.rest ++ tail ∧
      (r (cursor.skipBlanks.append tail)).result = some (value, behind.append tail) := by
  obtain ⟨_, start, hblanks, hvalue, -⟩ := exists_middle advances_blanks (fun _ => hr) h
  have hskip : (cursor.append tail).skipBlanks = start.append tail :=
    congrArg Prod.snd (Option.some.inj hblanks)
  have hbare := (cursor.append tail).skip_skipBlanks
  rw [hskip] at hbare
  rw [skipBlanks_of_append hskip]
  exact ⟨hbare, hvalue⟩

/-- One reader behind another, blanks between them. What the second one takes has to begin as what may
follow the first, unless it takes nothing. -/
lemma Cuts.bind {next next' : α → Reader β} (h : Cuts n p r r')
    (hnext : ∀ value, Cuts n q (next value) (next' value))
    (hfollows : ∀ first cursor value last, skip cursor.rest = cursor.rest →
      (next first cursor).result = some (value, last) →
        Opens p cursor.rest ∨ last = cursor ∧ ∀ c, q c → p c) :
    Cuts n q (r >>= fun value => blanks >>= fun _ => next value)
      (r' >>= fun value => blanks >>= fun _ => next' value) := by
  have hbehind : ∀ value, Advances (blanks >>= fun _ => next value) :=
    fun value => advances_blanks.bind fun _ => (hnext value).advances
  refine ⟨h.advances.bind hbehind, fun {cursor value last tail} hn hbare hresult hrest => ?_⟩
  obtain ⟨first, middle, hfirst, hvalue, hmiddle⟩ := exists_middle h.advances hbehind hresult
  obtain ⟨hstart, hvalue⟩ := result_behind_blanks (hnext first).advances hvalue
  have hfollowed : Opens p (skip middle.rest) := by
    rw [← middle.rest_skipBlanks]
    rcases hfollows first _ _ _ hstart hvalue with hhead | ⟨hsame, hqp⟩
    · exact fun c hc => hhead c (mem_head?_append hc)
    · have hlast : last = middle.skipBlanks := eq_of_append hsame
      rw [hlast, middle.skip_skipBlanks] at hrest
      exact hrest.mono hqp
  have hlength := length_skipBlanks_le middle
  exact result_spaced_eq_some.mpr ⟨first, middle, h.cut hn hbare hfirst hfollowed,
    (hnext first).cut (by omega) hstart hvalue hrest⟩

/-- One reader behind another that does not look at what is behind it. -/
lemma Cuts.bind_free {next next' : α → Reader β} (h : Cuts n (fun _ => True) r r')
    (hnext : ∀ value, Cuts n q (next value) (next' value)) :
    Cuts n q (r >>= fun value => blanks >>= fun _ => next value)
      (r' >>= fun value => blanks >>= fun _ => next' value) :=
  h.bind hnext fun _ _ _ _ _ _ => .inl fun _ _ => trivial

/-- A symbol leaves less of the text for what follows it. -/
lemma cuts_behind_symbol {c : Char} (hr : Advances r) (h : ∀ m < n, Cuts m p r r') :
    Cuts n p (token [c] >>= fun _ => blanks >>= fun _ => r)
      (token [c] >>= fun _ => blanks >>= fun _ => r') := by
  have hbehind : Advances (blanks >>= fun _ => r) := advances_blanks.bind fun _ => hr
  refine ⟨(advances_token _).bind fun _ => hbehind,
    fun {cursor value last tail} hn _ hresult hrest => ?_⟩
  obtain ⟨_, middle, hsymbol, hvalue, -⟩ :=
    exists_middle (advances_token _) (fun _ => hbehind) hresult
  obtain ⟨hstart, hvalue⟩ := result_behind_blanks hr hvalue
  have hcut := (local_token [c]).cut hsymbol
  have hlength := length_skipBlanks_le middle
  have htaken := congrArg List.length (rest_of_token hcut)
  rw [List.length_append, List.length_singleton] at htaken
  refine result_spaced_eq_some.mpr ⟨(), middle, hcut, ?_⟩
  exact (h middle.skipBlanks.rest.length (by omega)).cut (Nat.le_refl _) hstart hvalue hrest

/-- One of two readers. The first one has to refuse the text also where it is cut off. -/
lemma Cuts.orElse (h : Cuts n p r r') (hother : Cuts n p other other')
    (hrefuses : ∀ {cursor : Cursor} {value : α} {behind : Cursor} {tail : List Char},
      (r (cursor.append tail)).result = none →
        (other (cursor.append tail)).result = some (value, behind.append tail) →
          (r' cursor).result = none) : Cuts n p (orElse r other) (orElse r' other') := by
  refine ⟨h.advances.orElse hother.advances, fun hn hbare hresult hrest => ?_⟩
  rcases result_orElse_eq_some.mp hresult with hfirst | ⟨hnone, hsecond⟩
  · exact result_orElse_eq_some.mpr (.inl (h.cut hn hbare hfirst hrest))
  · exact result_orElse_eq_some.mpr
      (.inr ⟨hrefuses hnone hsecond, hother.cut hn hbare hsecond hrest⟩)

/-- What one reader takes another one refuses, also where the text is cut off, if no character can
begin both. -/
lemma refuses_of_append {other : Reader β} {found : β × Cursor}
    (hresult : (other (cursor.append tail)).result = some found)
    (h : ∀ source, (∀ c ∈ source.head?, ¬ p c) → Refuses other source)
    (hr : ∀ source, (∀ c ∈ source.head?, ¬ q c) → Refuses r source) (hne : ∀ c, p c → ¬ q c) :
    Refuses r cursor.rest := by
  obtain ⟨c, hc, hp⟩ := exists_head_of_refuses h hresult
  refine hr _ fun d hd => ?_
  obtain rfl := Option.some.inj (hc.symm.trans (mem_head?_append hd))
  exact hne c hp

lemma Cuts.optional (h : Cuts n p r r')
    (hrefuses : ∀ {cursor : Cursor} {tail : List Char}, (r (cursor.append tail)).result = none →
      (r' cursor).result = none) : Cuts n p (optional r) (optional r') := by
  refine Cuts.orElse h.map (local_pure none).cuts fun {cursor _ _ tail} hnone _ => ?_
  have hfirst : (r (cursor.append tail)).result = none := by
    rw [result_bind] at hnone
    cases hvalue : (r (cursor.append tail)).result with
    | none => rfl
    | some found => simp [hvalue] at hnone
  rw [result_bind, hrefuses hfirst, Option.bind_none]

/-- A reader that finds nothing in an empty text takes something of every text that it takes: cut off
before what it takes, the text would be empty. -/
lemma Cuts.length_lt (h : Cuts n p r r') (hnil : Refuses r' [])
    (hbare : skip cursor.rest = cursor.rest)
    (hresult : (r cursor).result = some (value, behind)) :
    behind.rest.length < cursor.rest.length := by
  refine h.advances.length_lt (fun hnone => ?_) hresult
  have hcut : (r' ⟨cursor.offset, []⟩).result = some (value, ⟨cursor.offset, []⟩) :=
    h.cut (Nat.zero_le _) hbare hnone (skip_nil ▸ opens_nil)
  cases (hnil cursor.offset).symm.trans hcut

section Items

variable {item item' : Reader α} {first last : Cursor} {values : List α}

/-- Items before the place of the cut are taken likewise if each of them can follow another. -/
lemma Repeats.cut (hitem : Cuts n p item item') (hnil : Refuses item' [])
    (hbegins : ∀ cursor value behind, skip cursor.rest = cursor.rest →
      (item' cursor).result = some (value, behind) → Opens p cursor.rest)
    (h : Repeats item (cursor.append tail) values (last.append tail)) (hn : cursor.rest.length ≤ n)
    (hlast : Opens p (skip last.rest)) :
    Repeats item' cursor values last ∧
      values.length + last.rest.length ≤ cursor.rest.length := by
  generalize hfirst : cursor.append tail = first at h
  generalize hfinal : last.append tail = final at h
  induction h generalizing cursor with
  | nil =>
    obtain rfl := eq_of_append (hfirst.trans hfinal.symm)
    exact ⟨.nil _, by simp⟩
  | @cons _ middle final value values hvalue hrest ih =>
    subst hfirst hfinal
    rw [← result_blanks_bind] at hvalue
    obtain ⟨middle, rfl, hleads, -⟩ :=
      (advances_blanks.bind (fun _ => hitem.advances) _ _ _ hvalue).exists_append
        (hrest.leads hitem.advances)
    have hmiddle := hleads.length_le
    obtain ⟨hothers, hlength⟩ := ih (by omega) rfl rfl
    obtain ⟨hbare, hvalue⟩ := result_behind_blanks hitem.advances hvalue
    have hblanks := length_skipBlanks_le cursor
    have hfollows : Opens p (skip middle.rest) := hothers.start hbegins hlast
    have hcut := hitem.cut (by omega) hbare hvalue hfollows
    have hshorter := hitem.length_lt hnil hbare hvalue
    rw [Cursor.append, Cursor.append, List.length_append, List.length_append] at hshorter
    refine ⟨.cons hcut hothers, ?_⟩
    rw [List.length_cons]
    omega

/-- A repetition that is over before the place of the cut is over there with the text cut off. -/
lemma cuts_many (hitem : Cuts n p item item')
    (hbegins : ∀ cursor value behind, skip cursor.rest = cursor.rest →
      (item' cursor).result = some (value, behind) → Opens p cursor.rest)
    (hqp : ∀ c, q c → p c)
    (hstop : ∀ rest, skip rest = rest → Opens q rest → Refuses item' rest) :
    Cuts n q (many blanks item) (many blanks item') := by
  refine ⟨advances_many advances_blanks hitem.advances,
    fun {cursor values last tail} hn hbare hresult hrest => ?_⟩
  obtain ⟨hrepeats, -⟩ := repeats_of_many hbare hresult
  obtain ⟨hcut, hlength⟩ := Repeats.cut hitem (hstop [] skip_nil opens_nil) hbegins hrepeats hn
    (hrest.mono hqp)
  exact hcut.many (skip_of_append hbare) (by omega) (hstop _ (skip_skip _) hrest)

end Items

end Reader

end Source

end LabeledPeg
