import LabeledPeg.Proofs.Source.Reader
import LabeledPeg.Source.Document
import Mathlib.Tactic.Lemma

/-!
# Places that readers reach

A reader only moves forward over whole characters, so every place that it stops at, and every place
that it reports, is the boundary of a character of the text. What holds of the value of a reader is
told along with the place behind it.
-/

namespace LabeledPeg.Source

/-- Whether a place is behind another one, some text farther on. -/
def Cursor.Leads (cursor behind : Cursor) : Prop :=
  ∃ taken : String, cursor.rest = taken.toList ++ behind.rest ∧
    behind.offset = cursor.offset + taken.utf8ByteSize

/-- Whether an offset is the boundary of a character of a text. -/
def IsBoundary (source : String) (offset : Nat) : Prop := String.Pos.Raw.IsValid source ⟨offset⟩

namespace Cursor.Leads

variable {cursor middle behind : Cursor} {source : String}

lemma refl (cursor : Cursor) : cursor.Leads cursor := ⟨"", by simp, by simp⟩

lemma trans (h : cursor.Leads middle) (h' : middle.Leads behind) : cursor.Leads behind := by
  obtain ⟨first, hrest, hoffset⟩ := h
  obtain ⟨second, hrest', hoffset'⟩ := h'
  refine ⟨first ++ second, ?_, ?_⟩
  · rw [hrest, hrest', String.toList_append, List.append_assoc]
  · rw [hoffset', hoffset, String.utf8ByteSize_append, Nat.add_assoc]

lemma offset_le (h : cursor.Leads behind) : cursor.offset ≤ behind.offset := by
  obtain ⟨taken, -, hoffset⟩ := h
  omega

lemma cons (offset : Nat) (c : Char) (rest : List Char) :
    Leads ⟨offset, c :: rest⟩ ⟨offset + c.utf8Size, rest⟩ := by
  refine ⟨String.singleton c, ?_, ?_⟩
  · rw [String.toList_singleton]
    rfl
  · rw [String.utf8ByteSize_singleton]

lemma isBoundary (h : (Cursor.ofString source).Leads behind) : IsBoundary source behind.offset := by
  obtain ⟨taken, hrest, hoffset⟩ := h
  have hsource : source = taken ++ String.ofList behind.rest := by
    apply String.toList_injective
    rw [String.toList_append, String.toList_ofList]
    exact hrest
  refine String.Pos.Raw.isValid_iff_exists_append.mpr ⟨taken, _, hsource, ?_⟩
  have hzero : behind.offset = taken.utf8ByteSize := by simpa [Cursor.ofString] using hoffset
  rw [hzero]
  rfl

end Cursor.Leads

/-! ## How far the primitives move -/

section Primitives

variable {cursor behind : Cursor}

lemma leads_next {c : Char} (h : cursor.next? = some (c, behind)) : cursor.Leads behind := by
  obtain ⟨offset, rest⟩ := cursor
  cases rest with
  | nil => cases h
  | cons c' rest =>
    obtain ⟨rfl, rfl⟩ := Prod.mk.inj (Option.some.inj h)
    exact .cons offset c' rest

lemma leads_after {text : List Char} (h : cursor.after? text = some behind) :
    cursor.Leads behind := by
  induction text generalizing cursor with
  | nil =>
    simp only [Cursor.after?, Option.some.injEq] at h
    exact h ▸ .refl cursor
  | cons t text ih =>
    obtain ⟨offset, rest⟩ := cursor
    cases rest with
    | nil => cases h
    | cons c rest =>
      rw [Cursor.after?] at h
      split at h
      · exact (Cursor.Leads.cons offset c rest).trans (ih h)
      · cases h

lemma leads_skipFrom (commented : Bool) (offset : Nat) (rest : List Char) :
    Cursor.Leads ⟨offset, rest⟩ (skipFrom commented offset rest) := by
  fun_induction skipFrom commented offset rest with
  | case1 => exact .refl _
  | case2 offset rest ih =>
    have hslashes : Cursor.Leads ⟨offset, '/' :: '/' :: rest⟩ ⟨offset + 2, rest⟩ :=
      (Cursor.Leads.cons offset '/' ('/' :: rest)).trans (.cons (offset + 1) '/' rest)
    exact hslashes.trans ih
  | case3 offset c rest _ _ ih => exact (Cursor.Leads.cons offset c rest).trans ih
  | case4 => exact .refl _
  | case5 offset c rest ih => exact (Cursor.Leads.cons offset c rest).trans ih

lemma leads_identifierTail (offset : Nat) (rest : List Char) :
    Cursor.Leads ⟨offset, rest⟩ (identifierTail offset rest).2 := by
  induction rest generalizing offset with
  | nil => exact .refl _
  | cons c rest ih =>
    rw [identifierTail]
    split
    · exact (Cursor.Leads.cons offset c rest).trans (ih _)
    · exact .refl _

lemma leads_quotedBody (quote : Char) (offset : Nat) (rest : List Char) :
    Cursor.Leads ⟨offset, rest⟩ (quotedBody quote offset rest).2 := by
  fun_induction quotedBody quote offset rest with
  | case1 => exact .refl _
  | case2 offset c rest body behind hbody ih =>
    rw [hbody] at ih
    exact ((Cursor.Leads.cons offset '\\' (c :: rest)).trans (.cons (offset + 1) c rest)).trans ih
  | case3 => exact .refl _
  | case4 offset c rest _ _ body behind hbody ih =>
    rw [hbody] at ih
    exact (Cursor.Leads.cons offset c rest).trans ih

lemma leads_classChar {c : Char} (h : classChar? cursor = some (c, behind)) :
    cursor.Leads behind := by
  unfold classChar? at h
  split at h
  · next offset c rest =>
    obtain ⟨-, rfl⟩ := Prod.mk.inj (Option.some.inj h)
    exact (Cursor.Leads.cons offset '\\' (c :: rest)).trans (.cons (offset + 1) c rest)
  · next offset c rest _ =>
    split at h
    · cases h
    · obtain ⟨-, rfl⟩ := Prod.mk.inj (Option.some.inj h)
      exact .cons offset c rest
  · cases h

end Primitives

/-! ## What a reader tells -/

namespace Reader

variable {α β : Type} {source : String} {r : Reader α} {cursor : Cursor} {q : α → Cursor → Prop}

/-- Whether a reader, at a place of a text, only moves forward, reports a boundary, and gives a value
of which `q` holds with the place behind it. -/
structure Marks (source : String) (r : Reader α) (cursor : Cursor) (q : α → Cursor → Prop) : Prop where
  value : ∀ value behind, (r cursor).result = some (value, behind) →
    cursor.Leads behind ∧ q value behind
  expected : IsBoundary source (r cursor).expected.position

/-- Whether a place is one of a text. -/
abbrev IsPlace (source : String) (cursor : Cursor) : Prop := (Cursor.ofString source).Leads cursor

lemma isBoundary_zero (source : String) : IsBoundary source 0 :=
  (Cursor.Leads.refl (.ofString source)).isBoundary

lemma Marks.mono {p : α → Cursor → Prop} (h : Marks source r cursor p)
    (hq : ∀ value behind, cursor.Leads behind → p value behind → q value behind) :
    Marks source r cursor q := by
  refine ⟨fun value behind hrun => ?_, h.expected⟩
  obtain ⟨hleads, hp⟩ := h.value value behind hrun
  exact ⟨hleads, hq value behind hleads hp⟩

/-- What a reader tells at a place depends on what it does there only. -/
lemma Marks.congr {r' : Reader α} (h : Marks source r cursor q) (heq : r' cursor = r cursor) :
    Marks source r' cursor q := by
  refine ⟨fun value behind hrun => ?_, heq ▸ h.expected⟩
  rw [heq] at hrun
  exact h.value value behind hrun

lemma marks_pure {value : α} (h : q value cursor) : Marks source (pure value) cursor q := by
  refine ⟨fun value' behind hrun => ?_, isBoundary_zero source⟩
  obtain ⟨rfl, rfl⟩ := Prod.mk.inj (Option.some.inj hrun)
  exact ⟨.refl cursor, h⟩

lemma marks_refuse : Marks source (refuse : Reader α) cursor q := by
  refine ⟨fun value behind hrun => ?_, isBoundary_zero source⟩
  cases hrun

lemma marks_ofCursor {step : Cursor → Option (α × Cursor)}
    (h : ∀ value behind, step cursor = some (value, behind) → cursor.Leads behind ∧ q value behind) :
    Marks source (ofCursor step) cursor q := ⟨h, isBoundary_zero source⟩

lemma isBoundary_merge {earlier later : Expectation} (h : IsBoundary source earlier.position)
    (h' : IsBoundary source later.position) : IsBoundary source (earlier.merge later).position := by
  unfold Expectation.merge
  split
  · exact h
  · split
    · exact h'
    · split
      · exact h
      · exact h'

lemma isBoundary_missed {term : Term} {start : Nat} {inner : Expectation}
    (hstart : IsBoundary source start) (h : IsBoundary source inner.position) :
    IsBoundary source (Expectation.missed term start inner).position := by
  unfold Expectation.missed
  split
  · exact hstart
  · exact h

lemma Marks.bind {next : α → Reader β} {q' : β → Cursor → Prop} (h : Marks source r cursor q)
    (hnext : ∀ value behind, cursor.Leads behind → q value behind →
      Marks source (next value) behind q') : Marks source (r >>= next) cursor q' := by
  change Marks source (andThen r next) cursor q'
  cases hrun : (r cursor).result with
  | none =>
    have hread : andThen r next cursor = ⟨none, (r cursor).expected⟩ := by
      simp only [andThen, hrun]
    refine ⟨fun value behind hvalue => ?_, hread ▸ h.expected⟩
    rw [hread] at hvalue
    cases hvalue
  | some found =>
    obtain ⟨value, middle⟩ := found
    obtain ⟨hleads, hq⟩ := h.value value middle hrun
    have hrest := hnext value middle hleads hq
    have hread : andThen r next cursor = ⟨(next value middle).result,
        (r cursor).expected.merge (next value middle).expected⟩ := by
      simp only [andThen, hrun]
    refine ⟨fun value' behind hvalue => ?_, hread ▸ isBoundary_merge h.expected hrest.expected⟩
    rw [hread] at hvalue
    obtain ⟨hleads', hq'⟩ := hrest.value value' behind hvalue
    exact ⟨hleads.trans hleads', hq'⟩

lemma Marks.orElse {other : Reader α} (h : Marks source r cursor q)
    (hother : Marks source other cursor q) : Marks source (orElse r other) cursor q := by
  cases hrun : (r cursor).result with
  | some found =>
    have hread : Reader.orElse r other cursor = ⟨some found, (r cursor).expected⟩ := by
      simp only [Reader.orElse, hrun]
    refine ⟨fun value behind hvalue => ?_, hread ▸ h.expected⟩
    rw [hread] at hvalue
    exact h.value value behind (hrun.trans hvalue)
  | none =>
    have hread : Reader.orElse r other cursor =
        ⟨(other cursor).result, (r cursor).expected.merge (other cursor).expected⟩ := by
      simp only [Reader.orElse, hrun]
    refine ⟨fun value behind hvalue => ?_, hread ▸ isBoundary_merge h.expected hother.expected⟩
    rw [hread] at hvalue
    exact hother.value value behind hvalue

lemma Marks.named (h : Marks source r cursor q) (hplace : IsPlace source cursor) (term : Term) :
    Marks source (named term r) cursor q := by
  refine ⟨fun value behind hvalue => ?_, ?_⟩
  · rw [result_named] at hvalue
    exact h.value value behind hvalue
  · unfold Reader.named
    dsimp only
    split
    · exact h.expected
    · exact isBoundary_missed hplace.isBoundary h.expected

lemma Marks.spanned (h : Marks source r cursor q) :
    Marks source (spanned r) cursor fun read behind =>
      q read.1 behind ∧ read.2 = ⟨cursor.offset, behind.offset⟩ := by
  refine ⟨fun read behind hrun => ?_, h.expected⟩
  rw [result_spanned] at hrun
  obtain ⟨⟨value, behind'⟩, hvalue, heq⟩ := Option.map_eq_some_iff.mp hrun
  obtain ⟨rfl, rfl⟩ := Prod.mk.inj heq
  obtain ⟨hleads, hq⟩ := h.value value behind' hvalue
  exact ⟨hleads, hq, rfl⟩

lemma Marks.optional (h : Marks source r cursor q) :
    Marks source (optional r) cursor fun value? behind => ∀ value ∈ value?, q value behind := by
  refine (h.bind fun value behind _ hq => marks_pure ?_).orElse (marks_pure (by simp))
  intro value' hvalue
  rwa [Option.some.inj hvalue] at hq

/-- Whether items lie one after the other between two offsets, each as `p` says between its own. -/
inductive Laid (p : α → Nat → Nat → Prop) : Nat → List α → Nat → Prop
  | nil {first last : Nat} (h : first ≤ last) : Laid p first [] last
  | cons {first start stop last : Nat} {item : α} {items : List α} (hfirst : first ≤ start)
    (h : p item start stop) (hrest : Laid p stop items last) : Laid p first (item :: items) last

lemma Laid.from_le {p : α → Nat → Nat → Prop} {items : List α} {first first' last : Nat}
    (h : Laid p first items last) (hfirst : first' ≤ first) : Laid p first' items last := by
  cases h with
  | nil h => exact .nil (Nat.le_trans hfirst h)
  | cons hstart h hrest => exact .cons (Nat.le_trans hfirst hstart) h hrest

section Many

variable {between : Reader Unit} {item : Reader α} {p : α → Nat → Nat → Prop}

lemma marks_further
    (hbetween : ∀ cursor, IsPlace source cursor → Marks source between cursor fun _ _ => True)
    (hitem : ∀ cursor, IsPlace source cursor →
      Marks source item cursor fun value behind => p value cursor.offset behind.offset)
    (limit : Nat) (hplace : IsPlace source cursor) :
    Marks source (further between item limit) cursor fun values behind =>
      Laid p cursor.offset values behind.offset := by
  induction limit generalizing cursor with
  | zero => exact marks_pure (.nil (Nat.le_refl _))
  | succ limit ih =>
    refine Marks.orElse ?_ (marks_pure (.nil (Nat.le_refl _)))
    refine (hbetween cursor hplace).bind fun _ start hstart _ => ?_
    have hstartPlace : IsPlace source start := hplace.trans hstart
    refine (hitem start hstartPlace).bind fun first behind hfirst hp => ?_
    refine (ih (hstartPlace.trans hfirst)).bind fun others behind' _ hothers => ?_
    exact marks_pure (.cons hstart.offset_le hp hothers)

lemma marks_many
    (hbetween : ∀ cursor, IsPlace source cursor → Marks source between cursor fun _ _ => True)
    (hitem : ∀ cursor, IsPlace source cursor →
      Marks source item cursor fun value behind => p value cursor.offset behind.offset)
    (hplace : IsPlace source cursor) :
    Marks source (many between item) cursor fun values behind =>
      Laid p cursor.offset values behind.offset := by
  refine Marks.congr (Marks.orElse ?_ (marks_pure (.nil (Nat.le_refl _)))) rfl
  refine (hitem cursor hplace).bind fun first behind hfirst hp => ?_
  refine (marks_further hbetween hitem _ (hplace.trans hfirst)).bind fun others behind' _ hothers => ?_
  exact marks_pure (.cons (Nat.le_refl _) hp hothers)

end Many

/-! ## The tokens -/

lemma marks_oneOf {accepts : Char → Bool} : Marks source (oneOf accepts) cursor fun _ _ => True := by
  refine marks_ofCursor fun c behind h => ⟨?_, trivial⟩
  obtain ⟨hnext, -⟩ := Option.filter_eq_some_iff.mp h
  exact leads_next hnext

lemma marks_token (text : List Char) : Marks source (token text) cursor fun _ _ => True := by
  refine marks_ofCursor fun _ behind h => ⟨?_, trivial⟩
  obtain ⟨behind', hafter, heq⟩ := Option.map_eq_some_iff.mp h
  obtain ⟨-, rfl⟩ := Prod.mk.inj heq
  exact leads_after hafter

lemma marks_require (condition : Cursor → Bool) :
    Marks source (require condition) cursor fun _ _ => True := by
  refine marks_ofCursor fun _ behind h => ⟨?_, trivial⟩
  split at h
  · obtain ⟨-, rfl⟩ := Prod.mk.inj (Option.some.inj h)
    exact .refl cursor
  · cases h

lemma marks_blanks : Marks source blanks cursor fun _ _ => True := by
  refine marks_ofCursor fun _ behind h => ⟨?_, trivial⟩
  obtain ⟨-, rfl⟩ := Prod.mk.inj (Option.some.inj h)
  exact leads_skipFrom false cursor.offset cursor.rest

lemma marks_identifier (hplace : IsPlace source cursor) :
    Marks source identifier cursor fun _ _ => True := by
  refine Marks.named (marks_oneOf.bind fun first middle _ _ => ?_) hplace _
  refine Marks.bind (q := fun _ _ => True) (marks_ofCursor fun tail behind h => ?_)
    fun tail behind _ _ => marks_pure trivial
  have hbehind : (identifierTail middle.offset middle.rest).2 = behind :=
    congrArg Prod.snd (Option.some.inj h)
  exact ⟨hbehind ▸ leads_identifierTail middle.offset middle.rest, trivial⟩

lemma marks_keyword (hplace : IsPlace source cursor) (term : Term) (word : List Char) :
    Marks source (keyword term word) cursor fun _ _ => True :=
  Marks.named ((marks_token word).bind fun _ _ _ _ => marks_require _) hplace term

lemma marks_quotedWith (quote : Char) :
    Marks source (quotedWith quote) cursor fun _ _ => True := by
  refine (marks_token [quote]).bind fun _ middle _ _ => ?_
  refine Marks.bind (q := fun _ _ => True) (marks_ofCursor fun body behind h => ?_)
    fun body behind _ _ => (marks_token [quote]).bind fun _ _ _ _ => marks_pure trivial
  have hbehind : (quotedBody quote middle.offset middle.rest).2 = behind :=
    congrArg Prod.snd (Option.some.inj h)
  exact ⟨hbehind ▸ leads_quotedBody quote middle.offset middle.rest, trivial⟩

lemma marks_classChar (hplace : IsPlace source cursor) :
    Marks source classChar cursor fun _ _ => True :=
  Marks.named (marks_ofCursor fun _ _ h => ⟨leads_classChar h, trivial⟩) hplace _

end Reader

end LabeledPeg.Source
