import LabeledPeg.Proofs.Source.Document
import LabeledPeg.Proofs.Source.Pieces

/-!
# Readers in lockstep

Two readers at two places go in lockstep when both refuse or both take values that have something in
common. A reader of grammar texts sees the tokens only: at two places where the same tokens are left
it takes the same of them.
-/

namespace LabeledPeg.Source

open Text

/-! ## Two readers at two places -/

namespace Reader

variable {α β : Type} {r r' : Reader α} {cursor cursor' : Cursor}
  {q : α → α → Cursor → Cursor → Prop}

/-- Whether two readers at two places both refuse, or both take values of which `q` holds with the
places behind them. -/
def Agree (r r' : Reader α) (cursor cursor' : Cursor) (q : α → α → Cursor → Cursor → Prop) : Prop :=
  Option.Rel (fun found found' => q found.1 found'.1 found.2 found'.2)
    (r cursor).result (r' cursor').result

lemma Agree.cases (h : Agree r r' cursor cursor' q) :
    (r cursor).result = none ∧ (r' cursor').result = none ∨ ∃ value value' behind behind',
      (r cursor).result = some (value, behind) ∧ (r' cursor').result = some (value', behind') ∧
        q value value' behind behind' := by
  unfold Agree at h
  generalize (r cursor).result = found at h ⊢
  generalize (r' cursor').result = found' at h ⊢
  cases h with
  | some hq => exact .inr ⟨_, _, _, _, rfl, rfl, hq⟩
  | none => exact .inl ⟨rfl, rfl⟩

lemma agree_of_none (h : (r cursor).result = none) (h' : (r' cursor').result = none) :
    Agree r r' cursor cursor' q := by
  rw [Agree, h, h']
  exact .none

lemma agree_of_some {value value' : α} {behind behind' : Cursor}
    (h : (r cursor).result = some (value, behind)) (h' : (r' cursor').result = some (value', behind'))
    (hq : q value value' behind behind') : Agree r r' cursor cursor' q := by
  rw [Agree, h, h']
  exact .some hq

lemma agree_pure {value value' : α} (h : q value value' cursor cursor') :
    Agree (pure value) (pure value') cursor cursor' q := .some h

lemma Agree.mono {p : α → α → Cursor → Cursor → Prop} (h : Agree r r' cursor cursor' p)
    (hq : ∀ value value' behind behind', p value value' behind behind' →
      q value value' behind behind') : Agree r r' cursor cursor' q := by
  rcases h.cases with ⟨hnone, hnone'⟩ | ⟨value, value', behind, behind', hsome, hsome', hp⟩
  · exact agree_of_none hnone hnone'
  · exact agree_of_some hsome hsome' (hq _ _ _ _ hp)

/-- What readers do at two places is told by what they do there only. -/
lemma Agree.congr {s s' : Reader α} (h : Agree r r' cursor cursor' q) (heq : s cursor = r cursor)
    (heq' : s' cursor' = r' cursor') : Agree s s' cursor cursor' q := by
  rw [Agree, heq, heq']
  exact h

lemma Agree.bind {next next' : α → Reader β} {q' : β → β → Cursor → Cursor → Prop}
    (h : Agree r r' cursor cursor' q) (hnext : ∀ value value' behind behind',
      q value value' behind behind' → Agree (next value) (next' value') behind behind' q') :
    Agree (r >>= next) (r' >>= next') cursor cursor' q' := by
  rw [Agree, result_bind, result_bind]
  rcases h.cases with ⟨hnone, hnone'⟩ | ⟨value, value', behind, behind', hsome, hsome', hq⟩
  · rw [hnone, hnone']
    exact .none
  · rw [hsome, hsome']
    exact hnext _ _ _ _ hq

lemma Agree.orElse {other other' : Reader α} (h : Agree r r' cursor cursor' q)
    (hother : Agree other other' cursor cursor' q) :
    Agree (orElse r other) (orElse r' other') cursor cursor' q := by
  rw [Agree, result_orElse, result_orElse]
  rcases h.cases with ⟨hnone, hnone'⟩ | ⟨value, value', behind, behind', hsome, hsome', hq⟩
  · rw [hnone, hnone']
    exact hother
  · rw [hsome, hsome']
    exact .some hq

lemma Agree.named (h : Agree r r' cursor cursor' q) (term : Term) :
    Agree (named term r) (named term r') cursor cursor' q := by
  rw [Agree, result_named, result_named]
  exact h

lemma Agree.spanned (h : Agree r r' cursor cursor' q) :
    Agree (spanned r) (spanned r') cursor cursor' fun read read' => q read.1 read'.1 := by
  rw [Agree, result_spanned, result_spanned]
  rcases h.cases with ⟨hnone, hnone'⟩ | ⟨value, value', behind, behind', hsome, hsome', hq⟩
  · rw [hnone, hnone']
    exact .none
  · rw [hsome, hsome']
    exact .some hq

/-- What an option takes is the same, or nothing at both places. -/
lemma Agree.optional {p : Cursor → Cursor → Prop}
    (h : Agree r r' cursor cursor' fun value value' next next' => value = value' ∧ p next next')
    (hp : p cursor cursor') :
    Agree (optional r) (optional r') cursor cursor' fun value? value?' behind behind' =>
      value? = value?' ∧ p behind behind' :=
  (h.bind fun _ _ _ _ hvalue => agree_pure ⟨congrArg some hvalue.1, hvalue.2⟩).orElse
    (agree_pure ⟨rfl, hp⟩)

section Many

variable {between between' : Reader Unit} {item item' : Reader α} {rel : α → α → Prop}
  {p p' : Nat → Cursor → Cursor → Prop} {limit limit' m n : Nat}

/-- Items are taken in lockstep if each of them makes some measure of the text smaller, which the
limits exceed. -/
lemma agree_further
    (hbetween : ∀ m cursor cursor', p m cursor cursor' →
      Agree between between' cursor cursor' fun _ _ behind behind' => p' m behind behind')
    (hitem : ∀ m ≤ n, ∀ cursor cursor', p' m cursor cursor' →
      Agree item item' cursor cursor' fun value value' behind behind' =>
        rel value value' ∧ ∃ k < m, p k behind behind')
    (hm : m ≤ n) (hlimit : m < limit) (hlimit' : m < limit') (h : p m cursor cursor') :
    Agree (further between item limit) (further between' item' limit') cursor cursor'
      fun values values' behind behind' =>
        List.Forall₂ rel values values' ∧ ∃ k ≤ m, p k behind behind' := by
  induction limit generalizing limit' m cursor cursor' with
  | zero => omega
  | succ limit ih =>
    obtain ⟨limit', rfl⟩ : ∃ k, limit' = k + 1 := ⟨limit' - 1, by omega⟩
    refine Agree.orElse ?_ (agree_pure ⟨.nil, m, Nat.le_refl m, h⟩)
    refine (hbetween m _ _ h).bind fun _ _ start start' hstart => ?_
    refine (hitem m hm _ _ hstart).bind fun value value' middle middle' hvalue => ?_
    obtain ⟨hrel, k, hk, hmiddle⟩ := hvalue
    refine (ih (by omega) (by omega) (by omega) hmiddle).bind fun others others' _ _ hothers => ?_
    obtain ⟨hothers, j, hj, hbehind⟩ := hothers
    exact agree_pure ⟨.cons hrel hothers, j, by omega, hbehind⟩

lemma agree_many
    (hbetween : ∀ m cursor cursor', p m cursor cursor' →
      Agree between between' cursor cursor' fun _ _ behind behind' => p' m behind behind')
    (hitem : ∀ m ≤ n, ∀ cursor cursor', p' m cursor cursor' →
      Agree item item' cursor cursor' fun value value' behind behind' =>
        rel value value' ∧ ∃ k < m, p k behind behind')
    (hlimit : n ≤ cursor.rest.length) (hlimit' : n ≤ cursor'.rest.length)
    (h : p n cursor cursor') (h' : p' n cursor cursor') :
    Agree (many between item) (many between' item') cursor cursor'
      fun values values' behind behind' =>
        List.Forall₂ rel values values' ∧ ∃ k ≤ n, p k behind behind' := by
  refine Agree.congr (Agree.orElse ?_ (agree_pure ⟨.nil, n, Nat.le_refl n, h⟩)) rfl rfl
  refine (hitem n (Nat.le_refl n) _ _ h').bind fun value value' middle middle' hvalue => ?_
  obtain ⟨hrel, k, hk, hmiddle⟩ := hvalue
  refine (agree_further hbetween hitem (by omega) (by omega) (by omega) hmiddle).bind
    fun others others' _ _ hothers => ?_
  obtain ⟨hothers, j, hj, hbehind⟩ := hothers
  exact agree_pure ⟨.cons hrel hothers, j, by omega, hbehind⟩

end Many

end Reader

/-! ## Places with the same tokens left -/

variable {all : List (List Char)} {n : Nat} {cursor cursor' : Cursor}

/-- Whether the same tokens are left at two places, at most `n` of all tokens of a text. What was
read of them before has the characters that end it. -/
structure Cursor.Beside (all : List (List Char)) (n : Nat) (cursor cursor' : Cursor) : Prop where
  tokens_eq : tokens cursor.rest = tokens cursor'.rest
  read : ∃ read, all = read ++ tokens cursor.rest ∧ ∀ piece ∈ read, IsClosed piece
  length_le : (tokens cursor.rest).length ≤ n

/-- Whether the same tokens are left at two places, with nothing to skip before them. -/
structure Cursor.Poised (all : List (List Char)) (n : Nat) (cursor cursor' : Cursor) : Prop
    extends Beside all n cursor cursor' where
  skip_eq : skip cursor.rest = cursor.rest
  skip_eq' : skip cursor'.rest = cursor'.rest

/-- Whether the same tokens are left at two places, less than `n`. -/
def Cursor.Past (all : List (List Char)) (n : Nat) (cursor cursor' : Cursor) : Prop :=
  ∃ m < n, Beside all m cursor cursor'

namespace Cursor

lemma Beside.mono {m : Nat} (h : Beside all m cursor cursor') (hle : m ≤ n) :
    Beside all n cursor cursor' :=
  ⟨h.tokens_eq, h.read, Nat.le_trans h.length_le hle⟩

lemma Past.beside (h : Past all n cursor cursor') : Beside all n cursor cursor' := by
  obtain ⟨m, hm, h⟩ := h
  exact h.mono (Nat.le_of_lt hm)

lemma Past.mono {m : Nat} (h : Past all m cursor cursor') (hle : m ≤ n) :
    Past all n cursor cursor' := by
  obtain ⟨k, hk, h⟩ := h
  exact ⟨k, Nat.lt_of_lt_of_le hk hle, h⟩

lemma Beside.skipBlanks (h : Beside all n cursor cursor') :
    Poised all n cursor.skipBlanks cursor'.skipBlanks := by
  have htokens : ∀ c : Cursor, tokens c.skipBlanks.rest = tokens c.rest :=
    fun c => by rw [c.rest_skipBlanks, tokens_skip]
  refine ⟨⟨?_, ?_, ?_⟩, ?_, ?_⟩
  · rw [htokens, htokens, h.tokens_eq]
  · rw [htokens]
    exact h.read
  · rw [htokens]
    exact h.length_le
  · rw [cursor.rest_skipBlanks, skip_skip]
  · rw [cursor'.rest_skipBlanks, skip_skip]

lemma Poised.exact (h : Poised all n cursor cursor') :
    Poised all (tokens cursor.rest).length cursor cursor' :=
  ⟨⟨h.tokens_eq, h.read, Nat.le_refl _⟩, h.skip_eq, h.skip_eq'⟩

/-- Where tokens are left, the same one stands at both places. -/
lemma Poised.cases (h : Poised all n cursor cursor') :
    cursor.rest = [] ∧ cursor'.rest = [] ∨ ∃ piece behind behind',
      cursor.rest = piece ++ behind ∧ cursor'.rest = piece ++ behind' ∧
        Ends piece behind.head? ∧ Ends piece behind'.head? ∧ isGap piece = false ∧
        (IsClosed piece → ∀ next next' : Cursor, next.rest = behind → next'.rest = behind' →
          Past all n next next') := by
  have htoken : ∀ piece behind, Ends piece behind.head? → isGap piece = false →
      tokens (piece ++ behind) = piece :: tokens behind := by
    intro piece behind hends hgap
    rw [tokens_of_ends hends, hgap, if_neg (by decide)]
  have hsame := h.tokens_eq
  rcases h.skip_eq ▸ exists_token cursor.rest with hnil | ⟨piece, behind, hrest, hends, hgap⟩
  · rcases h.skip_eq' ▸ exists_token cursor'.rest with hnil' | ⟨piece', behind', hrest', hends', hgap'⟩
    · exact .inl ⟨hnil, hnil'⟩
    · rw [hnil, hrest', htoken _ _ hends' hgap'] at hsame
      simp [tokens, pieces] at hsame
  · rcases h.skip_eq' ▸ exists_token cursor'.rest with hnil' | ⟨piece', behind', hrest', hends', hgap'⟩
    · rw [hnil', hrest, htoken _ _ hends hgap] at hsame
      simp [tokens, pieces] at hsame
    · rw [hrest, hrest', htoken _ _ hends hgap, htoken _ _ hends' hgap'] at hsame
      obtain ⟨rfl, hbehind⟩ := List.cons.inj hsame
      refine .inr ⟨piece, behind, behind', hrest, hrest', hends, hends', hgap, ?_⟩
      rintro hclosed next next' rfl rfl
      obtain ⟨read, hall, hread⟩ := h.read
      rw [hrest, htoken _ _ hends hgap] at hall
      have hlength := h.length_le
      rw [hrest, htoken _ _ hends hgap, List.length_cons] at hlength
      refine ⟨n - 1, by omega, hbehind, ⟨read ++ [piece], by simp [hall], ?_⟩, by omega⟩
      exact List.forall_mem_append.mpr ⟨hread, List.forall_mem_singleton.mpr hclosed⟩

end Cursor

namespace Reader

open Cursor

variable {α β : Type} {rel : α → α → Prop} {r r' : Reader α} {p : α → Prop}

/-- Whether two readers go in lockstep from all places with the same tokens left, and take some. -/
def Alike (all : List (List Char)) (n : Nat) (rel : α → α → Prop) (r r' : Reader α) : Prop :=
  ∀ cursor cursor', Poised all n cursor cursor' → Agree r r' cursor cursor'
    fun value value' behind behind' => rel value value' ∧ Past all n behind behind'

lemma agree_blanks (h : Beside all n cursor cursor') :
    Agree blanks blanks cursor cursor' fun _ _ => Poised all n := .some h.skipBlanks

/-- Whether a reader looks at the first token only, and takes it if it has the character that ends
it. -/
structure OneToken (rel : α → α → Prop) (r : Reader α) : Prop where
  nil : Refuses r []
  token : ∀ piece behind behind', Ends piece behind.head? → Ends piece behind'.head? →
    isGap piece = false → ∀ offset offset',
      Agree r r ⟨offset, piece ++ behind⟩ ⟨offset', piece ++ behind'⟩ fun value value' next next' =>
        rel value value' ∧ IsClosed piece ∧ next.rest = behind ∧ next'.rest = behind'

lemma OneToken.named (h : OneToken rel r) (term : Term) : OneToken rel (named term r) :=
  ⟨h.nil.named term, fun piece behind behind' hends hends' hgap offset offset' =>
    (h.token piece behind behind' hends hends' hgap offset offset').named term⟩

lemma OneToken.orElse {other : Reader α} (h : OneToken rel r) (hother : OneToken rel other) :
    OneToken rel (orElse r other) :=
  ⟨h.nil.orElse hother.nil, fun piece behind behind' hends hends' hgap offset offset' =>
    (h.token piece behind behind' hends hends' hgap offset offset').orElse
      (hother.token piece behind behind' hends hends' hgap offset offset')⟩

/-- What is made of a token and its span. -/
lemma OneToken.spanned {rel' : β → β → Prop} (h : OneToken rel r) {f : α × Span → β}
    (hf : ∀ read read', rel read.1 read'.1 → rel' (f read) (f read')) :
    OneToken rel' (spanned r >>= fun read => pure (f read)) :=
  ⟨h.nil.spanned.bind, fun piece behind behind' hends hends' hgap offset offset' =>
    (h.token piece behind behind' hends hends' hgap offset offset').spanned.bind
      fun read read' _ _ hread => agree_pure ⟨hf read read' hread.1, hread.2⟩⟩

lemma alike_of_token (h : OneToken rel r) : Alike all n rel r r := by
  intro cursor cursor' hpoised
  obtain ⟨offset, rest⟩ := cursor
  obtain ⟨offset', rest'⟩ := cursor'
  rcases hpoised.cases with ⟨hrest, hrest'⟩ | ⟨piece, behind, behind', hrest, hrest', hends, hends',
    hgap, hpast⟩
  · obtain rfl : rest = [] := hrest
    obtain rfl : rest' = [] := hrest'
    exact agree_of_none (h.nil offset) (h.nil offset')
  · obtain rfl : rest = piece ++ behind := hrest
    obtain rfl : rest' = piece ++ behind' := hrest'
    refine (h.token piece behind behind' hends hends' hgap offset offset').mono
      fun value value' next next' hread => ?_
    obtain ⟨hrel, hclosed, hnext, hnext'⟩ := hread
    exact ⟨hrel, hpast hclosed next next' hnext hnext'⟩

lemma agree_of_refuses {q : α → α → Cursor → Cursor → Prop} (h : Refuses r cursor.rest)
    (h' : Refuses r cursor'.rest) : Agree r r cursor cursor' q :=
  agree_of_none (h cursor.offset) (h' cursor'.offset)

lemma agree_of_takes {rest rest' : List Char} (h : Takes r p cursor.rest rest)
    (h' : Takes r p cursor'.rest rest')
    (hrel : ∀ value value', p value → p value' → rel value value') :
    Agree r r cursor cursor' fun value value' next next' =>
      rel value value' ∧ next.rest = rest ∧ next'.rest = rest' := by
  obtain ⟨value, offset, hvalue, hp⟩ := h cursor.offset
  obtain ⟨value', offset', hvalue', hp'⟩ := h' cursor'.offset
  exact agree_of_some hvalue hvalue' ⟨hrel value value' hp hp', rfl, rfl⟩

/-- A reader that takes some token as one value, or refuses it, whatever follows. -/
lemma oneToken_of_takes (hnil : Refuses r []) (h : ∀ piece, isGap piece = false →
      (∀ behind, Ends piece behind.head? → Refuses r (piece ++ behind)) ∨
        IsClosed piece ∧ ∃ p : α → Prop, (∀ value value', p value → p value' → rel value value') ∧
          ∀ behind, Ends piece behind.head? → Takes r p (piece ++ behind) behind) :
    OneToken rel r := by
  refine ⟨hnil, fun piece behind behind' hends hends' hgap offset offset' => ?_⟩
  rcases h piece hgap with hrefuses | ⟨hclosed, p, hrel, htakes⟩
  · exact agree_of_refuses (hrefuses behind hends) (hrefuses behind' hends')
  · exact (agree_of_takes (htakes behind hends) (htakes behind' hends') hrel).mono
      fun _ _ _ _ hread => ⟨hread.1, hclosed, hread.2⟩

/-! ## The tokens -/

lemma oneToken_oneOf {accepts : Char → Bool} (h : ∀ c, accepts c = true → isSymbol c = true) :
    OneToken Eq (oneOf accepts) := by
  refine oneToken_of_takes (refuses_oneOf (by simp)) fun piece hgap => ?_
  cases piece with
  | nil => cases hgap
  | cons c tail =>
    cases hc : accepts c with
    | false => exact .inl fun behind _ => refuses_oneOf (by simpa using hc)
    | true =>
      refine .inr ⟨isClosed_of_closing?_eq_none (isSymbol_iff.mp (h c hc)).1.1, (· = c),
        fun _ _ hvalue hvalue' => hvalue.trans hvalue'.symm, fun behind hends => ?_⟩
      obtain rfl := hends.eq_symbol (h c hc) hgap
      exact takes_oneOf hc

lemma oneToken_symbol {c : Char} (hc : isSymbol c = true) :
    OneToken (fun _ _ => True) (token [c]) := by
  refine oneToken_of_takes (refuses_token (by simp)) fun piece hgap => ?_
  cases piece with
  | nil => cases hgap
  | cons d tail =>
    by_cases hd : d = c
    · subst hd
      refine .inr ⟨isClosed_of_closing?_eq_none (isSymbol_iff.mp hc).1.1, fun _ => True,
        fun _ _ _ _ => trivial, fun behind hends => ?_⟩
      obtain rfl := hends.eq_symbol hc hgap
      exact takes_symbol d
    · exact .inl fun behind _ => refuses_token (by simpa using hd)

lemma alike_symbol {c : Char} (hc : isSymbol c = true) :
    Alike all n (fun _ _ => True) (token [c]) (token [c]) := alike_of_token (oneToken_symbol hc)

lemma oneToken_arrow : OneToken (fun _ _ => True) (token ['<', '-']) := by
  refine oneToken_of_takes (refuses_token (by simp)) fun piece hgap => ?_
  by_cases hpiece : piece = ['<', '-']
  · subst hpiece
    exact .inr ⟨isClosed_of_closing?_eq_none rfl, fun _ => True, fun _ _ _ _ => trivial,
      fun behind _ => takes_token ['<', '-']⟩
  · exact .inl fun behind hends => refuses_absent_token fun hbegins => hpiece (hends.eq_arrow hbegins)

lemma alike_arrow : Alike all n (fun _ _ => True) (token ['<', '-']) (token ['<', '-']) :=
  alike_of_token oneToken_arrow

lemma isAsciiIdentifier_of_ends {c : Char} {tail : List Char} {next? : Option Char}
    (h : Ends (c :: tail) next?) (hc : isAsciiStart c = true) :
    isAsciiIdentifier (String.ofList (c :: tail)) = true :=
  isAsciiIdentifier_iff.mpr ⟨c, tail, String.toList_ofList, hc, (h.of_isAsciiStart hc).1⟩

lemma oneToken_identifier : OneToken Eq identifier := by
  refine oneToken_of_takes (refuses_identifier (by simp)) fun piece hgap => ?_
  cases piece with
  | nil => cases hgap
  | cons c tail =>
    cases hc : isAsciiStart c with
    | false => exact .inl fun behind _ => refuses_identifier (by simpa using hc)
    | true =>
      refine .inr ⟨isClosed_of_closing?_eq_none (closing?_of_isAsciiStart hc),
        (· = String.ofList (c :: tail)), fun _ _ hvalue hvalue' => hvalue.trans hvalue'.symm,
        fun behind hends => ?_⟩
      have htakes := takes_identifier (isAsciiIdentifier_of_ends hends hc)
        (hends.of_isAsciiStart hc).2
      rwa [String.toList_ofList] at htakes

lemma alike_identifier : Alike all n Eq identifier identifier := alike_of_token oneToken_identifier

lemma oneToken_keyword {word : List Char} (hword : isAsciiIdentifier (String.ofList word) = true)
    (term : Term) : OneToken (fun _ _ => True) (keyword term word) := by
  have hletters := isAsciiContinue_of_mem hword
  obtain ⟨first, others, hchars, hfirst, -⟩ := isAsciiIdentifier_iff.mp hword
  rw [String.toList_ofList] at hletters hchars
  subst hchars
  refine oneToken_of_takes ((refuses_token (by simp)).bind.named _) fun piece hgap => ?_
  by_cases hpiece : piece = first :: others
  · subst hpiece
    refine .inr ⟨isClosed_of_closing?_eq_none (closing?_of_isAsciiStart hfirst), fun _ => True,
      fun _ _ _ _ => trivial, fun behind hends => ?_⟩
    exact takes_keyword _ (hends.of_isAsciiStart hfirst).2
  · refine .inl fun behind hends => ?_
    obtain ⟨c, tail, rfl⟩ := List.exists_cons_of_ne_nil hends.ne_nil
    cases hc : isAsciiStart c with
    | false =>
      have hne : c ≠ first := (ne_of_isAsciiStart hfirst c hc).symm
      exact (refuses_token (by simpa using hne)).bind.named _
    | true =>
      have hname := isAsciiIdentifier_of_ends hends hc
      rw [← String.toList_ofList (l := c :: tail)] at hpiece ⊢
      exact refuses_keyword hname hpiece hletters (hends.of_isAsciiStart hc).2

lemma alike_keyword {word : List Char} (hword : isAsciiIdentifier (String.ofList word) = true)
    (term : Term) : Alike all n (fun _ _ => True) (keyword term word) (keyword term word) :=
  alike_of_token (oneToken_keyword hword term)

end Reader

end LabeledPeg.Source
