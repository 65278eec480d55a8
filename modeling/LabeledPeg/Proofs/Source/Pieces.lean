import LabeledPeg.Proofs.Source.Reader
import LabeledPeg.Source.Token
import Mathlib.Tactic.Lemma

/-!
# Pieces of a grammar text

A grammar text falls into pieces: tokens, blanks and comments. Where a piece ends is told by the
characters in it and the one behind it. Blanks and comments that are put between two pieces leave the
tokens of the text as they are, unless a slash meets a comment.
-/

namespace LabeledPeg.Source

open Text

/-- How many characters stand before the first `close` that has no backslash before it. -/
def lengthBefore (close : Char) : List Char → Nat
  | [] => 0
  | '\\' :: _ :: rest => lengthBefore close rest + 2
  | c :: rest => if c = close then 0 else lengthBefore close rest + 1

/-- The character that ends a quoted text or a class which begins with the given one. -/
def closing? (c : Char) : Option Char :=
  if c = '\'' ∨ c = '"' then some c else if c = '[' then some ']' else none

/-- The characters behind the first one that belong to the same piece. -/
def pieceTail (c : Char) (rest : List Char) : List Char :=
  match closing? c with
  | some close => rest.take (lengthBefore close rest + 1)
  | none =>
    if c = '/' ∧ rest.head? = some '/' then rest.takeWhile fun c => !isLineEnd c
    else if c = '<' ∧ rest.head? = some '-' then ['-']
    else if isAsciiStart c then rest.takeWhile isAsciiContinue
    else []

/-- The pieces of a text: names, arrows, quoted texts, classes and comments, and every other
character by itself. -/
def pieces : List Char → List (List Char)
  | [] => []
  | c :: rest => (c :: pieceTail c rest) :: pieces (rest.drop (pieceTail c rest).length)
termination_by source => source.length
decreasing_by simp only [List.length_drop, List.length_cons]; omega

/-- Whether a piece is a blank or a comment. -/
def isGap : List Char → Bool
  | [] => true
  | '/' :: '/' :: _ => true
  | c :: _ => isBlank c

/-- The pieces that have a meaning. -/
def tokens (source : List Char) : List (List Char) :=
  (pieces source).filter fun piece => !isGap piece

/-- Whether a piece has the character that ends it. -/
def IsClosed : List Char → Prop
  | [] => True
  | c :: rest => ∀ close ∈ closing? c, lengthBefore close rest < rest.length

/-- Blanks, and comments with the ends of their lines. -/
inductive IsBlankText : List Char → Prop
  | nil : IsBlankText []
  | blank {c : Char} {rest : List Char} (hc : isBlank c = true) (hrest : IsBlankText rest) :
    IsBlankText (c :: rest)
  | comment {body : List Char} {c : Char} {rest : List Char}
    (hbody : ∀ c ∈ body, isLineEnd c = false) (hc : isLineEnd c = true) (hrest : IsBlankText rest) :
    IsBlankText ('/' :: '/' :: (body ++ c :: rest))

/-- How a piece ends before the character behind it. -/
inductive Ends : List Char → Option Char → Prop
  | closed {c close : Char} {inside : List Char} {next? : Option Char}
    (hclose : closing? c = some close) (hlength : lengthBefore close inside + 1 = inside.length) :
    Ends (c :: inside) next?
  | unclosed {c close : Char} {inside : List Char} (hclose : closing? c = some close)
    (hlength : lengthBefore close inside = inside.length) : Ends (c :: inside) none
  | comment {body : List Char} {next? : Option Char} (hbody : ∀ c ∈ body, isLineEnd c = false)
    (hnext : ∀ c ∈ next?, isLineEnd c = true) : Ends ('/' :: '/' :: body) next?
  | arrow {next? : Option Char} : Ends ['<', '-'] next?
  | name {c : Char} {others : List Char} {next? : Option Char} (hfirst : isAsciiStart c = true)
    (hothers : ∀ c ∈ others, isAsciiContinue c = true)
    (hnext : ∀ c ∈ next?, isAsciiContinue c = false) : Ends (c :: others) next?
  | symbol {c : Char} {next? : Option Char} (hclose : closing? c = none)
    (hname : isAsciiStart c = false) (hslash : c = '/' → next? ≠ some '/')
    (harrow : c = '<' → next? ≠ some '-') : Ends [c] next?

section Pieces

variable {c : Char} {piece source rest behind : List Char}

lemma lengthBefore_le (close : Char) (source : List Char) :
    lengthBefore close source ≤ source.length := by
  fun_induction lengthBefore close source with
  | case1 => exact Nat.le_refl 0
  | case2 c rest ih => simpa using ih
  | case3 => exact Nat.zero_le _
  | case4 c rest _ _ ih => simpa using ih

lemma lengthBefore_cons (close : Char) (hc : c ≠ '\\') :
    lengthBefore close (c :: rest) = if c = close then 0 else lengthBefore close rest + 1 :=
  lengthBefore.eq_3 close c rest fun _ _ heq _ => hc heq

/-- Nothing behind the closing character matters. -/
lemma lengthBefore_take_append {close : Char} (hclose : close ≠ '\\') {count : Nat}
    (hcount : lengthBefore close source < count)
    (hlength : lengthBefore close source < source.length) (behind : List Char) :
    lengthBefore close (source.take count ++ behind) = lengthBefore close source := by
  fun_induction lengthBefore close source generalizing count with
  | case1 => simp at hlength
  | case2 c rest ih =>
    obtain ⟨count, rfl⟩ : ∃ k, count = k + 2 := ⟨count - 2, by omega⟩
    rw [List.take_succ_cons, List.take_succ_cons, List.cons_append, List.cons_append, lengthBefore,
      ih (by omega) (by simpa using hlength)]
  | case3 rest =>
    obtain ⟨count, rfl⟩ : ∃ k, count = k + 1 := ⟨count - 1, by omega⟩
    rw [List.take_succ_cons, List.cons_append, lengthBefore_cons close hclose, if_pos rfl]
  | case4 c rest hescape hne ih =>
    obtain ⟨count, rfl⟩ : ∃ k, count = k + 1 := ⟨count - 1, by omega⟩
    have hrest : lengthBefore close rest < rest.length := by simpa using hlength
    obtain ⟨c', rest', rfl⟩ := List.exists_cons_of_length_pos (Nat.zero_lt_of_lt hrest)
    have hc : c ≠ '\\' := fun heq => hescape c' rest' heq rfl
    rw [List.take_succ_cons, List.cons_append, lengthBefore_cons close hc, if_neg hne,
      ih (by omega) hrest]

lemma lengthBefore_append {close : Char} (hclose : close ≠ '\\')
    (h : lengthBefore close source < source.length) (behind : List Char) :
    lengthBefore close (source ++ behind) = lengthBefore close source := by
  have hall := lengthBefore_take_append hclose h h behind
  rwa [List.take_length] at hall

lemma lengthBefore_take {close : Char} (hclose : close ≠ '\\')
    (h : lengthBefore close source < source.length) :
    lengthBefore close (source.take (lengthBefore close source + 1)) = lengthBefore close source := by
  have htaken := lengthBefore_take_append hclose (Nat.lt_succ_self _) h []
  rwa [List.append_nil] at htaken

lemma closing?_eq_some {close : Char} (h : closing? c = some close) :
    close ≠ '\\' ∧ c ≠ '/' ∧ isBlank c = false := by
  unfold closing? at h
  split at h
  · next hquote =>
    obtain rfl := Option.some.inj h
    rcases hquote with rfl | rfl <;> decide
  · split at h
    · next hbracket =>
      obtain rfl := Option.some.inj h
      subst hbracket
      decide
    · cases h

lemma pieceTail_of_closing {close : Char} (h : closing? c = some close) :
    pieceTail c rest = rest.take (lengthBefore close rest + 1) := by
  rw [pieceTail, h]

lemma pieceTail_comment (rest : List Char) :
    pieceTail '/' ('/' :: rest) = '/' :: rest.takeWhile fun c => !isLineEnd c := by
  rw [pieceTail, closing?, if_neg (by decide), if_neg (by decide)]
  rfl

lemma pieceTail_arrow (rest : List Char) : pieceTail '<' ('-' :: rest) = ['-'] := rfl

lemma ne_of_isAsciiStart (hc : isAsciiStart c = true) (d : Char) (hd : isAsciiStart d = false) :
    c ≠ d := by
  rintro rfl
  rw [hc] at hd
  cases hd

lemma closing?_of_isAsciiStart (hc : isAsciiStart c = true) : closing? c = none := by
  have hne := ne_of_isAsciiStart hc
  rw [closing?, if_neg (by simp [hne '\'' (by decide), hne '"' (by decide)]),
    if_neg (hne '[' (by decide))]

lemma pieceTail_name (hc : isAsciiStart c = true) :
    pieceTail c rest = rest.takeWhile isAsciiContinue := by
  have hne := ne_of_isAsciiStart hc
  simp only [pieceTail, closing?_of_isAsciiStart hc, hne '/' (by decide), hne '<' (by decide),
    false_and, if_false, hc, if_true]

lemma pieceTail_symbol (hclosing : closing? c = none) (hname : isAsciiStart c = false)
    (hslash : c = '/' → rest.head? ≠ some '/') (harrow : c = '<' → rest.head? ≠ some '-') :
    pieceTail c rest = [] := by
  have hslash' : ¬(c = '/' ∧ rest.head? = some '/') := fun h => hslash h.1 h.2
  have harrow' : ¬(c = '<' ∧ rest.head? = some '-') := fun h => harrow h.1 h.2
  simp only [pieceTail, hclosing, hslash', harrow', hname, if_false, Bool.false_eq_true]

/-- The kinds of pieces. -/
lemma ends_pieceTail (c : Char) (rest : List Char) : ∃ behind, rest = pieceTail c rest ++ behind ∧
    Ends (c :: pieceTail c rest) behind.head? := by
  have hstop : ∀ (p : Char → Bool) (source : List Char),
      (∀ c ∈ source.takeWhile p, p c = true) ∧ ∀ c ∈ (source.dropWhile p).head?, p c = false := by
    refine fun p source => ⟨List.all_eq_true.mp List.all_takeWhile, fun c hc => ?_⟩
    have hnot := List.head?_dropWhile_not p source
    rw [hc] at hnot
    simpa using hnot
  by_cases hclosing : closing? c = none
  · by_cases hslash : c = '/' → rest.head? ≠ some '/'
    · by_cases harrow : c = '<' → rest.head? ≠ some '-'
      · by_cases hname : isAsciiStart c = true
        · obtain ⟨hothers, hnext⟩ := hstop isAsciiContinue rest
          rw [pieceTail_name hname]
          exact ⟨_, List.takeWhile_append_dropWhile.symm, .name hname hothers hnext⟩
        · rw [Bool.not_eq_true] at hname
          rw [pieceTail_symbol hclosing hname hslash harrow]
          exact ⟨rest, rfl, .symbol hclosing hname hslash harrow⟩
      · obtain ⟨rfl, hhead⟩ : c = '<' ∧ rest.head? = some '-' := by simpa using harrow
        obtain ⟨behind, rfl⟩ := List.head?_eq_some_iff.mp hhead
        exact ⟨behind, rfl, .arrow⟩
    · obtain ⟨rfl, hhead⟩ : c = '/' ∧ rest.head? = some '/' := by simpa using hslash
      obtain ⟨rest, rfl⟩ := List.head?_eq_some_iff.mp hhead
      obtain ⟨hbody, hnext⟩ := hstop (fun c => !isLineEnd c) rest
      rw [pieceTail_comment]
      refine ⟨_, congrArg (List.cons '/') List.takeWhile_append_dropWhile.symm, .comment ?_ ?_⟩
      · simpa using hbody
      · simpa using hnext
  · obtain ⟨close, hclose⟩ := Option.ne_none_iff_exists'.mp hclosing
    rw [pieceTail_of_closing hclose]
    refine ⟨_, (List.take_append_drop _ rest).symm, ?_⟩
    by_cases hlength : lengthBefore close rest < rest.length
    · refine .closed hclose ?_
      rw [lengthBefore_take (closing?_eq_some hclose).1 hlength, List.length_take]
      omega
    · have heq := Nat.le_antisymm (lengthBefore_le close rest) (Nat.le_of_not_lt hlength)
      rw [heq, List.take_of_length_le (Nat.le_succ _), List.drop_of_length_le (Nat.le_succ _)]
      exact .unclosed hclose heq

lemma takeWhile_append_eq_left {p : Char → Bool} (h : ∀ c ∈ source, p c = true)
    (hbehind : ∀ c ∈ behind.head?, p c = false) : (source ++ behind).takeWhile p = source := by
  rw [List.takeWhile_append_of_pos h]
  cases behind with
  | nil => exact List.append_nil source
  | cons c behind => rw [List.takeWhile_cons_of_neg (by simp [hbehind c rfl]), List.append_nil]

/-- A piece ends before what follows it. -/
lemma pieces_of_ends (h : Ends piece behind.head?) :
    pieces (piece ++ behind) = piece :: pieces behind := by
  have hcons : ∀ c (tail : List Char), pieceTail c (tail ++ behind) = tail →
      pieces (c :: tail ++ behind) = (c :: tail) :: pieces behind := by
    intro c tail htail
    rw [List.cons_append, pieces, htail, List.drop_left]
  generalize hnext : behind.head? = next? at h
  cases h with
  | @closed c close inside _ hclose hlength =>
    refine hcons c inside ?_
    have hinside := lengthBefore_append (closing?_eq_some hclose).1
      (show lengthBefore close inside < inside.length by omega) behind
    rw [pieceTail_of_closing hclose, hinside, hlength, List.take_left]
  | @unclosed c close inside hclose hlength =>
    obtain rfl := List.head?_eq_none_iff.mp hnext
    refine hcons c inside ?_
    rw [List.append_nil, pieceTail_of_closing hclose, hlength]
    exact List.take_of_length_le (Nat.le_succ _)
  | @comment body _ hbody hend =>
    refine hcons '/' ('/' :: body) ?_
    rw [List.cons_append, pieceTail_comment, takeWhile_append_eq_left]
    · simpa using hbody
    · simpa [hnext] using hend
  | arrow => exact hcons '<' ['-'] (pieceTail_arrow behind)
  | @name c others _ hfirst hothers hend =>
    refine hcons c others ?_
    rw [pieceTail_name hfirst]
    exact takeWhile_append_eq_left hothers (hnext ▸ hend)
  | @symbol c _ hclose hname hslash harrow =>
    exact hcons c [] (pieceTail_symbol hclose hname (hnext ▸ hslash) (hnext ▸ harrow))

lemma pieces_eq_cons {others : List (List Char)} (h : pieces source = piece :: others) :
    ∃ behind, source = piece ++ behind ∧ Ends piece behind.head? ∧ pieces behind = others := by
  cases source with
  | nil => simp [pieces] at h
  | cons c rest =>
    obtain ⟨behind, hrest, hends⟩ := ends_pieceTail c rest
    have hsource : c :: rest = (c :: pieceTail c rest) ++ behind := congrArg (List.cons c) hrest
    rw [hsource, pieces_of_ends hends] at h
    obtain ⟨rfl, rfl⟩ := List.cons.inj h
    exact ⟨behind, hsource, hends, rfl⟩

lemma flatten_pieces (source : List Char) : (pieces source).flatten = source := by
  generalize hpieces : pieces source = all
  induction all generalizing source with
  | nil =>
    cases source with
    | nil => rfl
    | cons => simp [pieces] at hpieces
  | cons piece others ih =>
    obtain ⟨behind, rfl, -, hbehind⟩ := pieces_eq_cons hpieces
    rw [List.flatten_cons, ih behind hbehind]

end Pieces

/-! ## Blanks and comments between pieces -/

section Gaps

variable {c : Char} {piece source behind blanks : List Char}

lemma isBlank_of_isLineEnd (h : isLineEnd c = true) : isBlank c = true := by
  simp only [isLineEnd, isBlank, Bool.or_eq_true] at h ⊢
  exact h.elim (fun h => .inl (.inr h)) .inr

/-- A comment goes as far as its line. -/
lemma skip_comment {body : List Char} (hbody : ∀ c ∈ body, isLineEnd c = false)
    (hbehind : ∀ c ∈ behind.head?, isLineEnd c = true) :
    skip ('/' :: '/' :: (body ++ behind)) = skip behind := by
  have hopen : ∀ offset, (skipFrom true offset (body ++ behind)).rest = skip behind := by
    induction body with
    | nil =>
      intro offset
      cases behind with
      | nil => simp [skipFrom, skip_nil]
      | cons c behind =>
        have hc := hbehind c rfl
        rw [List.nil_append, skipFrom, hc, skip_blank (isBlank_of_isLineEnd hc)]
        exact rest_skipFrom _ _ _ _
    | cons c body ih =>
      intro offset
      rw [List.cons_append, skipFrom, hbody c (by simp)]
      exact ih (fun c hc => hbody c (by simp [hc])) _
  rw [skip, skipFrom]
  exact hopen _

lemma isGap_cons (hc : c ≠ '/') (rest : List Char) : isGap (c :: rest) = isBlank c :=
  isGap.eq_3 c rest fun _ heq _ => hc heq

lemma isGap_singleton (c : Char) : isGap [c] = isBlank c :=
  isGap.eq_3 c [] fun _ _ heq => by cases heq

lemma isBlank_of_isAsciiStart (h : isAsciiStart c = true) : isBlank c = false := by
  have hne := ne_of_isAsciiStart h
  simp [isBlank, hne ' ' (by decide), hne '\t' (by decide), hne '\r' (by decide),
    hne '\n' (by decide)]

/-- What is skipped are the pieces without a meaning. -/
lemma skip_of_ends (h : Ends piece behind.head?) :
    skip (piece ++ behind) = if isGap piece then skip behind else piece ++ behind := by
  generalize hnext : behind.head? = next? at h
  have htoken : ∀ c (tail : List Char), c ≠ '/' → isBlank c = false →
      skip (c :: tail ++ behind) =
        if isGap (c :: tail) then skip behind else c :: tail ++ behind := by
    intro c tail hslash hblank
    rw [isGap_cons hslash, if_neg (by simp [hblank])]
    exact skip_cons hblank hslash
  cases h with
  | @closed c close inside _ hclose =>
    obtain ⟨-, hslash, hblank⟩ := closing?_eq_some hclose
    exact htoken c inside hslash hblank
  | @unclosed c close inside hclose =>
    obtain ⟨-, hslash, hblank⟩ := closing?_eq_some hclose
    exact htoken c inside hslash hblank
  | @comment body _ hbody hend => exact skip_comment hbody (hnext ▸ hend)
  | arrow => exact htoken '<' ['-'] (by decide) (by decide)
  | @name c others _ hfirst =>
    have hslash := ne_of_isAsciiStart hfirst '/' (by decide)
    exact htoken c others hslash (isBlank_of_isAsciiStart hfirst)
  | @symbol c _ _ _ hslash =>
    rw [isGap_singleton]
    by_cases hblank : isBlank c = true
    · rw [if_pos hblank]
      exact skip_blank hblank
    · rw [if_neg hblank]
      by_cases hc : c = '/'
      · subst hc
        cases behind with
        | nil => simp [skip, skipFrom, isBlank]
        | cons c behind => exact skip_slash fun heq => hslash rfl (heq ▸ hnext.symm)
      · exact skip_cons (by simpa using hblank) hc

lemma tokens_of_ends (h : Ends piece behind.head?) :
    tokens (piece ++ behind) = if isGap piece then tokens behind else piece :: tokens behind := by
  rw [tokens, pieces_of_ends h]
  cases hgap : isGap piece with
  | true => exact List.filter_cons_of_neg (by simp [hgap])
  | false => exact List.filter_cons_of_pos (by simp [hgap])

lemma tokens_skip (source : List Char) : tokens (skip source) = tokens source := by
  generalize hpieces : pieces source = all
  induction all generalizing source with
  | nil =>
    obtain rfl : source = [] := by rw [← flatten_pieces source, hpieces]; rfl
    rw [skip_nil]
  | cons piece others ih =>
    obtain ⟨behind, rfl, hends, hbehind⟩ := pieces_eq_cons hpieces
    rw [skip_of_ends hends]
    split
    · next hgap => rw [ih behind hbehind, tokens_of_ends hends, if_pos hgap]
    · rfl

lemma skip_blankText (h : IsBlankText blanks) : skip (blanks ++ behind) = skip behind := by
  induction h with
  | nil => rfl
  | blank hc _ ih => rw [List.cons_append, skip_blank hc, ih]
  | @comment body c rest hbody hc _ ih =>
    have hline : ∀ d ∈ (c :: (rest ++ behind)).head?, isLineEnd d = true := by simpa using hc
    have hskip := skip_comment hbody hline
    rw [skip_blank (isBlank_of_isLineEnd hc), ih] at hskip
    simpa using hskip

/-- A comment before blanks and comments takes the first line of them, and all is skipped. -/
lemma skip_comment_blankText {body : List Char} (hbody : ∀ c ∈ body, isLineEnd c = false)
    (hbehind : ∀ c ∈ behind.head?, isLineEnd c = true) (h : IsBlankText blanks) :
    skip ('/' :: '/' :: (body ++ (blanks ++ behind))) = skip behind := by
  have hline : ∀ {body rest : List Char} {c : Char}, (∀ c ∈ body, isLineEnd c = false) →
      isLineEnd c = true → IsBlankText rest →
      skip ('/' :: '/' :: (body ++ c :: (rest ++ behind))) = skip behind := by
    intro body rest c hbody hc hrest
    rw [skip_comment hbody (by simpa using hc), skip_blank (isBlank_of_isLineEnd hc),
      skip_blankText hrest]
  induction h generalizing body with
  | nil => exact skip_comment hbody hbehind
  | @blank c rest hc hrest ih =>
    by_cases hend : isLineEnd c = true
    · exact hline hbody hend hrest
    · have hmore : ∀ d ∈ body ++ [c], isLineEnd d = false :=
        List.forall_mem_append.mpr ⟨hbody, List.forall_mem_singleton.mpr (by simpa using hend)⟩
      simpa using ih hmore
  | @comment inner c rest hinner hc hrest ih =>
    have hslashes : ∀ d ∈ '/' :: '/' :: inner, isLineEnd d = false :=
      List.forall_mem_cons.mpr ⟨by decide, List.forall_mem_cons.mpr ⟨by decide, hinner⟩⟩
    simpa using hline (List.forall_mem_append.mpr ⟨hbody, hslashes⟩) hc hrest

lemma isAsciiContinue_of_isBlank (h : isBlank c = true) : isAsciiContinue c = false := by
  simp only [isBlank, Bool.or_eq_true, beq_iff_eq] at h
  rcases h with ((rfl | rfl) | rfl) | rfl <;> decide

lemma IsBlankText.head (h : IsBlankText blanks) : ∀ c ∈ blanks.head?, isBlank c = true ∨ c = '/' := by
  intro c hc
  cases h with
  | nil => cases hc
  | blank hblank =>
    obtain rfl := Option.some.inj hc
    exact .inl hblank
  | comment =>
    obtain rfl := Option.some.inj hc
    exact .inr rfl

lemma Ends.ne_nil {next? : Option Char} (h : Ends piece next?) : piece ≠ [] := by
  cases h <;> exact List.cons_ne_nil _ _

lemma length_tokens_le (source : List Char) : (tokens source).length ≤ source.length := by
  generalize hpieces : pieces source = all
  induction all generalizing source with
  | nil => simp [tokens, hpieces]
  | cons piece others ih =>
    obtain ⟨behind, rfl, hends, hbehind⟩ := pieces_eq_cons hpieces
    have hpos := List.length_pos_of_ne_nil hends.ne_nil
    have hrest := ih behind hbehind
    rw [tokens_of_ends hends, List.length_append]
    split
    · omega
    · rw [List.length_cons]
      omega

/-- A piece other than a comment still ends where a blank or a comment is put behind it. -/
lemma Ends.before_blank {next? : Option Char} (h : Ends piece next?) (hclosed : IsClosed piece)
    (hc : isBlank c = true ∨ c = '/') (hslash : piece = ['/'] → c ≠ '/') :
    Ends piece (some c) ∨ ∃ body, piece = '/' :: '/' :: body ∧ (∀ c ∈ body, isLineEnd c = false) ∧
      ∀ c ∈ next?, isLineEnd c = true := by
  cases h with
  | closed hclose hlength => exact .inl (.closed hclose hlength)
  | unclosed hclose hlength =>
    have hlt := hclosed _ hclose
    omega
  | comment hbody hnext => exact .inr ⟨_, rfl, hbody, hnext⟩
  | arrow => exact .inl .arrow
  | name hfirst hothers =>
    refine .inl (.name hfirst hothers fun d hd => ?_)
    obtain rfl := Option.some.inj hd
    rcases hc with hc | rfl
    · exact isAsciiContinue_of_isBlank hc
    · decide
  | symbol hclose hname =>
    refine .inl (.symbol hclose hname (fun heq => ?_) fun _ hminus => ?_)
    · exact fun hsome => hslash (by rw [heq]) (Option.some.inj hsome)
    · obtain rfl := Option.some.inj hminus
      revert hc
      decide

lemma tokens_blankText (h : IsBlankText blanks) (behind : List Char) :
    tokens (blanks ++ behind) = tokens behind := by
  rw [← tokens_skip, skip_blankText h, tokens_skip]

lemma tokens_insert_behind (hends : Ends piece behind.head?) (hclosed : IsClosed piece)
    (hblanks : IsBlankText blanks) (hslash : piece = ['/'] → blanks.head? ≠ some '/') :
    tokens (piece ++ (blanks ++ behind)) = tokens (piece ++ behind) := by
  cases hhead : blanks.head? with
  | none =>
    rw [List.head?_eq_none_iff.mp hhead]
    rfl
  | some c =>
    have hnext : (blanks ++ behind).head? = some c := by rw [List.head?_append, hhead, Option.some_or]
    have hslash' : piece = ['/'] → c ≠ '/' := fun hpiece heq => hslash hpiece (heq ▸ hhead)
    rcases hends.before_blank hclosed (hblanks.head c hhead) hslash' with
      hends' | ⟨body, rfl, hbody, hline⟩
    · rw [tokens_of_ends hends, tokens_of_ends (hnext ▸ hends'), tokens_blankText hblanks]
    · -- The comment takes the first line of what is put behind it.
      rw [← tokens_skip, ← tokens_skip (_ ++ behind)]
      exact congrArg tokens ((skip_comment_blankText hbody hline hblanks).trans
        (skip_comment hbody hline).symm)

/-- Blanks and comments that are put between two pieces leave the tokens as they are. -/
lemma tokens_insert {before after : List (List Char)} (hpieces : pieces source = before ++ after)
    (hclosed : ∀ piece ∈ before, IsClosed piece) (hblanks : IsBlankText blanks)
    (hslash : before.getLast? = some ['/'] → blanks.head? ≠ some '/') :
    tokens (before.flatten ++ (blanks ++ after.flatten)) = tokens source := by
  induction before generalizing source with
  | nil =>
    rw [List.nil_append] at hpieces
    rw [← hpieces, flatten_pieces]
    exact tokens_blankText hblanks source
  | cons piece before ih =>
    rw [List.cons_append] at hpieces
    obtain ⟨behind, rfl, hends, hbehind⟩ := pieces_eq_cons hpieces
    have hflat : before.flatten ++ after.flatten = behind := by
      rw [← List.flatten_append, ← hbehind, flatten_pieces]
    cases before with
    | nil =>
      obtain rfl : after.flatten = behind := hflat
      simpa using tokens_insert_behind hends (hclosed piece (by simp)) hblanks
        fun hpiece => hslash (by rw [hpiece]; rfl)
    | cons next before =>
      have hrest := ih hbehind (fun p hp => hclosed p (List.mem_cons_of_mem _ hp)) hslash
      obtain ⟨_, -, hends', -⟩ := pieces_eq_cons hbehind
      have hne := hends'.ne_nil
      have hhead : ((next :: before).flatten ++ (blanks ++ after.flatten)).head? = behind.head? := by
        rw [← hflat, List.flatten_cons, List.append_assoc, List.append_assoc,
          List.head?_append_of_ne_nil _ hne, List.head?_append_of_ne_nil _ hne]
      rw [List.flatten_cons, List.append_assoc, tokens_of_ends hends,
        tokens_of_ends (hhead ▸ hends), hrest]

/-- What is left of a text behind its blanks and comments begins with a token. -/
lemma exists_token (source : List Char) : skip source = [] ∨ ∃ piece behind,
    skip source = piece ++ behind ∧ Ends piece behind.head? ∧ isGap piece = false := by
  generalize hpieces : pieces source = all
  induction all generalizing source with
  | nil =>
    obtain rfl : source = [] := by rw [← flatten_pieces source, hpieces]; rfl
    exact .inl skip_nil
  | cons piece others ih =>
    obtain ⟨behind, rfl, hends, hbehind⟩ := pieces_eq_cons hpieces
    have hskip := skip_of_ends hends
    cases hgap : isGap piece with
    | true =>
      rw [hskip, hgap, if_pos rfl]
      exact ih behind hbehind
    | false => exact .inr ⟨piece, behind, by rw [hskip, hgap, if_neg (by decide)], hends, hgap⟩

end Gaps

/-! ## Kinds of tokens -/

section Kinds

variable {c : Char} {piece tail behind : List Char} {next? : Option Char}

/-- Whether a character is a piece by itself, unless a comment begins there. -/
def isSymbol (c : Char) : Bool := (closing? c).isNone && !isAsciiStart c && c != '<'

lemma isSymbol_iff : isSymbol c = true ↔ (closing? c = none ∧ isAsciiStart c = false) ∧ c ≠ '<' := by
  simp [isSymbol]

lemma isClosed_of_closing?_eq_none (h : closing? c = none) : IsClosed (c :: tail) := by
  intro close hclose
  rw [h] at hclose
  cases hclose

lemma isClosed_of_isGap (h : isGap piece = true) : IsClosed piece := by
  cases piece with
  | nil => trivial
  | cons c tail =>
    intro close hclose
    obtain ⟨-, hslash, hblank⟩ := closing?_eq_some hclose
    rw [isGap_cons hslash, hblank] at h
    cases h

lemma Ends.eq_symbol (h : Ends (c :: tail) next?) (hc : isSymbol c = true)
    (hgap : isGap (c :: tail) = false) : tail = [] := by
  obtain ⟨⟨hclosing, hname⟩, harrow⟩ := isSymbol_iff.mp hc
  cases h with
  | closed hclose => simp [hclosing] at hclose
  | unclosed hclose => simp [hclosing] at hclose
  | comment => cases hgap
  | arrow => exact absurd rfl harrow
  | name hfirst => simp [hname] at hfirst
  | symbol => rfl

lemma Ends.eq_arrow (h : Ends piece behind.head?) (hbegins : ['<', '-'] <+: piece ++ behind) :
    piece = ['<', '-'] := by
  obtain ⟨rest, hrest⟩ := hbegins
  obtain ⟨c, tail, rfl⟩ := List.exists_cons_of_ne_nil h.ne_nil
  obtain ⟨rfl, htail⟩ : '<' = c ∧ '-' :: rest = tail ++ behind := List.cons.inj hrest
  generalize hnext : behind.head? = next? at h
  cases h with
  | closed hclose => cases hclose
  | unclosed hclose => cases hclose
  | arrow => rfl
  | name hfirst => exact absurd hfirst (by decide)
  | symbol _ _ _ harrow =>
    obtain rfl : '-' :: rest = behind := htail
    exact absurd hnext.symm (harrow rfl)

lemma Ends.of_closing {close : Char} (h : Ends (c :: tail) next?) (hc : closing? c = some close) :
    lengthBefore close tail + 1 = tail.length ∨
      lengthBefore close tail = tail.length ∧ next? = none := by
  cases h with
  | closed hclose hlength => exact .inl (Option.some.inj (hc.symm.trans hclose) ▸ hlength)
  | unclosed hclose hlength => exact .inr ⟨Option.some.inj (hc.symm.trans hclose) ▸ hlength, rfl⟩
  | comment => cases hc
  | arrow => cases hc
  | name hfirst => simp [closing?_of_isAsciiStart hfirst] at hc
  | symbol hclose => simp [hclose] at hc

lemma Ends.of_isAsciiStart (h : Ends (c :: tail) next?) (hc : isAsciiStart c = true) :
    (∀ d ∈ tail, isAsciiContinue d = true) ∧ ∀ d ∈ next?, isAsciiContinue d = false := by
  have hclosing := closing?_of_isAsciiStart hc
  cases h with
  | closed hclose => simp [hclosing] at hclose
  | unclosed hclose => simp [hclosing] at hclose
  | comment => exact absurd hc (by decide)
  | arrow => exact absurd hc (by decide)
  | name _ hothers hnext => exact ⟨hothers, hnext⟩
  | symbol _ hname => simp [hc] at hname

end Kinds

end LabeledPeg.Source
