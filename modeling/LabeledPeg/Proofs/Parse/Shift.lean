import LabeledPeg.Proofs.Parse.Motion
import Mathlib.Data.List.Forall2

/-!
# The same parse further on in an input

A step that runs at place `k` of an input does what it does on the input from `k` on, `k` places
further on. The two states agree in all but the latest failure, which may be an old one in either;
once both have failed they agree in it as well. Every step that fails notes its failure, so what a
thrown label says depends on no failure from before the attempt that it is thrown for.
-/

namespace LabeledPeg

def Span.shift (k : Nat) (span : Span) : Span := ⟨span.start + k, span.stop + k⟩

namespace Parse

namespace Tree

mutual

/-- A tree with all its spans `k` places further on. -/
def shift (k : Nat) : Tree → Tree
  | piece text span => piece text (span.shift k)
  | sequence items span => sequence (shiftAll k items) (span.shift k)

def shiftAll (k : Nat) : List Tree → List Tree
  | [] => []
  | item :: items => item.shift k :: shiftAll k items

end

lemma shiftAll_eq_map (k : Nat) (items : List Tree) : shiftAll k items = items.map (shift k) := by
  induction items with
  | nil => rw [shiftAll, List.map_nil]
  | cons item items ih => rw [shiftAll, ih, List.map_cons]

/-- What a step returns, `k` places further on. -/
abbrev shiftOption (k : Nat) : Option Tree → Option Tree := Option.map (shift k)

lemma filterMap_shiftOption (k : Nat) (values : List (Option Tree)) :
    (values.map (shiftOption k)).filterMap id = shiftAll k (values.filterMap id) := by
  rw [shiftAll_eq_map, List.filterMap_map, List.map_filterMap]
  rfl

end Tree

namespace Failure

/-- A failure `k` places further on. -/
def shift (k : Nat) : Failure → Failure
  | endOfInput expected span => endOfInput expected (span.shift k)
  | mismatch expected found span => mismatch expected found (span.shift k)
  | predicate message span => predicate message (span.shift k)
  | labeled label rule? span => labeled label rule? (span.shift k)

lemma position_shift (k : Nat) (f : Failure) : (f.shift k).position = f.position + k := by
  cases f <;> rfl

lemma isLabeled_shift (k : Nat) (f : Failure) : (f.shift k).isLabeled = f.isLabeled := by
  cases f <;> rfl

lemma farther_shift (k : Nat) (earlier? : Option Failure) (later : Failure) :
    Action.farther (earlier?.map (shift k)) (later.shift k) =
      (Action.farther earlier? later).shift k := by
  cases earlier? with
  | none => rfl
  | some earlier =>
    simp only [Option.map_some, Action.farther, position_shift, Nat.add_lt_add_iff_right]
    split <;> rfl

end Failure

def TraceEntry.shift (k : Nat) (entry : TraceEntry) : TraceEntry :=
  ⟨entry.name, entry.start + k⟩

/-- Whether two states belong to the same parse, one of them on `input`, the other on what is left of
it from `k` on. They have the same latest failure if `failed`. -/
structure Twin (input : Array Char) (k : Nat) (failed : Bool) (s s₀ : State) : Prop where
  input_eq : s.input = input
  rest_eq : s₀.input = (input.toList.drop k).toArray
  start_le : k ≤ input.size
  location : s.location = s₀.location + k
  within : s.location ≤ input.size
  policy : s.policy = s₀.policy
  trace : s.trace = s₀.trace.map (TraceEntry.shift k)
  failure : failed = true → s.failure = s₀.failure + k

namespace Twin

variable {input : Array Char} {k : Nat} {failed : Bool} {s s₀ : State}

lemma weaken (h : Twin input k true s s₀) : Twin input k failed s s₀ :=
  { h with failure := fun _ => h.failure rfl }

lemma length_eq (h : Twin input k failed s s₀) : s.length = s₀.length + k := by
  have hle := h.start_le
  simp only [State.length, h.input_eq, h.rest_eq, List.size_toArray, List.length_drop,
    Array.length_toList]
  omega

lemma within_length (h : Twin input k failed s s₀) : s.location ≤ s.length := by
  rw [State.length, h.input_eq]
  exact h.within

lemma getElem? (h : Twin input k failed s s₀) (place : Nat) :
    s.input[place + k]? = s₀.input[place]? := by
  rw [h.input_eq, h.rest_eq, ← Array.getElem?_toList, ← Array.getElem?_toList, List.getElem?_drop,
    Nat.add_comm]

lemma peek?_eq (h : Twin input k failed s s₀) : s.peek? = s₀.peek? := by
  rw [State.peek?, State.peek?, h.location, h.getElem?]

lemma location_eq_iff {s' s₀' : State} (h : Twin input k failed s s₀)
    (h' : Twin input k failed s' s₀') : s'.location = s.location ↔ s₀'.location = s₀.location := by
  rw [h.location, h'.location, Nat.add_right_cancel_iff]

lemma rest_eq_rest (h : Twin input k failed s s₀) : s.rest = s₀.rest := by
  rw [State.rest, State.rest, h.input_eq, h.rest_eq, h.location, List.drop_drop, Nat.add_comm]

lemma ahead_eq (h : Twin input k failed s s₀) (count : Nat) : s.ahead count = s₀.ahead count := by
  rw [State.ahead_eq_take_rest, State.ahead_eq_take_rest, h.rest_eq_rest]

lemma commits_eq (h : Twin input k failed s s₀) (f : Failure) :
    s.commits (f.shift k) = s₀.commits f := by
  rw [State.commits, State.commits, Failure.isLabeled_shift, h.policy]

lemma rule?_eq (h : Twin input k failed s s₀) : s.rule? = s₀.rule? := by
  rw [State.rule?, State.rule?, h.trace]
  cases s₀.trace <;> rfl

lemma note (h : Twin input k failed s s₀) (f : Failure) :
    Twin input k true (s.note (f.shift k)) (s₀.note f) :=
  { h with failure := fun _ => f.position_shift k }

lemma advance (h : Twin input k failed s s₀) {count : Nat} (hcount : s.location + count ≤ s.length) :
    Twin input k failed (s.advance count) (s₀.advance count) := by
  refine { h with location := ?_, within := ?_ }
  · simp only [State.advance, h.location]
    omega
  · rw [← h.input_eq]
    exact hcount

lemma goto (h : Twin input k failed s s₀) {place : Nat} (hplace : place + k ≤ input.size) :
    Twin input k failed (s.goto (place + k)) (s₀.goto place) := by
  have hlength := h.length_eq
  simp only [State.length, h.input_eq] at hlength
  refine { h with location := ?_, within := ?_ }
  · simp only [State.goto, h.input_eq]
    omega
  · simp only [State.goto, h.input_eq]
    omega

lemma enter (h : Twin input k failed s s₀) (name : String) :
    Twin input k failed (s.enter name) (s₀.enter name) := by
  refine { h with trace := ?_ }
  simp only [State.enter, h.trace, h.location, List.map_cons, TraceEntry.shift]

lemma leave (h : Twin input k failed s s₀) : Twin input k failed s.leave s₀.leave := by
  refine { h with trace := ?_ }
  simp only [State.leave, h.trace, List.map_tail]

end Twin

/-- Whether two runs end in the same way, one `k` places further on: with values that differ by
`move`, or with the same failure, noted by both. -/
inductive EndsAlike {α : Type} (input : Array Char) (k : Nat) (failed : Bool) (move : α → α) :
    Outcome Failure State α → Outcome Failure State α → Prop
  | success {value value₀ : α} {s s₀ : State} (hvalue : value = move value₀)
    (h : Twin input k failed s s₀) :
    EndsAlike input k failed move (.success value s) (.success value₀ s₀)
  | failure {f : Failure} {s s₀ : State} (h : Twin input k true s s₀) :
    EndsAlike input k failed move (.failure (f.shift k) s) (.failure f s₀)
  | unfinished : EndsAlike input k failed move .unfinished .unfinished

namespace EndsAlike

variable {α β : Type} {input : Array Char} {k : Nat} {failed : Bool} {move : α → α}
  {move' : β → β} {o o₀ : Outcome Failure State α}

lemma weaken (h : EndsAlike input k true move o o₀) : EndsAlike input k failed move o o₀ := by
  cases h with
  | success hvalue h => exact .success hvalue h.weaken
  | failure h => exact .failure h
  | unfinished => exact .unfinished

lemma bind (h : EndsAlike input k failed move o o₀)
    {next next₀ : α → State → Outcome Failure State β}
    (hnext : ∀ value s s₀, Twin input k failed s s₀ →
      EndsAlike input k failed move' (next (move value) s) (next₀ value s₀)) :
    EndsAlike input k failed move' (o.bind next) (o₀.bind next₀) := by
  cases h with
  | success hvalue h => exact hvalue ▸ hnext _ _ _ h
  | failure h => exact .failure h
  | unfinished => exact .unfinished

lemma map (h : EndsAlike input k failed move o o₀) {f f₀ : α → β}
    (hf : ∀ value, f (move value) = move' (f₀ value)) :
    EndsAlike input k failed move' (o.map f) (o₀.map f₀) := by
  cases h with
  | success hvalue h => exact .success (hvalue ▸ hf _) h
  | failure h => exact .failure h
  | unfinished => exact .unfinished

lemma mapState (h : EndsAlike input k failed move o o₀) {f : State → State}
    (hf : ∀ failed s s₀, Twin input k failed s s₀ → Twin input k failed (f s) (f s₀)) :
    EndsAlike input k failed move (o.mapState f) (o₀.mapState f) := by
  cases h with
  | success hvalue h => exact .success hvalue (hf _ _ _ h)
  | failure h => exact .failure (hf _ _ _ h)
  | unfinished => exact .unfinished

end EndsAlike

namespace Action

/-- Whether one step does at `k` places further on what another one does, from states that agree in
the latest failure if `failed`. -/
def Follows {α : Type} (input : Array Char) (k : Nat) (failed : Bool) (move : α → α)
    (a a₀ : Action α) : Prop :=
  ∀ s s₀, Twin input k failed s s₀ → EndsAlike input k failed move (a s) (a₀ s₀)

section Primitive

variable {α : Type} {input : Array Char} {k : Nat} {failed : Bool} {move : α → α} {s s₀ : State}

lemma endsAlike_failWith {failed' : Bool} (h : Twin input k failed' s s₀) (f : Failure) :
    EndsAlike input k failed move (failWith (f.shift k) s) (failWith f s₀) := .failure (h.note f)

lemma endsAlike_missing (h : Twin input k failed s s₀) (expected : String) {place place₀ : Nat}
    (hplace : place = place₀ + k) :
    EndsAlike input k failed move (missing expected place s) (missing expected place₀ s₀) := by
  unfold missing
  rw [hplace, h.getElem?]
  cases s₀.input[place₀]? with
  | some found => exact endsAlike_failWith h (.mismatch expected found (.point place₀))
  | none => exact endsAlike_failWith h (.endOfInput expected (.point place₀))

lemma follows_succeed {value : α} (hvalue : move value = value) :
    Follows input k failed move (Run.succeed value) (Run.succeed value) :=
  fun _ _ h => .success hvalue.symm h

lemma follows_cutOff : Follows input k failed move Run.cutOff Run.cutOff := fun _ _ _ => .unfinished

lemma follows_anyChar : Follows input k failed id anyChar anyChar := by
  intro s s₀ h
  unfold anyChar
  rw [h.peek?_eq]
  cases hpeek : s₀.peek? with
  | some c =>
    rw [← h.peek?_eq] at hpeek
    exact .success rfl (h.advance (lt_length_of_peek? hpeek))
  | none => exact endsAlike_missing h _ h.location

lemma follows_charIn (lo hi : Char) : Follows input k failed id (charIn lo hi) (charIn lo hi) := by
  intro s s₀ h
  unfold charIn
  rw [h.peek?_eq]
  cases hpeek : s₀.peek? with
  | some c =>
    rw [← h.peek?_eq] at hpeek
    by_cases hc : lo ≤ c ∧ c ≤ hi
    · simp only [hc, and_self, if_true]
      exact .success rfl (h.advance (lt_length_of_peek? hpeek))
    · simp only [hc, if_false]
      exact endsAlike_missing h _ h.location
  | none => exact endsAlike_missing h _ h.location

lemma follows_exactly (value : String) :
    Follows input k failed id (exactly value) (exactly value) := by
  intro s s₀ h
  unfold exactly
  dsimp only
  rw [h.ahead_eq]
  have hcommon := (commonLength_le value.toList (s.ahead value.length)).2
  have hahead := length_ahead_le s value.length
  have hwithin := h.within_length
  rw [h.ahead_eq] at hcommon hahead
  by_cases hmatch : commonLength value.toList (s₀.ahead value.length) = value.length
  · rw [if_pos hmatch, if_pos hmatch]
    exact .success rfl (h.advance (by omega))
  · rw [if_neg hmatch, if_neg hmatch]
    apply endsAlike_missing h
    rw [h.location]
    omega

lemma textSince_shift (h : Twin input k failed s s₀) (start : Nat) (matched : String) :
    textSince (start + k) matched s = (textSince start matched s₀).shift k := by
  rw [textSince, textSince, Tree.shift, Span.shift, h.location]

/-- A step that returns what it matched as a piece of text. -/
lemma Follows.text {a : Action α} (h : Follows input k failed id a a) (matched : α → String) :
    Follows input k failed (Tree.shiftOption k)
      (fun s => (a s).bind fun value s' =>
        .success (some (textSince s.location (matched value) s')) s')
      (fun s => (a s).bind fun value s' =>
        .success (some (textSince s.location (matched value) s')) s') := by
  intro s s₀ hs
  apply (h s s₀ hs).bind
  intro value s' s₀' hs'
  rw [hs.location, id_eq, textSince_shift hs']
  exact .success rfl hs'

lemma follows_any : Follows input k failed (Tree.shiftOption k) any any :=
  follows_anyChar.text Char.toString

lemma follows_literal (value : String) :
    Follows input k failed (Tree.shiftOption k) (literal value) (literal value) :=
  (follows_exactly value).text fun _ => value

lemma follows_range (lo hi : Char) :
    Follows input k failed (Tree.shiftOption k) (range lo hi) (range lo hi) :=
  (follows_charIn lo hi).text Char.toString

lemma countWhile_shift (h : Twin input k failed s s₀) (accepts : Char → Bool) (limit place : Nat) :
    countWhile accepts s.input limit (place + k) = countWhile accepts s₀.input limit place := by
  induction limit generalizing place with
  | zero => rfl
  | succ limit ih =>
    have hnext : place + k + 1 = place + 1 + k := by omega
    rw [countWhile, countWhile, h.getElem?, hnext, ih]

lemma extract_shift (h : Twin input k failed s s₀) (start stop : Nat) :
    (s.input.extract (start + k) (stop + k)).toList = (s₀.input.extract start stop).toList := by
  simp only [Array.toList_extract, List.extract_eq_take_drop, h.input_eq, h.rest_eq,
    List.drop_drop, Nat.add_comm _ k, Nat.add_sub_add_left]

lemma slice_shift (h : Twin input k failed s s₀) (start stop : Nat) :
    s.slice ⟨start + k, stop + k⟩ = s₀.slice ⟨start, stop⟩ := by
  have hlength := h.length_eq
  have hstop : min (stop + k) s.input.size = min stop s₀.input.size + k := by
    simp only [State.length] at hlength
    omega
  have hstart : min (start + k) (min stop s₀.input.size + k) =
      min start (min stop s₀.input.size) + k := by omega
  simp only [State.slice]
  rw [hstop, hstart, extract_shift h]

lemma follows_spacing : Follows input k failed (Tree.shiftOption k) spacing spacing := by
  intro s s₀ h
  have hlimit : s.length - s.location = s₀.length - s₀.location := by
    rw [h.length_eq, h.location]
    omega
  have hcount : countWhile isSpacing s.input (s.length - s.location) s.location =
      countWhile isSpacing s₀.input (s₀.length - s₀.location) s₀.location := by
    rw [hlimit, h.location, countWhile_shift h]
  have hle := countWhile_le isSpacing s.input (s.length - s.location) s.location
  have hwithin := h.within_length
  have hadvance : Twin input k failed
      (s.advance (countWhile isSpacing s.input (s.length - s.location) s.location))
      (s₀.advance (countWhile isSpacing s.input (s.length - s.location) s.location)) :=
    h.advance (by omega)
  rw [hcount] at hadvance
  unfold spacing
  dsimp only
  rw [hcount]
  by_cases hnone : countWhile isSpacing s₀.input (s₀.length - s₀.location) s₀.location = 0
  · rw [if_pos hnone, if_pos hnone]
    exact .success rfl hadvance
  · rw [if_neg hnone, if_neg hnone]
    rw [hadvance.location, h.location, textSince_shift hadvance, slice_shift h]
    exact .success rfl hadvance

end Primitive

section Combinator

variable {α β : Type} {input : Array Char} {k : Nat} {failed : Bool} {move : α → α}
  {a a₀ : Action α}

lemma Follows.lookahead (h : Follows input k failed move a a₀) :
    Follows input k failed id (lookahead a) (lookahead a₀) := by
  intro s s₀ hs
  have hplace : s₀.location + k ≤ input.size := hs.location ▸ hs.within
  unfold Action.lookahead
  rw [hs.location]
  have halike := h s s₀ hs
  generalize a s = o at halike ⊢
  generalize a₀ s₀ = o₀ at halike ⊢
  cases halike with
  | success _ hs' => exact .success rfl (hs'.goto hplace)
  | failure hs' => exact endsAlike_failWith (hs'.goto hplace) _
  | unfinished => exact .unfinished

lemma Follows.notAhead (h : Follows input k failed move a a₀) :
    Follows input k failed id (notAhead a) (notAhead a₀) := by
  intro s s₀ hs
  have hplace : s₀.location + k ≤ input.size := hs.location ▸ hs.within
  unfold Action.notAhead
  rw [hs.location]
  have halike := h s s₀ hs
  generalize a s = o at halike ⊢
  generalize a₀ s₀ = o₀ at halike ⊢
  cases halike with
  | success _ hs' =>
    exact endsAlike_failWith (hs'.goto hplace) (.predicate "unexpected match" (.point s₀.location))
  | @failure f s' s₀' hs' =>
    dsimp only
    rw [hs'.commits_eq]
    by_cases hf : s₀'.commits f = true
    · rw [if_pos hf, if_pos hf]
      exact .failure (hs'.goto hplace)
    · rw [if_neg hf, if_neg hf]
      exact .success rfl (hs'.weaken.goto hplace)
  | unfinished => exact .unfinished

lemma follows_eof : Follows input k failed (Tree.shiftOption k) eof eof :=
  fun s s₀ hs => (follows_any.notAhead s s₀ hs).map fun _ => rfl

lemma Follows.traced (h : Follows input k failed move a a₀) (name : String) :
    Follows input k failed move (traced name a) (traced name a₀) :=
  fun _ _ hs => (h _ _ (hs.enter name)).mapState fun _ _ _ hs' => hs'.leave

lemma Follows.collected {a a₀ : Action (List (Option Tree))}
    (h : Follows input k failed (List.map (Tree.shiftOption k)) a a₀) :
    Follows input k failed (Tree.shiftOption k) (collected a) (collected a₀) := by
  intro s s₀ hs
  apply (h s s₀ hs).bind
  intro values s' s₀' hs'
  rw [Tree.filterMap_shiftOption, hs.location, hs'.location]
  exact .success rfl hs'

lemma Follows.zeroOrMore (h : Follows input k failed move a a₀) (limit : Nat) :
    Follows input k failed (List.map move) (zeroOrMore a limit) (zeroOrMore a₀ limit) := by
  induction limit with
  | zero => exact follows_cutOff
  | succ limit ih =>
    intro s s₀ hs
    have hplace : s₀.location + k ≤ input.size := hs.location ▸ hs.within
    simp only [Action.zeroOrMore]
    have halike := h s s₀ hs
    generalize a s = o at halike ⊢
    generalize a₀ s₀ = o₀ at halike ⊢
    cases halike with
    | @success value value₀ s' s₀' hvalue hs' =>
      dsimp only
      by_cases hstay : s₀'.location = s₀.location
      · rw [if_pos ((hs.location_eq_iff hs').mpr hstay), if_pos hstay]
        exact .success (by simp [hvalue]) hs'
      · rw [if_neg fun hs'' => hstay ((hs.location_eq_iff hs').mp hs''), if_neg hstay]
        exact (ih s' s₀' hs').map fun _ => by rw [hvalue, List.map_cons]
    | @failure f s' s₀' hs' =>
      dsimp only
      rw [hs'.commits_eq, hs.location]
      by_cases hf : s₀'.commits f = true
      · rw [if_pos hf, if_pos hf]
        exact .failure hs'
      · rw [if_neg hf, if_neg hf]
        exact .success rfl (hs'.weaken.goto hplace)
    | unfinished => exact .unfinished

lemma Follows.oneOrMore (h : Follows input k failed move a a₀) (limit : Nat) :
    Follows input k failed (List.map move) (oneOrMore a limit) (oneOrMore a₀ limit) := by
  intro s s₀ hs
  simp only [Action.oneOrMore]
  have halike := h s s₀ hs
  generalize a s = o at halike ⊢
  generalize a₀ s₀ = o₀ at halike ⊢
  cases halike with
  | @success value value₀ s' s₀' hvalue hs' =>
    dsimp only
    by_cases hstay : s₀'.location = s₀.location
    · rw [if_pos ((hs.location_eq_iff hs').mpr hstay), if_pos hstay]
      exact .success (by simp [hvalue]) hs'
    · rw [if_neg fun hs'' => hstay ((hs.location_eq_iff hs').mp hs''), if_neg hstay]
      exact (h.zeroOrMore limit s' s₀' hs').map fun _ => by rw [hvalue, List.map_cons]
  | failure hs' => exact .failure hs'
  | unfinished => exact .unfinished

lemma follows_throwLabel (label : String) (start : Nat) :
    Follows input k true move (throwLabel label (start + k)) (throwLabel label start) := by
  intro s s₀ hs
  -- both have failed before, so the latest failure is the same one
  have hstop : max s.failure (start + k) = max s₀.failure start + k := by
    rw [hs.failure rfl]
    omega
  unfold throwLabel
  rw [hs.rule?_eq, hstop]
  exact endsAlike_failWith hs (.labeled label s₀.rule? ⟨start, max s₀.failure start⟩)

lemma endsAlike_choiceFrom {alternatives alternatives₀ : List (Action α)}
    (h : List.Forall₂ (Follows input k true move) alternatives alternatives₀) {start : Nat}
    (hstart : start + k ≤ input.size) (farthest? : Option Failure) {s s₀ : State}
    (hs : Twin input k true s s₀) :
    EndsAlike input k true move
      (choiceFrom (start + k) (farthest?.map (Failure.shift k)) alternatives s)
      (choiceFrom start farthest? alternatives₀ s₀) := by
  induction h generalizing farthest? s s₀ with
  | nil =>
    simp only [choiceFrom]
    cases farthest? with
    | none => exact endsAlike_failWith hs (.predicate "no alternatives" (.point start))
    | some f => exact endsAlike_failWith hs f
  | @cons a a₀ _ _ ha _ ih =>
    simp only [choiceFrom]
    have halike := ha s s₀ hs
    generalize a s = o at halike ⊢
    generalize a₀ s₀ = o₀ at halike ⊢
    cases halike with
    | success hvalue hs' => exact .success hvalue hs'
    | @failure f s' s₀' hs' =>
      dsimp only
      rw [hs'.commits_eq]
      by_cases hf : s₀'.commits f = true
      · rw [if_pos hf, if_pos hf]
        exact .failure hs'
      · rw [if_neg hf, if_neg hf, Failure.farther_shift]
        exact ih (some _) (hs'.goto hstart)
    | unfinished => exact .unfinished

lemma follows_choice_nil : Follows input k failed move (choice []) (choice []) := by
  intro s s₀ hs
  unfold Action.choice
  rw [hs.location]
  exact endsAlike_failWith hs (.predicate "no alternatives" (.point s₀.location))

lemma Follows.choice (h : Follows input k failed move a a₀)
    {alternatives alternatives₀ : List (Action α)}
    (hothers : List.Forall₂ (Follows input k true move) alternatives alternatives₀) :
    Follows input k failed move (choice (a :: alternatives)) (choice (a₀ :: alternatives₀)) := by
  intro s s₀ hs
  have hplace : s₀.location + k ≤ input.size := hs.location ▸ hs.within
  unfold Action.choice
  rw [hs.location]
  simp only [choiceFrom]
  have halike := h s s₀ hs
  generalize a s = o at halike ⊢
  generalize a₀ s₀ = o₀ at halike ⊢
  cases halike with
  | success hvalue hs' => exact .success hvalue hs'
  | @failure f s' s₀' hs' =>
    dsimp only
    rw [hs'.commits_eq]
    by_cases hf : s₀'.commits f = true
    · rw [if_pos hf, if_pos hf]
      exact .failure hs'
    · -- the first alternative has failed when the next one is tried
      rw [if_neg hf, if_neg hf]
      exact (endsAlike_choiceFrom hothers hplace (some f) (hs'.goto hplace)).weaken
  | unfinished => exact .unfinished

end Combinator

end Action

end Parse

end LabeledPeg
