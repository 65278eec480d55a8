import LabeledPeg.Proofs.Parse.Motion
import Mathlib.Order.Bounds.Basic

/-!
# Matching a literal

A literal is matched as a whole or not at all. If the input does not go on with it, nothing moves, and
the failure stands behind the longest prefix of the literal that the input goes on with.
-/

namespace LabeledPeg.Parse.Action

variable {s : State} {value : String}

lemma length_le_commonLength {p as bs : List Char} (ha : p <+: as) (hb : p <+: bs) :
    p.length ≤ commonLength as bs := by
  obtain ⟨as, rfl⟩ := ha
  obtain ⟨bs, rfl⟩ := hb
  induction p with
  | nil => exact Nat.zero_le _
  | cons c p ih =>
    rw [List.cons_append, List.cons_append, commonLength, if_pos rfl]
    exact Nat.succ_le_succ ih

lemma take_commonLength_isPrefix (as bs : List Char) : as.take (commonLength as bs) <+: bs := by
  induction as generalizing bs with
  | nil => simp
  | cons a as ih =>
    cases bs with
    | nil => simp [commonLength]
    | cons b bs =>
      by_cases hab : a = b
      · subst hab
        rw [commonLength, if_pos rfl, List.take_succ_cons]
        exact List.cons_prefix_cons.mpr ⟨rfl, ih bs⟩
      · simp [commonLength, hab]

/-- As far as two texts are found equal they have a prefix in common, and none that is longer. -/
lemma isGreatest_commonLength (as bs : List Char) :
    IsGreatest {n | ∃ p, p <+: as ∧ p <+: bs ∧ p.length = n} (commonLength as bs) := by
  constructor
  · refine ⟨as.take (commonLength as bs), List.take_prefix _ _, take_commonLength_isPrefix as bs, ?_⟩
    rw [List.length_take, min_eq_left (commonLength_le as bs).1]
  · rintro n ⟨p, ha, hb, rfl⟩
    exact length_le_commonLength ha hb

lemma commonLength_take (as bs : List Char) :
    commonLength as (bs.take as.length) = commonLength as bs := by
  induction as generalizing bs with
  | nil => simp [commonLength]
  | cons a as ih =>
    cases bs with
    | nil => simp [commonLength]
    | cons b bs => simp only [List.length_cons, List.take_succ_cons, commonLength, ih bs]

/-- What is compared of the input is as long as the literal. -/
lemma commonLength_ahead (s : State) (value : String) :
    commonLength value.toList (s.ahead value.length) = commonLength value.toList s.rest := by
  rw [State.ahead_eq_take_rest, ← String.length_toList, commonLength_take]

lemma exactly_of_match (h : value.toList <+: s.rest) :
    exactly value s = .success () { s with location := s.location + value.length } := by
  simp only [exactly, commonLength_ahead_eq_iff.mpr h, if_true, State.advance]

lemma exactly_of_mismatch (h : ¬ value.toList <+: s.rest) :
    exactly value s =
      missing (expectedLiteral value) (s.location + commonLength value.toList s.rest) s := by
  have hcommon := mt commonLength_ahead_eq_iff.mp h
  rw [commonLength_ahead] at hcommon
  simp only [exactly, commonLength_ahead, hcommon, if_false]

/-- A failure for want of something at a place of the input or at its end. -/
def IsMissing (s : State) (expected : String) (place : Nat) (f : Failure) : Prop :=
  place = s.length ∧ f = .endOfInput expected (.point place) ∨
    place < s.length ∧ ∃ found, s.input[place]? = some found ∧
      f = .mismatch expected found (.point place)

lemma exists_isMissing {α : Type} {expected : String} {place : Nat} (h : place ≤ s.length) :
    ∃ f, IsMissing s expected place f ∧
      (missing expected place : Action α) s = .failure f { s with failure := place } := by
  unfold missing
  cases hfound : s.input[place]? with
  | some found =>
    have hplace : place < s.length := (Array.getElem?_eq_some_iff.mp hfound).1
    exact ⟨_, .inr ⟨hplace, found, hfound, rfl⟩, rfl⟩
  | none =>
    have hplace : s.length ≤ place := Array.getElem?_eq_none_iff.mp hfound
    exact ⟨_, .inl ⟨Nat.le_antisymm h hplace, rfl⟩, rfl⟩

lemma location_add_commonLength_le (hs : s.location ≤ s.length) (value : String) :
    s.location + commonLength value.toList s.rest ≤ s.length := by
  have hcommon := (commonLength_le value.toList s.rest).2
  have hrest : s.rest.length = s.length - s.location := by simp [State.rest, State.length]
  omega

/-- A literal matches if and only if the input goes on with it, and then the parser moves over it and
nothing else changes. If it does not match, all that changes is the place of the latest failure. That
place lies behind the longest prefix that the literal and the rest of the input have in common, and the
failure points at it: there the input ends, or it has a character that was not expected. -/
theorem exactly_all_or_nothing (value : String) (hs : s.location ≤ s.length) :
    ((∃ s', exactly value s = .success () s') ↔ value.toList <+: s.rest) ∧
    (value.toList <+: s.rest →
      exactly value s = .success () { s with location := s.location + value.length }) ∧
    (¬ value.toList <+: s.rest → ∃ n f,
      IsGreatest {n | ∃ p, p <+: value.toList ∧ p <+: s.rest ∧ p.length = n} n ∧
      IsMissing s (expectedLiteral value) (s.location + n) f ∧
      exactly value s = .failure f { s with failure := s.location + n }) := by
  have hfails : ¬ value.toList <+: s.rest → ∃ f,
      IsMissing s (expectedLiteral value) (s.location + commonLength value.toList s.rest) f ∧
      exactly value s =
        .failure f { s with failure := s.location + commonLength value.toList s.rest } := by
    intro h
    rw [exactly_of_mismatch h]
    exact exists_isMissing (location_add_commonLength_le hs value)
  refine ⟨⟨?_, fun h => ⟨_, exactly_of_match h⟩⟩, exactly_of_match, fun h => ?_⟩
  · rintro ⟨s', hrun⟩
    by_contra h
    obtain ⟨f, -, hfail⟩ := hfails h
    cases hrun.symm.trans hfail
  · obtain ⟨f, hf, hfail⟩ := hfails h
    exact ⟨_, f, isGreatest_commonLength value.toList s.rest, hf, hfail⟩

/-- One literal matches, one meets a character that differs, and one runs past the end of the input.
The latest failure before was an old one. -/
theorem exactly_all_or_nothing_accents :
    let s : State := ⟨#['x', 'a', 'é', 'b'], 1, 9, [⟨"S", 0⟩], .backtrack⟩
    exactly "aé" s = .success () { s with location := 3 } ∧
    (IsGreatest {n | ∃ p, p <+: "aéc".toList ∧ p <+: s.rest ∧ p.length = n} 2 ∧
      exactly "aéc" s =
        .failure (.mismatch "'a\\u\x7be9\x7dc'" 'b' (.point 3)) { s with failure := 3 }) ∧
    IsGreatest {n | ∃ p, p <+: "aébc".toList ∧ p <+: s.rest ∧ p.length = n} 3 ∧
      exactly "aébc" s =
        .failure (.endOfInput "'a\\u\x7be9\x7dbc'" (.point 4)) { s with failure := 4 } := by
  intro s
  have hs : s.location ≤ s.length := by decide
  have hmismatch : exactly "aéc" s =
      .failure (.mismatch "'a\\u\x7be9\x7dc'" 'b' (.point 3)) { s with failure := 3 } := rfl
  have hend : exactly "aébc" s =
      .failure (.endOfInput "'a\\u\x7be9\x7dbc'" (.point 4)) { s with failure := 4 } := rfl
  obtain ⟨n, f, hn, -, hrun⟩ := (exactly_all_or_nothing "aéc" hs).2.2 (by decide)
  obtain ⟨n', f', hn', -, hrun'⟩ := (exactly_all_or_nothing "aébc" hs).2.2 (by decide)
  -- the place of the failure tells how much was found equal
  have hplace : 1 + n = 3 :=
    congrArg State.failure (Outcome.failure.inj (hrun.symm.trans hmismatch)).2
  have hplace' : 1 + n' = 4 :=
    congrArg State.failure (Outcome.failure.inj (hrun'.symm.trans hend)).2
  obtain rfl : n = 2 := by omega
  obtain rfl : n' = 3 := by omega
  exact ⟨(exactly_all_or_nothing "aé" hs).2.1 (by decide), ⟨hn, hmismatch⟩, hn', hend⟩

end LabeledPeg.Parse.Action
