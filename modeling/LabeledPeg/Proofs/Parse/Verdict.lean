import LabeledPeg.Parse.State

/-!
# How a match ends

A match ends behind what it matched, without a match, or with a label that ends everything around
it. What a parser returns and the state that it leaves say which of these happened.
-/

namespace LabeledPeg

open Parse

/-- How a match ends. -/
inductive Verdict where
  | matched (stop : Nat)
  | failed
  | thrown (label : String)
deriving DecidableEq

/-- How an attempt ends that throws a label when it fails. -/
def Parse.LabelPolicy.raised : LabelPolicy → String → Verdict
  | commit, label => .thrown label
  | backtrack, _ => .failed

/-- How an attempt ends that fails. -/
def Parse.State.verdictOf (s : State) (f : Failure) : Verdict :=
  f.label?.elim .failed s.policy.raised

/-- How a finished run ends. -/
def Outcome.verdict? {α : Type} : Outcome Failure State α → Option Verdict
  | success _ s => some (.matched s.location)
  | failure f s => some (s.verdictOf f)
  | unfinished => none

theorem Parse.State.verdictOf_of_commits {s : State} {f : Failure} (h : s.commits f = true) :
    ∃ label, s.verdictOf f = .thrown label := by
  simp only [commits, Bool.and_eq_true, beq_iff_eq, Failure.isLabeled, Option.isSome_iff_exists] at h
  obtain ⟨⟨label, hlabel⟩, hpolicy⟩ := h
  exact ⟨label, by simp [verdictOf, hlabel, hpolicy, LabelPolicy.raised]⟩

theorem Parse.State.verdictOf_of_not_commits {s : State} {f : Failure} (h : ¬s.commits f = true) :
    s.verdictOf f = .failed := by
  unfold verdictOf
  cases hlabel : f.label? with
  | none => rfl
  | some label =>
    cases hpolicy : s.policy with
    | commit => simp [commits, Failure.isLabeled, hlabel, hpolicy] at h
    | backtrack => rfl

theorem Parse.State.verdictOf_ne_matched (s : State) (f : Failure) (stop : Nat) :
    s.verdictOf f ≠ .matched stop := by
  by_cases h : s.commits f = true
  · obtain ⟨label, hlabel⟩ := s.verdictOf_of_commits h
    simp [hlabel]
  · simp [s.verdictOf_of_not_commits h]

end LabeledPeg
