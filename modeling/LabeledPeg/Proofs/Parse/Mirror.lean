import LabeledPeg.Parse.Combinator
import Mathlib.Data.List.Forall2
import Mathlib.Data.Option.Basic
import Mathlib.Tactic.Lemma

/-!
# Runs in which labels end nothing

A run under some policy is compared with a second one, in which labels end nothing: the two are at
the same place as long as they match, and fail together. If the policy goes back, their failures may
differ; if it commits, they are the same, up to the first label. Every combinator keeps this.
-/

namespace LabeledPeg

namespace Parse

/-- Whether two states stand at the same place of one input, the first one under `policy`. -/
structure State.Peers (policy : LabelPolicy) (s s₀ : State) : Prop where
  policy_eq : s.policy = policy
  input_eq : s₀.input = s.input
  location_eq : s₀.location = s.location

namespace State.Peers

variable {policy : LabelPolicy} {s s₀ : State}

lemma length_eq (h : s.Peers policy s₀) : s₀.length = s.length := by
  rw [State.length, State.length, h.input_eq]

lemma peek?_eq (h : s.Peers policy s₀) : s₀.peek? = s.peek? := by
  rw [State.peek?, State.peek?, h.input_eq, h.location_eq]

lemma ahead_eq (h : s.Peers policy s₀) (count : Nat) : s₀.ahead count = s.ahead count := by
  rw [State.ahead, State.ahead, h.input_eq, h.location_eq]

lemma slice_eq (h : s.Peers policy s₀) (span : Span) : s₀.slice span = s.slice span := by
  rw [State.slice, State.slice, h.input_eq]

lemma advance (h : s.Peers policy s₀) (count : Nat) :
    (s.advance count).Peers policy (s₀.advance count) :=
  ⟨h.policy_eq, h.input_eq, congrArg (· + count) h.location_eq⟩

lemma enter (h : s.Peers policy s₀) (name : String) :
    (s.enter name).Peers policy (s₀.enter name) := ⟨h.policy_eq, h.input_eq, h.location_eq⟩

lemma leave (h : s.Peers policy s₀) : s.leave.Peers policy s₀.leave :=
  ⟨h.policy_eq, h.input_eq, h.location_eq⟩

end State.Peers

/-- Whether one failure stands for another one in a run in which labels end nothing. Under the policy
that commits it is the same failure. -/
structure Failure.StandsFor (policy : LabelPolicy) (f f₀ : Failure) : Prop where
  unlabeled : f₀.isLabeled = false
  eq_of_commit : policy = .commit → f = f₀

/-- How two runs end together, the second one in which labels end nothing: with the same value at the
same place, or both with a failure. What follows a label that commits is left open. -/
inductive Mirrors {α : Type} (policy : LabelPolicy) :
    Outcome Failure State α → Outcome Failure State α → Prop
  | success {value : α} {s s₀ : State} (h : s.Peers policy s₀) :
    Mirrors policy (.success value s) (.success value s₀)
  | failure {f f₀ : Failure} {s s₀ : State} (hf : f.StandsFor policy f₀)
    (hpolicy : s.policy = policy) (hinput : s₀.input = s.input)
    (hlocation : policy = .commit → s₀.location = s.location) :
    Mirrors policy (.failure f s) (.failure f₀ s₀)
  | committed {f : Failure} {s : State} {o₀ : Outcome Failure State α} (hf : f.isLabeled = true)
    (hpolicy : s.policy = policy) (hcommit : policy = .commit) : Mirrors policy (.failure f s) o₀
  | unfinished : Mirrors policy .unfinished .unfinished

namespace Mirrors

variable {α β : Type} {policy : LabelPolicy} {o o₀ : Outcome Failure State α}

lemma bind (h : Mirrors policy o o₀) {next next₀ : α → State → Outcome Failure State β}
    (hnext : ∀ value s s₀, s.Peers policy s₀ → Mirrors policy (next value s) (next₀ value s₀)) :
    Mirrors policy (o.bind next) (o₀.bind next₀) := by
  cases h with
  | success h => exact hnext _ _ _ h
  | failure hf hpolicy hinput hlocation => exact .failure hf hpolicy hinput hlocation
  | committed hf hpolicy hcommit => exact .committed hf hpolicy hcommit
  | unfinished => exact .unfinished

lemma map (h : Mirrors policy o o₀) (f : α → β) : Mirrors policy (o.map f) (o₀.map f) := by
  cases h with
  | success h => exact .success h
  | failure hf hpolicy hinput hlocation => exact .failure hf hpolicy hinput hlocation
  | committed hf hpolicy hcommit => exact .committed hf hpolicy hcommit
  | unfinished => exact .unfinished

lemma leave (h : Mirrors policy o o₀) :
    Mirrors policy (o.mapState State.leave) (o₀.mapState State.leave) := by
  cases h with
  | success h => exact .success h.leave
  | failure hf hpolicy hinput hlocation => exact .failure hf hpolicy hinput hlocation
  | committed hf hpolicy hcommit => exact .committed hf hpolicy hcommit
  | unfinished => exact .unfinished

end Mirrors

namespace State

variable {policy : LabelPolicy} {f f₀ : Failure} {s s₀ : State}

lemma commits_of_backtrack (hpolicy : s.policy = .backtrack) (f : Failure) :
    s.commits f = false := by
  rw [commits, hpolicy]
  exact Bool.and_false _

/-- No failure that has a counterpart in the second run ends what is around it. -/
lemma commits_eq_false (s₀ : State) (hf : f.StandsFor policy f₀) (hpolicy : s.policy = policy) :
    s.commits f = false ∧ s₀.commits f₀ = false := by
  have hf₀ : s₀.commits f₀ = false := by rw [commits, hf.unlabeled, Bool.false_and]
  refine ⟨?_, hf₀⟩
  cases policy with
  | commit => rw [hf.eq_of_commit rfl, commits, hf.unlabeled, Bool.false_and]
  | backtrack => exact commits_of_backtrack hpolicy f

lemma commits_eq_true (hf : f.isLabeled = true) (hpolicy : s.policy = policy)
    (hcommit : policy = .commit) : s.commits f = true := by
  rw [commits, hf, hpolicy, hcommit]
  rfl

lemma peers_goto (hpolicy : s.policy = policy) (hinput : s₀.input = s.input) {place place₀ : Nat}
    (hplace : place₀ = place) : (s.goto place).Peers policy (s₀.goto place₀) := by
  refine ⟨hpolicy, hinput, ?_⟩
  simp only [goto, hinput, hplace]

end State

lemma Failure.StandsFor.refl {f : Failure} (hf : f.isLabeled = false) (policy : LabelPolicy) :
    f.StandsFor policy f := ⟨hf, fun _ => rfl⟩

namespace Action

/-- Whether one step does what another one does in which labels end nothing. -/
def Mirrored {α : Type} (policy : LabelPolicy) (a a₀ : Action α) : Prop :=
  ∀ s s₀, s.Peers policy s₀ → Mirrors policy (a s) (a₀ s₀)

section Primitive

variable {α : Type} {policy : LabelPolicy} {s s₀ : State}

lemma mirrors_failWith (h : s.Peers policy s₀) {f f₀ : Failure} (hf : f.StandsFor policy f₀) :
    Mirrors policy (failWith f s : Outcome Failure State α) (failWith f₀ s₀) :=
  .failure hf h.policy_eq h.input_eq fun _ => h.location_eq

lemma mirrors_missing (h : s.Peers policy s₀) (expected : String) {place place₀ : Nat}
    (hplace : place₀ = place) :
    Mirrors policy (missing expected place s : Outcome Failure State α)
      (missing expected place₀ s₀) := by
  unfold missing
  rw [h.input_eq, hplace]
  cases s.input[place]? with
  | some found => exact mirrors_failWith h (.refl rfl policy)
  | none => exact mirrors_failWith h (.refl rfl policy)

lemma mirrored_succeed (value : α) : Mirrored policy (Run.succeed value) (Run.succeed value) :=
  fun _ _ h => .success h

lemma mirrored_cutOff : Mirrored policy (Run.cutOff : Action α) Run.cutOff := fun _ _ _ => .unfinished

lemma mirrored_anyChar : Mirrored policy anyChar anyChar := by
  intro s s₀ h
  unfold anyChar
  rw [h.peek?_eq]
  cases s.peek? with
  | some c => exact .success (h.advance 1)
  | none => exact mirrors_missing h _ h.location_eq

lemma mirrored_charIn (lo hi : Char) : Mirrored policy (charIn lo hi) (charIn lo hi) := by
  intro s s₀ h
  unfold charIn
  rw [h.peek?_eq]
  cases s.peek? with
  | some c =>
    by_cases hc : lo ≤ c ∧ c ≤ hi
    · simp only [hc, and_self, if_true]
      exact .success (h.advance 1)
    · simp only [hc, if_false]
      exact mirrors_missing h _ h.location_eq
  | none => exact mirrors_missing h _ h.location_eq

lemma mirrored_exactly (value : String) : Mirrored policy (exactly value) (exactly value) := by
  intro s s₀ h
  unfold exactly
  rw [h.ahead_eq]
  by_cases hcommon : commonLength value.toList (s.ahead value.length) = value.length
  · simp only [hcommon, if_true]
    exact .success (h.advance _)
  · simp only [hcommon, if_false]
    exact mirrors_missing h _ (congrArg (· + _) h.location_eq)

/-- What was matched is the same text at the same place. -/
lemma Mirrored.text {a a₀ : Action α} (h : Mirrored policy a a₀) (matched : α → String) :
    Mirrored policy
      (fun s => (a s).bind fun value s' =>
        .success (some (textSince s.location (matched value) s')) s')
      (fun s => (a₀ s).bind fun value s' =>
        .success (some (textSince s.location (matched value) s')) s') := by
  intro s s₀ hs
  apply (h s s₀ hs).bind
  intro value s' s₀' hs'
  rw [textSince, textSince, hs.location_eq, hs'.location_eq]
  exact .success hs'

lemma mirrored_any : Mirrored policy any any := mirrored_anyChar.text Char.toString

lemma mirrored_literal (value : String) : Mirrored policy (literal value) (literal value) :=
  (mirrored_exactly value).text fun _ => value

lemma mirrored_range (lo hi : Char) : Mirrored policy (range lo hi) (range lo hi) :=
  (mirrored_charIn lo hi).text Char.toString

lemma mirrored_spacing : Mirrored policy spacing spacing := by
  intro s s₀ h
  simp only [spacing, h.length_eq, h.input_eq, h.location_eq, h.slice_eq, textSince, State.advance]
  split
  · exact .success ⟨h.policy_eq, rfl, rfl⟩
  · exact .success ⟨h.policy_eq, rfl, rfl⟩

end Primitive

section Combinator

variable {α : Type} {policy : LabelPolicy} {a a₀ : Action α}

lemma Mirrored.traced (h : Mirrored policy a a₀) (name : String) :
    Mirrored policy (traced name a) (traced name a₀) :=
  fun _ _ hs => (h _ _ (hs.enter name)).leave

lemma Mirrored.collected {a a₀ : Action (List (Option Tree))} (h : Mirrored policy a a₀) :
    Mirrored policy (collected a) (collected a₀) := by
  intro s s₀ hs
  apply (h s s₀ hs).bind
  intro values s' s₀' hs'
  rw [hs.location_eq, hs'.location_eq]
  exact .success hs'

lemma Mirrored.lookahead (h : Mirrored policy a a₀) :
    Mirrored policy (lookahead a) (lookahead a₀) := by
  intro s s₀ hs
  unfold Action.lookahead
  have hmirrors := h s s₀ hs
  generalize a s = o at hmirrors ⊢
  generalize a₀ s₀ = o₀ at hmirrors ⊢
  cases hmirrors with
  | success hs' => exact .success (State.peers_goto hs'.policy_eq hs'.input_eq hs.location_eq)
  | failure hf hpolicy hinput _ =>
    exact mirrors_failWith (State.peers_goto hpolicy hinput hs.location_eq) hf
  | committed hf hpolicy hcommit => exact .committed hf hpolicy hcommit
  | unfinished => exact .unfinished

lemma Mirrored.notAhead (h : Mirrored policy a a₀) : Mirrored policy (notAhead a) (notAhead a₀) := by
  intro s s₀ hs
  unfold Action.notAhead
  have hmirrors := h s s₀ hs
  generalize a s = o at hmirrors ⊢
  generalize a₀ s₀ = o₀ at hmirrors ⊢
  cases hmirrors with
  | success hs' =>
    have hback := State.peers_goto hs'.policy_eq hs'.input_eq hs.location_eq
    simp only [hs.location_eq] at hback ⊢
    exact mirrors_failWith hback (.refl rfl policy)
  | @failure f f₀ s' s₀' hf hpolicy hinput _ =>
    obtain ⟨hcommits, hcommits₀⟩ := State.commits_eq_false s₀' hf hpolicy
    simp only [hcommits, hcommits₀, Bool.false_eq_true, if_false]
    exact .success (State.peers_goto hpolicy hinput hs.location_eq)
  | committed hf hpolicy hcommit =>
    simp only [State.commits_eq_true hf hpolicy hcommit, if_true]
    exact .committed hf hpolicy hcommit
  | unfinished => exact .unfinished

lemma mirrored_eof : Mirrored policy eof eof :=
  fun s s₀ hs => (mirrored_any.notAhead s s₀ hs).map fun _ => none

lemma Mirrored.zeroOrMore (h : Mirrored policy a a₀) (limit : Nat) :
    Mirrored policy (zeroOrMore a limit) (zeroOrMore a₀ limit) := by
  induction limit with
  | zero => exact mirrored_cutOff
  | succ limit ih =>
    intro s s₀ hs
    simp only [Action.zeroOrMore]
    have hmirrors := h s s₀ hs
    generalize a s = o at hmirrors ⊢
    generalize a₀ s₀ = o₀ at hmirrors ⊢
    cases hmirrors with
    | @success value s' s₀' hs' =>
      simp only [hs.location_eq, hs'.location_eq]
      by_cases hstay : s'.location = s.location
      · simp only [hstay, if_true]
        exact .success hs'
      · simp only [hstay, if_false]
        exact (ih s' s₀' hs').map _
    | @failure f f₀ s' s₀' hf hpolicy hinput _ =>
      obtain ⟨hcommits, hcommits₀⟩ := State.commits_eq_false s₀' hf hpolicy
      simp only [hcommits, hcommits₀, Bool.false_eq_true, if_false]
      exact .success (State.peers_goto hpolicy hinput hs.location_eq)
    | committed hf hpolicy hcommit =>
      simp only [State.commits_eq_true hf hpolicy hcommit, if_true]
      exact .committed hf hpolicy hcommit
    | unfinished => exact .unfinished

lemma Mirrored.oneOrMore (h : Mirrored policy a a₀) (limit : Nat) :
    Mirrored policy (oneOrMore a limit) (oneOrMore a₀ limit) := by
  intro s s₀ hs
  simp only [Action.oneOrMore]
  have hmirrors := h s s₀ hs
  generalize a s = o at hmirrors ⊢
  generalize a₀ s₀ = o₀ at hmirrors ⊢
  cases hmirrors with
  | @success value s' s₀' hs' =>
    simp only [hs.location_eq, hs'.location_eq]
    by_cases hstay : s'.location = s.location
    · simp only [hstay, if_true]
      exact .success hs'
    · simp only [hstay, if_false]
      exact (h.zeroOrMore limit s' s₀' hs').map _
  | failure hf hpolicy hinput hlocation => exact .failure hf hpolicy hinput hlocation
  | committed hf hpolicy hcommit => exact .committed hf hpolicy hcommit
  | unfinished => exact .unfinished

lemma standsFor_farther {earlier? earlier?₀ : Option Failure} {f f₀ : Failure}
    (hearlier : Option.Rel (Failure.StandsFor policy) earlier? earlier?₀)
    (hf : f.StandsFor policy f₀) :
    (farther earlier? f).StandsFor policy (farther earlier?₀ f₀) := by
  cases hearlier with
  | none => exact hf
  | @some earlier earlier₀ hearlier =>
    refine ⟨?_, fun hcommit => ?_⟩
    · unfold farther
      dsimp only
      split
      · exact hearlier.unlabeled
      · exact hf.unlabeled
    · rw [hearlier.eq_of_commit hcommit, hf.eq_of_commit hcommit]

lemma mirrors_choiceFrom {alternatives alternatives₀ : List (Action α)}
    (h : List.Forall₂ (Mirrored policy) alternatives alternatives₀) (start : Nat)
    {farthest? farthest?₀ : Option Failure}
    (hfarthest : Option.Rel (Failure.StandsFor policy) farthest? farthest?₀) {s s₀ : State}
    (hs : s.Peers policy s₀) :
    Mirrors policy (choiceFrom start farthest? alternatives s)
      (choiceFrom start farthest?₀ alternatives₀ s₀) := by
  induction h generalizing farthest? farthest?₀ s s₀ with
  | nil =>
    simp only [choiceFrom]
    cases hfarthest with
    | none => exact mirrors_failWith hs (.refl rfl policy)
    | some hf => exact mirrors_failWith hs hf
  | @cons a a₀ _ _ ha _ ih =>
    simp only [choiceFrom]
    have hmirrors := ha s s₀ hs
    generalize a s = o at hmirrors ⊢
    generalize a₀ s₀ = o₀ at hmirrors ⊢
    cases hmirrors with
    | success hs' => exact .success hs'
    | @failure f f₀ s' s₀' hf hpolicy hinput _ =>
      obtain ⟨hcommits, hcommits₀⟩ := State.commits_eq_false s₀' hf hpolicy
      simp only [hcommits, hcommits₀, Bool.false_eq_true, if_false]
      exact ih (.some (standsFor_farther hfarthest hf)) (State.peers_goto hpolicy hinput rfl)
    | committed hf hpolicy hcommit =>
      simp only [State.commits_eq_true hf hpolicy hcommit, if_true]
      exact .committed hf hpolicy hcommit
    | unfinished => exact .unfinished

lemma mirrored_choice {alternatives alternatives₀ : List (Action α)}
    (h : List.Forall₂ (Mirrored policy) alternatives alternatives₀) :
    Mirrored policy (choice alternatives) (choice alternatives₀) := by
  intro s s₀ hs
  unfold choice
  rw [hs.location_eq]
  exact mirrors_choiceFrom h s.location .none hs

/-- Under the policy that commits, a label ends everything that is left to compare. -/
lemma mirrored_throwLabel (label : String) (start start₀ : Nat) :
    Mirrored .commit (throwLabel label start : Action α) (throwLabel label start₀) :=
  fun _ _ hs => .committed rfl hs.policy_eq rfl

/-- Under the policy that goes back, a label only changes how an attempt fails. -/
lemma Mirrored.throwing (h : Mirrored .backtrack a a₀) (label : String) (start : Nat) :
    Mirrored .backtrack (choice [a, throwLabel label start]) a₀ := by
  intro s s₀ hs
  simp only [choice, choiceFrom]
  have hmirrors := h s s₀ hs
  generalize a s = o at hmirrors ⊢
  generalize a₀ s₀ = o₀ at hmirrors ⊢
  cases hmirrors with
  | success hs' => exact .success hs'
  | @failure f f₀ s' s₀' hf hpolicy hinput _ =>
    have hthrow : ∀ f, ((s'.goto s.location).note f).commits f = false :=
      fun f => State.commits_of_backtrack hpolicy f
    simp only [State.commits_of_backtrack hpolicy, throwLabel, failWith, hthrow,
      Bool.false_eq_true, if_false]
    exact .failure ⟨hf.unlabeled, LabelPolicy.noConfusion⟩ hpolicy hinput LabelPolicy.noConfusion
  | committed _ _ hcommit => cases hcommit
  | unfinished => exact .unfinished

end Combinator

end Action

end Parse

end LabeledPeg
