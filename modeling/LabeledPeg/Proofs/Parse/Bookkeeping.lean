import LabeledPeg.Parse.Script
import LabeledPeg.Proofs.Parse.Motion

/-!
# What combinators leave in order

Whatever combinators are put together, with moves to any place and changes of the policy in between,
the state that they leave has the input it began with, a location within it, and the trace of the
beginning. A step that fails leaves its failure as the latest one. This is what a label relies on
that is thrown after it: several combinators pass a failure of their body on without noting it
again.
-/

namespace LabeledPeg.Parse

/-- What stays in order from one state to another. -/
structure State.InOrder (s s' : State) : Prop where
  input : s'.input = s.input
  trace : s'.trace = s.trace
  within : s'.location ≤ s'.length

namespace State

variable {s s' s'' : State}

lemma InOrder.refl (h : s.location ≤ s.length) : s.InOrder s := ⟨rfl, rfl, h⟩

lemma InOrder.trans (h : s.InOrder s') (h' : s'.InOrder s'') : s.InOrder s'' :=
  ⟨h'.input.trans h.input, h'.trace.trans h.trace, h'.within⟩

lemma Advanced.inOrder (h : s.Advanced s') : s.InOrder s' := ⟨h.input, h.trace, h.within⟩

lemma InOrder.note (h : s.InOrder s') (f : Failure) : s.InOrder (s'.note f) :=
  ⟨h.input, h.trace, h.within⟩

/-- Moving to a place behind the input ends at the end of the input. -/
lemma InOrder.goto (h : s.InOrder s') (place : Nat) : s.InOrder (s'.goto place) :=
  ⟨h.input, h.trace, min_le_right _ _⟩

lemma InOrder.setPolicy (h : s.InOrder s') (policy : LabelPolicy) :
    s.InOrder { s' with policy } :=
  ⟨h.input, h.trace, h.within⟩

lemma InOrder.leave {name : String} (h : (s.enter name).InOrder s') : s.InOrder s'.leave := by
  refine ⟨h.input, ?_, h.within⟩
  simp [State.leave, h.trace, State.enter]

/-- How a step can end that began in the state `s`. -/
inductive Ends {α : Type} (s : State) : Outcome Failure State α → Prop
  | success {value : α} {s' : State} (hs' : s.InOrder s') : Ends s (.success value s')
  | failure {f : Failure} {s' : State} (hs' : s.InOrder s') (hnoted : s'.failure = f.position) :
    Ends s (.failure f s')
  | unfinished : Ends s .unfinished

variable {α β : Type} {o : Outcome Failure State α}

lemma Ends.of_inOrder (h : s'.Ends o) (hs : s.InOrder s') : s.Ends o := by
  cases h with
  | success hs' => exact .success (hs.trans hs')
  | failure hs' hnoted => exact .failure (hs.trans hs') hnoted
  | unfinished => exact .unfinished

lemma Ends.bind (h : s.Ends o) {next : α → State → Outcome Failure State β}
    (hnext : ∀ value s', s.InOrder s' → s.Ends (next value s')) : s.Ends (o.bind next) := by
  cases h with
  | success hs' => exact hnext _ _ hs'
  | failure hs' hnoted => exact .failure hs' hnoted
  | unfinished => exact .unfinished

lemma Ends.map (h : s.Ends o) (f : α → β) : s.Ends (o.map f) := by
  cases h with
  | success hs' => exact .success hs'
  | failure hs' hnoted => exact .failure hs' hnoted
  | unfinished => exact .unfinished

lemma ends_failWith (f : Failure) (hs' : s.InOrder s') :
    s.Ends (Action.failWith f s' : Outcome Failure State α) :=
  .failure (hs'.note f) rfl

end State

namespace Action

variable {α β : Type} {a : Action α}

/-- Whether a step from a location within the input leaves everything in order, and its failure as
the latest one. -/
def Accounts (a : Action α) : Prop := ∀ s : State, s.location ≤ s.length → s.Ends (a s)

lemma Accounts.map (h : a.Accounts) (f : α → β) : Accounts fun s => (a s).map f :=
  fun s hs => (h s hs).map f

lemma accounts_succeed (value : α) : Accounts (Run.succeed value : Action α) :=
  fun _ hs => .success (.refl hs)

lemma failure_of_missing {expected : String} {place : Nat} {s s' : State} {f : Failure}
    (h : (missing expected place : Action α) s = .failure f s') : s'.failure = f.position := by
  unfold missing failWith at h
  split at h
  · obtain ⟨rfl, rfl⟩ := Outcome.failure.inj h
    rfl
  · obtain ⟨rfl, rfl⟩ := Outcome.failure.inj h
    rfl

/-- A step that moves forward leaves everything in order, if it notes its failures. -/
lemma Advances.accounts (h : a.Advances)
    (hnoted : ∀ s f s', a s = .failure f s' → s'.failure = f.position) : a.Accounts := by
  intro s hs
  cases ha : a s with
  | success value s' => exact .success (h.success hs ha).inOrder
  | failure f s' => exact .failure (h.failure hs ha).inOrder (hnoted s f s' ha)
  | unfinished => exact .unfinished

lemma accounts_anyChar : anyChar.Accounts := by
  refine advances_anyChar.accounts fun s f s' h => ?_
  unfold anyChar at h
  split at h
  · cases h
  · exact failure_of_missing h

lemma accounts_charIn (lo hi : Char) : (charIn lo hi).Accounts := by
  refine (advances_charIn lo hi).accounts fun s f s' h => ?_
  unfold charIn at h
  split at h
  · split at h
    · cases h
    · exact failure_of_missing h
  · exact failure_of_missing h

lemma accounts_exactly (value : String) : (exactly value).Accounts := by
  refine (advances_exactly value).accounts fun s f s' h => ?_
  unfold exactly at h
  dsimp only at h
  split at h
  · cases h
  · exact failure_of_missing h

/-- The tree that is made of what a step matched changes nothing about where it ends. -/
lemma Accounts.text (h : a.Accounts) (matched : α → String) :
    Accounts fun s => (a s).bind fun value s' =>
      .success (some (textSince s.location (matched value) s')) s' :=
  fun s hs => (h s hs).bind fun _ _ hs' => .success hs'

lemma accounts_any : any.Accounts := accounts_anyChar.text fun c => c.toString

lemma accounts_literal (value : String) : (literal value).Accounts :=
  (accounts_exactly value).text fun _ => value

lemma accounts_range (lo hi : Char) : (range lo hi).Accounts :=
  (accounts_charIn lo hi).text fun c => c.toString

lemma accounts_spacing : spacing.Accounts := by
  refine advances_spacing.accounts fun s f s' h => ?_
  unfold spacing at h
  dsimp only at h
  split at h <;> cases h

lemma accounts_throwLabel (label : String) (start : Nat) :
    (throwLabel label start : Action α).Accounts :=
  fun _ hs => State.ends_failWith _ (.refl hs)

lemma Accounts.traced (h : a.Accounts) (name : String) : (traced name a).Accounts := by
  intro s hs
  have hbody := h (s.enter name) hs
  unfold Action.traced
  generalize a (s.enter name) = o at hbody
  cases hbody with
  | success hs' => exact .success hs'.leave
  | failure hs' hnoted => exact .failure hs'.leave hnoted
  | unfinished => exact .unfinished

lemma Accounts.collected {a : Action (List (Option Tree))} (h : a.Accounts) :
    (collected a).Accounts :=
  fun s hs => (h s hs).bind fun _ _ hs' => .success hs'

lemma Accounts.lookahead (h : a.Accounts) : (lookahead a).Accounts := by
  intro s hs
  have hbody := h s hs
  unfold Action.lookahead
  generalize a s = o at hbody
  cases hbody with
  | success hs' => exact .success (hs'.goto _)
  | failure hs' _ => exact State.ends_failWith _ (hs'.goto _)
  | unfinished => exact .unfinished

lemma Accounts.notAhead (h : a.Accounts) : (notAhead a).Accounts := by
  intro s hs
  have hbody := h s hs
  unfold Action.notAhead
  generalize a s = o at hbody
  cases hbody with
  | success hs' => exact State.ends_failWith _ (hs'.goto _)
  | failure hs' hnoted =>
    dsimp only
    split
    · -- the failure was noted by the body, and going back does not forget it
      exact .failure (hs'.goto _) hnoted
    · exact .success (hs'.goto _)
  | unfinished => exact .unfinished

lemma accounts_eof : eof.Accounts := accounts_any.notAhead.map fun _ => none

lemma Accounts.optional (h : a.Accounts) : (optional a).Accounts := by
  intro s hs
  have hbody := h s hs
  unfold Action.optional
  generalize a s = o at hbody
  cases hbody with
  | success hs' => exact .success hs'
  | failure hs' hnoted =>
    dsimp only
    split
    · exact .failure hs' hnoted
    · exact .success (hs'.goto _)
  | unfinished => exact .unfinished

/-- A choice that goes on from a state in order ends in order of where it began. -/
lemma ends_choiceFrom {alternatives : List (Action α)} (h : ∀ a ∈ alternatives, a.Accounts)
    (start : Nat) (farthest? : Option Failure) {s₀ s : State} (hs : s₀.InOrder s) :
    s₀.Ends (choiceFrom start farthest? alternatives s) := by
  induction alternatives generalizing farthest? s with
  | nil => exact State.ends_failWith _ hs
  | cons a alternatives ih =>
    have hfirst := (h a (by simp) s hs.within).of_inOrder hs
    unfold choiceFrom
    generalize a s = o at hfirst
    cases hfirst with
    | success hs' => exact .success hs'
    | failure hs' hnoted =>
      dsimp only
      split
      · exact .failure hs' hnoted
      · exact ih (fun b hb => h b (by simp [hb])) _ (hs'.goto start)
    | unfinished => exact .unfinished

lemma accounts_choice {alternatives : List (Action α)} (h : ∀ a ∈ alternatives, a.Accounts) :
    (choice alternatives).Accounts :=
  fun s hs => ends_choiceFrom h s.location none (.refl hs)

lemma Accounts.zeroOrMore (h : a.Accounts) (limit : Nat) : (zeroOrMore a limit).Accounts := by
  induction limit with
  | zero => exact fun _ _ => .unfinished
  | succ limit ih =>
    intro s hs
    have hbody := h s hs
    unfold Action.zeroOrMore
    generalize a s = o at hbody
    cases hbody with
    | @success value s' hs' =>
      dsimp only
      split
      · exact .success hs'
      · exact ((ih s' hs'.within).of_inOrder hs').map _
    | failure hs' hnoted =>
      dsimp only
      split
      · exact .failure hs' hnoted
      · exact .success (hs'.goto _)
    | unfinished => exact .unfinished

lemma Accounts.oneOrMore (h : a.Accounts) (limit : Nat) : (oneOrMore a limit).Accounts := by
  intro s hs
  have hbody := h s hs
  unfold Action.oneOrMore
  generalize a s = o at hbody
  cases hbody with
  | @success value s' hs' =>
    dsimp only
    split
    · exact .success hs'
    · exact ((h.zeroOrMore limit s' hs'.within).of_inOrder hs').map _
  | failure hs' hnoted => exact .failure hs' hnoted
  | unfinished => exact .unfinished

end Action

namespace Script

mutual

/-- Every expression leaves everything in order, by what each of its combinators does. -/
theorem accounts_action (limit : Nat) : ∀ script : Script, (script.action limit).Accounts
  | any => by
    simp only [action]
    exact Action.accounts_any
  | literal value => by
    simp only [action]
    exact Action.accounts_literal value
  | range lo hi => by
    simp only [action]
    exact Action.accounts_range lo hi
  | spacing => by
    simp only [action]
    exact Action.accounts_spacing
  | eof => by
    simp only [action]
    exact Action.accounts_eof
  | choice alternatives => by
    simp only [action]
    exact Action.accounts_choice (accounts_actions limit alternatives)
  | lookahead body => by
    simp only [action]
    exact (accounts_action limit body).lookahead.map fun _ => none
  | notAhead body => by
    simp only [action]
    exact (accounts_action limit body).notAhead.map fun _ => none
  | optional body => by
    simp only [action]
    exact (accounts_action limit body).optional.map Option.join
  | zeroOrMore body => by
    simp only [action]
    exact ((accounts_action limit body).zeroOrMore limit).collected
  | oneOrMore body => by
    simp only [action]
    exact ((accounts_action limit body).oneOrMore limit).collected
  | sequence steps => by
    simp only [action]
    exact (accounts_stepsAction limit steps).collected
  | traced name body => by
    simp only [action]
    exact (accounts_action limit body).traced name
  | throw label start? => by
    intro s hs
    simp only [action]
    exact Action.accounts_throwLabel label (start?.getD s.location) s hs
  | goto place => by
    intro s hs
    simp only [action]
    exact .success ((State.InOrder.refl hs).goto place)
  | setPolicy policy => by
    intro s hs
    simp only [action]
    exact .success ((State.InOrder.refl hs).setPolicy policy)

theorem accounts_actions (limit : Nat) :
    ∀ scripts : List Script, ∀ a ∈ actions limit scripts, a.Accounts
  | [] => by simp [actions]
  | script :: scripts => by
    simp only [actions, List.forall_mem_cons]
    exact ⟨accounts_action limit script, accounts_actions limit scripts⟩

theorem accounts_stepsAction (limit : Nat) :
    ∀ scripts : List Script, (stepsAction limit scripts).Accounts
  | [] => by
    simp only [stepsAction]
    exact Action.accounts_succeed []
  | script :: scripts => by
    intro s hs
    simp only [stepsAction]
    apply (accounts_action limit script s hs).bind
    intro value s' hs'
    exact ((accounts_stepsAction limit scripts s' hs'.within).of_inOrder hs').map (value :: ·)

end

/-- Wherever the evaluation of an expression ends, however often its repetitions may match, the
input is what it was, the location lies within it and the trace is what it was; if the expression
failed, the place of the latest failure is where it failed. -/
theorem state_after_action (script : Script) (limit : Nat) {s s' : State}
    (hs : s.location ≤ s.length) (h : (script.action limit s).state? = some s') :
    s'.input = s.input ∧ s'.location ≤ s'.length ∧ s'.trace = s.trace ∧
      ∀ f, script.action limit s = .failure f s' → s'.failure = f.position := by
  have hends := accounts_action limit script s hs
  generalize script.action limit s = o at h hends ⊢
  cases hends with
  | success hs' =>
    obtain rfl := Option.some.inj h
    exact ⟨hs'.input, hs'.within, hs'.trace, fun f hf => nomatch hf⟩
  | failure hs' hnoted =>
    obtain rfl := Option.some.inj h
    refine ⟨hs'.input, hs'.within, hs'.trace, fun f hf => ?_⟩
    obtain ⟨rfl, -⟩ := Outcome.failure.inj hf
    exact hnoted
  | unfinished => cases h

/-- A label that is thrown inside a negative lookahead, and passes it by. -/
def barred : Script :=
  .traced "Line" (.choice [.notAhead (.sequence [.literal "a",
    .choice [.literal "b", .throw "missing" (some 0)]]), .any])

/-- The latest failure was an old one, far behind the place where the label is thrown. -/
theorem state_after_action_barred :
    ∃ s' : State, s'.location = 0 ∧ s'.trace = [⟨"File", 0⟩] ∧ s'.failure = 1 ∧
      barred.action 1 ⟨#['a', 'x', 'c'], 0, 3, [⟨"File", 0⟩], .commit⟩ =
        .failure (.labeled "missing" (some "Line") ⟨0, 1⟩) s' := by
  have hrun : barred.action 1 ⟨#['a', 'x', 'c'], 0, 3, [⟨"File", 0⟩], .commit⟩ =
      .failure (.labeled "missing" (some "Line") ⟨0, 1⟩)
        ⟨#['a', 'x', 'c'], 0, 1, [⟨"File", 0⟩], .commit⟩ := rfl
  obtain ⟨-, -, htrace, hfailure⟩ := state_after_action barred 1 (by decide)
    (congrArg Outcome.state? hrun)
  exact ⟨_, rfl, htrace, hfailure _ hrun, hrun⟩

end Script

end LabeledPeg.Parse
