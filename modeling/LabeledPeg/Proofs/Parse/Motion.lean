import LabeledPeg.Parse.Interpreter
import LabeledPeg.Proofs.Program.Code
import Mathlib.Order.MinMax

/-!
# How a step moves the parser

From a location within the input, a step of a parser ends within the input and never before where
it began, whether it matches or fails. It leaves the input and the policy alone, and the trace is
what it was when the step is over.
-/

namespace LabeledPeg

namespace Parse

/-- What stays as it was between the beginning and the end of a step. -/
structure State.Advanced (s s' : State) : Prop where
  input : s'.input = s.input
  policy : s'.policy = s.policy
  trace : s'.trace = s.trace
  start_le : s.location ≤ s'.location
  le_length : s'.location ≤ s.length

namespace State.Advanced

variable {s s' s'' : State}

lemma refl (h : s.location ≤ s.length) : s.Advanced s := ⟨rfl, rfl, rfl, le_refl _, h⟩

lemma length_eq (h : s.Advanced s') : s'.length = s.length := by
  simp only [State.length, h.input]

lemma within (h : s.Advanced s') : s'.location ≤ s'.length := h.length_eq ▸ h.le_length

lemma trans (h : s.Advanced s') (h' : s'.Advanced s'') : s.Advanced s'' :=
  ⟨h'.input.trans h.input, h'.policy.trans h.policy, h'.trace.trans h.trace,
    h.start_le.trans h'.start_le, h.length_eq ▸ h'.le_length⟩

/-- Going back to where a step began ends there. -/
lemma goto (h : s.Advanced s') (hs : s.location ≤ s.length) :
    s.Advanced (s'.goto s.location) ∧ (s'.goto s.location).location = s.location := by
  have hmin : min s.location s'.input.size = s.location := by
    rw [h.input]
    exact min_eq_left hs
  have hlocation : (s'.goto s.location).location = s.location := hmin
  exact ⟨⟨h.input, h.policy, h.trace, hlocation.ge, hlocation.le.trans hs⟩, hlocation⟩

lemma note (h : s.Advanced s') (f : Failure) : s.Advanced (s'.note f) :=
  ⟨h.input, h.policy, h.trace, h.start_le, h.le_length⟩

lemma commits_eq (h : s.Advanced s') (f : Failure) : s'.commits f = s.commits f := by
  simp only [State.commits, h.policy]

end State.Advanced

namespace Action

/-- Whether every end of a step, from a location within the input, is one that it advanced to. -/
def Advances {α : Type} (a : Action α) : Prop :=
  ∀ s s', s.location ≤ s.length → (a s).state? = some s' → s.Advanced s'

variable {α β : Type}

lemma Advances.success {a : Action α} (h : a.Advances) {s s' : State} {value : α}
    (hs : s.location ≤ s.length) (hrun : a s = .success value s') : s.Advanced s' :=
  h s s' hs (by rw [hrun]; rfl)

lemma Advances.failure {a : Action α} (h : a.Advances) {s s' : State} {f : Failure}
    (hs : s.location ≤ s.length) (hrun : a s = .failure f s') : s.Advanced s' :=
  h s s' hs (by rw [hrun]; rfl)

/-- A value that is made of what a step gives changes nothing about where it ends. -/
lemma Advances.bind_success {a : Action α} (h : a.Advances) (f : State → α → State → β) :
    Advances (fun s => (a s).bind fun value s' => .success (f s value s') s') := by
  intro s s' hs hrun
  cases ha : a s with
  | success value s₁ =>
    simp only [ha, Outcome.bind_success, Outcome.state?, Option.some.injEq] at hrun
    exact hrun ▸ h.success hs ha
  | failure f s₁ =>
    simp only [ha, Outcome.bind_failure, Outcome.state?, Option.some.injEq] at hrun
    exact hrun ▸ h.failure hs ha
  | unfinished => simp [ha, Outcome.state?] at hrun

lemma Advances.map {a : Action α} (h : a.Advances) (f : α → β) :
    Advances (fun s => (a s).map f) := by
  have heq : (fun s => (a s).map f) = fun s => (a s).bind fun value s' => .success (f value) s' := by
    funext s
    cases a s <;> rfl
  rw [heq]
  exact h.bind_success fun _ value _ => f value

lemma advances_failWith (f : Failure) : (failWith f : Action α).Advances := by
  intro s s' hs hrun
  simp only [failWith, Outcome.state?, Option.some.injEq] at hrun
  exact hrun ▸ (State.Advanced.refl hs).note f

lemma advances_missing (expected : String) (place : Nat) :
    (missing expected place : Action α).Advances := by
  intro s s' hs hrun
  unfold missing at hrun
  split at hrun <;> exact advances_failWith _ s s' hs hrun

/-- Moving over characters of the input. -/
lemma advanced_advance {s : State} {count : Nat} (h : s.location + count ≤ s.length) :
    s.Advanced (s.advance count) :=
  ⟨rfl, rfl, rfl, Nat.le_add_right _ _, h⟩

lemma lt_length_of_peek? {s : State} {c : Char} (h : s.peek? = some c) : s.location < s.length := by
  simp only [State.peek?, Array.getElem?_eq_some_iff] at h
  exact h.1

lemma advances_anyChar : anyChar.Advances := by
  intro s s' hs hrun
  unfold anyChar at hrun
  cases hpeek : s.peek? with
  | some c =>
    simp only [hpeek, Outcome.state?, Option.some.injEq] at hrun
    exact hrun ▸ advanced_advance (lt_length_of_peek? hpeek)
  | none =>
    simp only [hpeek] at hrun
    exact advances_missing _ _ s s' hs hrun

lemma advances_charIn (lo hi : Char) : (charIn lo hi).Advances := by
  intro s s' hs hrun
  unfold charIn at hrun
  cases hpeek : s.peek? with
  | some c =>
    simp only [hpeek] at hrun
    split at hrun
    · simp only [Outcome.state?, Option.some.injEq] at hrun
      exact hrun ▸ advanced_advance (lt_length_of_peek? hpeek)
    · exact advances_missing _ _ s s' hs hrun
  | none =>
    simp only [hpeek] at hrun
    exact advances_missing _ _ s s' hs hrun

lemma commonLength_le (as bs : List Char) :
    commonLength as bs ≤ as.length ∧ commonLength as bs ≤ bs.length := by
  induction as generalizing bs with
  | nil => simp [commonLength]
  | cons a as ih =>
    cases bs with
    | nil => simp [commonLength]
    | cons b bs =>
      have := ih bs
      unfold commonLength
      split
      · simp
        omega
      · simp

lemma commonLength_eq_length_iff (as bs : List Char) :
    commonLength as (bs.take as.length) = as.length ↔ as <+: bs := by
  induction as generalizing bs with
  | nil => simp [commonLength]
  | cons a as ih =>
    cases bs with
    | nil => simp [commonLength]
    | cons b bs =>
      by_cases hab : a = b
      · simp [commonLength, hab, ih bs]
      · simp [commonLength, hab]

/-- A literal is found equal as a whole exactly if the input goes on with it. -/
lemma commonLength_ahead_eq_iff {s : State} {value : String} :
    commonLength value.toList (s.ahead value.length) = value.length ↔ value.toList <+: s.rest := by
  rw [State.ahead_eq_take_rest, ← String.length_toList]
  exact commonLength_eq_length_iff _ _

lemma length_ahead_le (s : State) (count : Nat) : (s.ahead count).length ≤ s.length - s.location := by
  rw [State.ahead_eq_take_rest, List.length_take]
  simp only [State.rest, State.length, List.length_drop, Array.length_toList]
  exact Nat.min_le_right _ _

lemma advances_exactly (value : String) : (exactly value).Advances := by
  intro s s' hs hrun
  unfold exactly at hrun
  dsimp only at hrun
  split at hrun
  · simp only [Outcome.state?, Option.some.injEq] at hrun
    have hcommon := (commonLength_le value.toList (s.ahead value.length)).2
    have hahead := length_ahead_le s value.length
    exact hrun ▸ advanced_advance (by omega)
  · exact advances_missing _ _ s s' hs hrun

lemma advances_any : any.Advances :=
  advances_anyChar.bind_success fun s c s' => some (textSince s.location c.toString s')

lemma advances_literal (value : String) : (literal value).Advances :=
  (advances_exactly value).bind_success fun s _ s' => some (textSince s.location value s')

lemma advances_range (lo hi : Char) : (range lo hi).Advances :=
  (advances_charIn lo hi).bind_success fun s c s' => some (textSince s.location c.toString s')

lemma countWhile_le (accepts : Char → Bool) (input : Array Char) (limit place : Nat) :
    countWhile accepts input limit place ≤ limit := by
  induction limit generalizing place with
  | zero => simp [countWhile]
  | succ limit ih =>
    unfold countWhile
    split
    · exact Nat.succ_le_succ (ih _)
    · exact Nat.zero_le _

lemma advances_spacing : spacing.Advances := by
  intro s s' hs hrun
  have hcount := countWhile_le isSpacing s.input (s.length - s.location) s.location
  have hmove : s.Advanced
      (s.advance (countWhile isSpacing s.input (s.length - s.location) s.location)) :=
    advanced_advance (by omega)
  unfold spacing at hrun
  dsimp only at hrun
  split at hrun
  · simp only [Outcome.state?, Option.some.injEq] at hrun
    exact hrun ▸ hmove
  · simp only [Outcome.state?, Option.some.injEq] at hrun
    exact hrun ▸ hmove

lemma advances_succeed (value : α) : Advances (Run.succeed value : Action α) := by
  intro s s' hs hrun
  simp only [Run.succeed, Outcome.state?, Option.some.injEq] at hrun
  exact hrun ▸ .refl hs

lemma advances_cutOff : Advances (Run.cutOff : Action α) := by
  intro s s' hs hrun
  simp [Run.cutOff, Outcome.state?] at hrun

lemma advances_throwLabel (label : String) (start : Nat) :
    (throwLabel label start : Action α).Advances := by
  intro s s' hs hrun
  exact advances_failWith _ s s' hs hrun

lemma Advances.traced {a : Action α} (h : a.Advances) (name : String) :
    (traced name a).Advances := by
  have hleave : ∀ s s' : State, s.location ≤ s.length → (s.enter name).Advanced s' →
      s.Advanced s'.leave := by
    intro s s' hs hs'
    refine ⟨hs'.input, hs'.policy, ?_, hs'.start_le, hs'.le_length⟩
    simp [State.leave, hs'.trace, State.enter]
  intro s s' hs hrun
  have henter : (s.enter name).location ≤ (s.enter name).length := hs
  unfold Action.traced at hrun
  cases ha : a (s.enter name) with
  | success value s₁ =>
    simp only [ha, Outcome.mapState, Outcome.state?, Option.some.injEq] at hrun
    exact hrun ▸ hleave s s₁ hs (h.success henter ha)
  | failure f s₁ =>
    simp only [ha, Outcome.mapState, Outcome.state?, Option.some.injEq] at hrun
    exact hrun ▸ hleave s s₁ hs (h.failure henter ha)
  | unfinished => simp [ha, Outcome.mapState, Outcome.state?] at hrun

lemma advances_choiceFrom {alternatives : List (Action α)} (h : ∀ a ∈ alternatives, a.Advances)
    (farthest? : Option Failure) {s₀ s s' : State} (hs₀ : s₀.location ≤ s₀.length)
    (hs : s₀.Advanced s) (hlocation : s.location = s₀.location)
    (hrun : (choiceFrom s₀.location farthest? alternatives s).state? = some s') :
    s₀.Advanced s' := by
  induction alternatives generalizing farthest? s with
  | nil => exact hs.trans (advances_failWith _ s s' hs.within hrun)
  | cons a alternatives ih =>
    unfold choiceFrom at hrun
    cases ha : a s with
    | success value s₁ =>
      simp only [ha, Outcome.state?, Option.some.injEq] at hrun
      exact hrun ▸ hs.trans ((h a (by simp)).success hs.within ha)
    | failure f s₁ =>
      have hs₁ := hs.trans ((h a (by simp)).failure hs.within ha)
      simp only [ha] at hrun
      split at hrun
      · simp only [Outcome.state?, Option.some.injEq] at hrun
        exact hrun ▸ hs₁
      · exact ih (fun b hb => h b (by simp [hb])) _ (hs₁.goto hs₀).1 (hs₁.goto hs₀).2 hrun
    | unfinished => simp [ha, Outcome.state?] at hrun

lemma advances_choice {alternatives : List (Action α)} (h : ∀ a ∈ alternatives, a.Advances) :
    (choice alternatives).Advances := by
  intro s s' hs hrun
  exact advances_choiceFrom h none hs (.refl hs) rfl hrun

lemma Advances.lookahead {a : Action α} (h : a.Advances) : (lookahead a).Advances := by
  intro s s' hs hrun
  unfold Action.lookahead at hrun
  cases ha : a s with
  | success value s₁ =>
    simp only [ha, Outcome.state?, Option.some.injEq] at hrun
    exact hrun ▸ ((h.success hs ha).goto hs).1
  | failure f s₁ =>
    have hs₁ := ((h.failure hs ha).goto hs).1
    simp only [ha] at hrun
    exact hs₁.trans (advances_failWith f _ s' hs₁.within hrun)
  | unfinished => simp [ha, Outcome.state?] at hrun

lemma Advances.notAhead {a : Action α} (h : a.Advances) : (notAhead a).Advances := by
  intro s s' hs hrun
  unfold Action.notAhead at hrun
  cases ha : a s with
  | success value s₁ =>
    have hs₁ := ((h.success hs ha).goto hs).1
    simp only [ha] at hrun
    exact hs₁.trans (advances_failWith _ _ s' hs₁.within hrun)
  | failure f s₁ =>
    simp only [ha] at hrun
    split at hrun <;> simp only [Outcome.state?, Option.some.injEq] at hrun
    · exact hrun ▸ ((h.failure hs ha).goto hs).1
    · exact hrun ▸ ((h.failure hs ha).goto hs).1
  | unfinished => simp [ha, Outcome.state?] at hrun

lemma advances_eof : eof.Advances := advances_any.notAhead.map fun _ => none

lemma Advances.zeroOrMore {a : Action α} (h : a.Advances) (limit : Nat) :
    (zeroOrMore a limit).Advances := by
  induction limit with
  | zero => exact advances_cutOff
  | succ limit ih =>
    intro s s' hs hrun
    unfold Action.zeroOrMore at hrun
    cases ha : a s with
    | success value s₁ =>
      have hs₁ := h.success hs ha
      simp only [ha] at hrun
      split at hrun
      · simp only [Outcome.state?, Option.some.injEq] at hrun
        exact hrun ▸ hs₁
      · exact hs₁.trans (ih.map (value :: ·) s₁ s' hs₁.within hrun)
    | failure f s₁ =>
      have hs₁ := h.failure hs ha
      simp only [ha] at hrun
      split at hrun <;> simp only [Outcome.state?, Option.some.injEq] at hrun
      · exact hrun ▸ hs₁
      · exact hrun ▸ (hs₁.goto hs).1
    | unfinished => simp [ha, Outcome.state?] at hrun

lemma Advances.oneOrMore {a : Action α} (h : a.Advances) (limit : Nat) :
    (oneOrMore a limit).Advances := by
  intro s s' hs hrun
  unfold Action.oneOrMore at hrun
  cases ha : a s with
  | success value s₁ =>
    have hs₁ := h.success hs ha
    simp only [ha] at hrun
    split at hrun
    · simp only [Outcome.state?, Option.some.injEq] at hrun
      exact hrun ▸ hs₁
    · exact hs₁.trans ((h.zeroOrMore limit).map (value :: ·) s₁ s' hs₁.within hrun)
  | failure f s₁ =>
    simp only [ha, Outcome.state?, Option.some.injEq] at hrun
    exact hrun ▸ h.failure hs ha
  | unfinished => simp [ha, Outcome.state?] at hrun

lemma Advances.collected {a : Action (List (Option Tree))} (h : a.Advances) :
    (collected a).Advances :=
  h.bind_success fun s values s' => some (Tree.sequence (values.filterMap id) ⟨s.location, s'.location⟩)

end Action

end Parse

open Parse

namespace Code

variable {invoke : String → Action (Option Tree)}

lemma alternativeActions_eq_map (start : Nat) (codes : List Code) :
    alternativeActions invoke start codes = codes.map (action invoke start) := by
  induction codes with
  | nil => simp [alternativeActions]
  | cons code codes ih => simp [alternativeActions, ih]

lemma advances_stepsAction {codes : List Code}
    (h : ∀ code ∈ codes, ∀ start, (code.action invoke start).Advances) (start : Nat) :
    (stepsAction invoke start codes).Advances := by
  induction codes with
  | nil => exact Action.advances_succeed []
  | cons code codes ih =>
    intro s s' hs hrun
    have hcode := h code (by simp) start
    have hcodes := ih fun c hc => h c (by simp [hc])
    simp only [stepsAction] at hrun
    cases hfirst : code.action invoke start s with
    | success value s₁ =>
      have hs₁ := hcode.success hs hfirst
      rw [hfirst] at hrun
      exact hs₁.trans (hcodes.map (value :: ·) s₁ s' hs₁.within hrun)
    | failure f s₁ =>
      simp only [hfirst, Outcome.bind_failure, Outcome.state?, Option.some.injEq] at hrun
      exact hrun ▸ hcode.failure hs hfirst
    | unfinished => simp [hfirst, Outcome.state?] at hrun

/-- A fragment advances if the rules it calls do. -/
theorem advances_action (hinvoke : ∀ name, (invoke name).Advances) (code : Code) (start : Nat) :
    (code.action invoke start).Advances := by
  induction code using inductionOn generalizing start with
  | sequence steps ih =>
    intro s s' hs hrun
    simp only [action] at hrun
    exact (advances_stepsAction ih s.location).collected s s' hs hrun
  | choice alternatives ih =>
    simp only [action, alternativeActions_eq_map]
    apply Action.advances_choice
    intro a ha
    obtain ⟨c, hc, rfl⟩ := List.mem_map.mp ha
    exact ih c hc start
  | empty =>
    simp only [action]
    exact Action.advances_succeed none
  | repetition kind body ih =>
    intro s s' hs hrun
    cases kind <;> simp only [action] at hrun
    · exact ((ih s.location).zeroOrMore _).collected s s' hs hrun
    · exact ((ih s.location).oneOrMore _).collected s s' hs hrun
  | lookahead kind body ih =>
    cases kind <;> simp only [action]
    · exact (ih start).lookahead.map fun _ => none
    · exact (ih start).notAhead.map fun _ => none
  | labeled body ih =>
    intro s s' hs hrun
    simp only [action] at hrun
    exact ih s.location s s' hs hrun
  | throw label site =>
    simp only [action]
    exact Action.advances_throwLabel label start
  | call rule site =>
    simp only [action]
    exact hinvoke rule
  | builtin rule site =>
    cases rule <;> simp only [action]
    · exact Action.advances_spacing
    · exact Action.advances_eof
  | literal value site =>
    simp only [action]
    exact Action.advances_literal value
  | range lo hi site =>
    simp only [action]
    exact Action.advances_range lo hi
  | any site =>
    simp only [action]
    exact Action.advances_any
  | procedure name body =>
    simp only [action]
    exact Action.advances_succeed none
  | program procedures =>
    simp only [action]
    exact Action.advances_succeed none

end Code

namespace Program

theorem advances_ruleAction (p : Program) (depth : Nat) (name : String) :
    (p.ruleAction depth name).Advances := by
  induction depth generalizing name with
  | zero => exact Action.advances_cutOff
  | succ depth ih =>
    unfold ruleAction
    cases p.body? name with
    | some body => exact (body.advances_action ih 0).traced name
    | none => exact Action.advances_cutOff

end Program

end LabeledPeg
