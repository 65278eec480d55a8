import LabeledPeg.Proofs.Parse.Motion
import LabeledPeg.Proofs.Parse.Verdict

/-!
# Recognizers

What matters to the rest of a parse is how a step ends and where. A recognizer gives just that for
every location of a fixed input. The recognizer of a fragment is computed from those of the rules
that it calls, and each combinator of the runtime ends as its recognizer says: neither the latest
failure nor the trace has a say in it.
-/

namespace LabeledPeg

open Parse

/-- How a match ends at each location, if it ends. -/
abbrev Recognizer : Type := Nat → Option Verdict

namespace Recognizer

/-- The first of several that does not fail, each from the same place. -/
def choice : List Recognizer → Recognizer
  | [], _ => some .failed
  | r :: rs, i =>
    match r i with
    | some .failed => choice rs i
    | v? => v?

/-- Several one after the other. -/
def steps : List Recognizer → Recognizer
  | [], i => some (.matched i)
  | r :: rs, i =>
    match r i with
    | some (.matched j) => steps rs j
    | v? => v?

/-- One again and again, until it fails or moves no further, at most `limit` times. -/
def zeroOrMore (r : Recognizer) : Nat → Recognizer
  | 0, _ => none
  | limit + 1, i =>
    match r i with
    | some (.matched j) => if j = i then some (.matched i) else zeroOrMore r limit j
    | some .failed => some (.matched i)
    | v? => v?

/-- One again and again, and at least once. -/
def oneOrMore (r : Recognizer) (limit : Nat) : Recognizer := fun i =>
  match r i with
  | some (.matched j) => if j = i then some (.matched i) else zeroOrMore r limit j
  | v? => v?

/-- Where another one matches, without moving. -/
def lookahead (r : Recognizer) : Recognizer := fun i =>
  match r i with
  | some (.matched _) => some (.matched i)
  | v? => v?

/-- Where another one does not match, without moving. -/
def notAhead (r : Recognizer) : Recognizer := fun i =>
  match r i with
  | some (.matched _) => some .failed
  | some .failed => some (.matched i)
  | v? => v?

/-- One character that is accepted. -/
def character (input : Array Char) (accepts : Char → Bool) : Recognizer := fun i =>
  some (if input[i]?.any accepts then .matched (i + 1) else .failed)

/-- A text. -/
def literal (input : Array Char) (value : String) : Recognizer := fun i =>
  some (if value.toList <+: input.toList.drop i then .matched (i + value.length) else .failed)

/-- All spacing that is there. -/
def spacing (input : Array Char) : Recognizer := fun i =>
  some (.matched (i + Action.countWhile Action.isSpacing input (input.size - i) i))

end Recognizer

namespace Code

mutual

/-- The recognizer of a fragment; `ask` has the recognizers of the rules. -/
def recognizer (input : Array Char) (policy : LabelPolicy) (ask : String → Recognizer) :
    Code → Recognizer
  | sequence steps => Recognizer.steps (recognizers input policy ask steps)
  | choice alternatives => Recognizer.choice (recognizers input policy ask alternatives)
  | empty => Recognizer.steps []
  | repetition .zeroOrMore body => fun i =>
    Recognizer.zeroOrMore (body.recognizer input policy ask) (input.size - i + 1) i
  | repetition .oneOrMore body => fun i =>
    Recognizer.oneOrMore (body.recognizer input policy ask) (input.size - i + 1) i
  | lookahead .positive body => Recognizer.lookahead (body.recognizer input policy ask)
  | lookahead .negative body => Recognizer.notAhead (body.recognizer input policy ask)
  | labeled body => body.recognizer input policy ask
  | throw label _ => fun _ => some (policy.raised label)
  | call rule _ => ask rule
  | builtin .spacing _ => Recognizer.spacing input
  | builtin .eof _ => Recognizer.notAhead (Recognizer.character input fun _ => true)
  | literal value _ => Recognizer.literal input value
  | range lo hi _ => Recognizer.character input fun c => decide (lo ≤ c ∧ c ≤ hi)
  | any _ => Recognizer.character input fun _ => true
  | procedure _ _ => Recognizer.steps []
  | program _ => Recognizer.steps []

/-- The recognizers of a list of fragments. -/
def recognizers (input : Array Char) (policy : LabelPolicy) (ask : String → Recognizer) :
    List Code → List Recognizer
  | [] => []
  | code :: codes => code.recognizer input policy ask :: recognizers input policy ask codes

end

lemma recognizers_eq_map (input : Array Char) (policy : LabelPolicy) (ask : String → Recognizer)
    (codes : List Code) :
    recognizers input policy ask codes = codes.map (recognizer input policy ask) := by
  induction codes with
  | nil => simp [recognizers]
  | cons code codes ih => simp [recognizers, ih]

end Code

namespace Program

/-- The recognizer of a rule, with at most `depth` rules inside one another. -/
def ruleRecognizer (p : Program) (input : Array Char) (policy : LabelPolicy) :
    Nat → String → Recognizer
  | 0, _ => fun _ => none
  | depth + 1, name =>
    match p.body? name with
    | some body => body.recognizer input policy (p.ruleRecognizer input policy depth)
    | none => fun _ => none

end Program

section Abstraction

variable {α β : Type} {input : Array Char} {policy : LabelPolicy}

/-- Whether a state lies in an input under a policy. -/
structure Parse.State.On (input : Array Char) (policy : LabelPolicy) (s : State) : Prop where
  input_eq : s.input = input
  policy_eq : s.policy = policy
  within : s.location ≤ input.size

namespace Parse.State.On

variable {s s' : State}

lemma le_length (h : s.On input policy) : s.location ≤ s.length := by
  simpa only [State.length, h.input_eq] using h.within

lemma of_advanced (h : s.On input policy) (hs' : s.Advanced s') : s'.On input policy :=
  ⟨hs'.input.trans h.input_eq, hs'.policy.trans h.policy_eq,
    h.input_eq ▸ hs'.le_length⟩

end Parse.State.On

/-- Whether a step on an input, under a policy, ends as a recognizer says. -/
def Parse.Action.Recognizes (input : Array Char) (policy : LabelPolicy) (a : Action α)
    (r : Recognizer) : Prop :=
  ∀ s : State, s.On input policy → (a s).verdict? = r s.location

namespace Parse.Action

variable {a : Action α} {r : Recognizer} {s s' : State}

lemma Recognizes.success (h : a.Recognizes input policy r) (hs : s.On input policy) {value : α}
    (hrun : a s = .success value s') : r s.location = some (.matched s'.location) := by
  rw [← h s hs, hrun]
  rfl

lemma Recognizes.failure (h : a.Recognizes input policy r) (hs : s.On input policy) {f : Failure}
    (hrun : a s = .failure f s') : r s.location = some (s'.verdictOf f) := by
  rw [← h s hs, hrun]
  rfl

lemma Recognizes.unfinished (h : a.Recognizes input policy r) (hs : s.On input policy)
    (hrun : a s = .unfinished) : r s.location = none := by
  rw [← h s hs, hrun]
  rfl

/-- A value that is made of what a step gives changes nothing about how it ends. -/
lemma Recognizes.bind_success (h : a.Recognizes input policy r) (f : State → α → State → β) :
    Recognizes input policy (fun s => (a s).bind fun value s' => .success (f s value s') s') r := by
  intro s hs
  rw [← h s hs]
  dsimp only
  cases a s <;> rfl

lemma Recognizes.map (h : a.Recognizes input policy r) (f : α → β) :
    Recognizes input policy (fun s => (a s).map f) r := by
  intro s hs
  rw [← h s hs]
  dsimp only
  cases a s <;> rfl

lemma Recognizes.collected {a : Action (List (Option Tree))} (h : a.Recognizes input policy r) :
    (collected a).Recognizes input policy r :=
  h.bind_success fun s values s' => some (Tree.sequence (values.filterMap id) ⟨s.location, s'.location⟩)

lemma recognizes_succeed (value : α) :
    Recognizes input policy (Run.succeed value) (Recognizer.steps []) := fun _ _ => rfl

lemma recognizes_cutOff : Recognizes input policy (Run.cutOff : Action α) fun _ => none :=
  fun _ _ => rfl

lemma verdict?_missing (expected : String) (place : Nat) (s : State) :
    (missing (α := α) expected place s).verdict? = some .failed := by
  unfold missing
  split <;> rfl

lemma recognizes_anyChar :
    anyChar.Recognizes input policy (Recognizer.character input fun _ => true) := by
  intro s hs
  unfold anyChar
  cases hpeek : s.peek? with
  | some c =>
    rw [State.peek?, hs.input_eq] at hpeek
    simp [Outcome.verdict?, Recognizer.character, hpeek, State.advance]
  | none =>
    rw [State.peek?, hs.input_eq] at hpeek
    simp [verdict?_missing, Recognizer.character, hpeek]

lemma recognizes_charIn (lo hi : Char) :
    (charIn lo hi).Recognizes input policy
      (Recognizer.character input fun c => decide (lo ≤ c ∧ c ≤ hi)) := by
  intro s hs
  unfold charIn
  cases hpeek : s.peek? with
  | some c =>
    rw [State.peek?, hs.input_eq] at hpeek
    by_cases hc : lo ≤ c ∧ c ≤ hi
    · simp [Outcome.verdict?, Recognizer.character, hpeek, State.advance, hc]
    · simp only [if_neg hc, verdict?_missing]
      simp [Recognizer.character, hpeek, hc]
  | none =>
    rw [State.peek?, hs.input_eq] at hpeek
    simp [verdict?_missing, Recognizer.character, hpeek]

lemma recognizes_exactly (value : String) :
    (exactly value).Recognizes input policy (Recognizer.literal input value) := by
  intro s hs
  have hcommon : commonLength value.toList (s.ahead value.length) = value.length ↔
      value.toList <+: input.toList.drop s.location := by
    rw [commonLength_ahead_eq_iff, State.rest, hs.input_eq]
  unfold exactly
  dsimp only
  by_cases h : commonLength value.toList (s.ahead value.length) = value.length
  · simp [h, hcommon.mp h, Outcome.verdict?, Recognizer.literal, State.advance]
  · simp [h, mt hcommon.mpr h, verdict?_missing, Recognizer.literal]

lemma recognizes_any :
    any.Recognizes input policy (Recognizer.character input fun _ => true) :=
  recognizes_anyChar.bind_success fun s c s' => some (textSince s.location c.toString s')

lemma recognizes_literal (value : String) :
    (literal value).Recognizes input policy (Recognizer.literal input value) :=
  (recognizes_exactly value).bind_success fun s _ s' => some (textSince s.location value s')

lemma recognizes_range (lo hi : Char) :
    (range lo hi).Recognizes input policy
      (Recognizer.character input fun c => decide (lo ≤ c ∧ c ≤ hi)) :=
  (recognizes_charIn lo hi).bind_success fun s c s' => some (textSince s.location c.toString s')

lemma recognizes_spacing : spacing.Recognizes input policy (Recognizer.spacing input) := by
  intro s hs
  unfold spacing
  dsimp only
  split <;> simp [Outcome.verdict?, Recognizer.spacing, State.advance, State.length, hs.input_eq]

lemma recognizes_throwLabel (label : String) (start : Nat) :
    (throwLabel label start : Action α).Recognizes input policy
      fun _ => some (policy.raised label) := by
  intro s hs
  simp [throwLabel, failWith, Outcome.verdict?, State.verdictOf, Failure.label?, State.note,
    hs.policy_eq]

lemma Recognizes.traced (h : a.Recognizes input policy r) (name : String) :
    (traced name a).Recognizes input policy r := by
  intro s hs
  have henter := h (s.enter name) ⟨hs.input_eq, hs.policy_eq, hs.within⟩
  unfold Action.traced
  have hleave : ((a (s.enter name)).mapState State.leave).verdict? = (a (s.enter name)).verdict? := by
    cases a (s.enter name) <;> rfl
  rw [hleave, henter]
  rfl

/-- The failure that is reported of two is one of them. -/
lemma farther_eq (earlier? : Option Failure) (later : Failure) :
    farther earlier? later = later ∨ some (farther earlier? later) = earlier? := by
  unfold farther
  cases earlier? with
  | none => exact .inl rfl
  | some earlier =>
    dsimp only
    split
    · exact .inr rfl
    · exact .inl rfl

lemma recognizes_choiceFrom {alternatives : List (Action α × Recognizer)}
    (h : ∀ p ∈ alternatives, p.1.Recognizes input policy p.2)
    (hadvances : ∀ p ∈ alternatives, p.1.Advances) (farthest? : Option Failure)
    (hs : s.On input policy) (hfarthest : ∀ f ∈ farthest?, ¬s.commits f = true) :
    (choiceFrom s.location farthest? (alternatives.map Prod.fst) s).verdict? =
      Recognizer.choice (alternatives.map Prod.snd) s.location := by
  induction alternatives generalizing farthest? s with
  | nil =>
    have hreport : ¬s.commits (farthest?.getD (.predicate "no alternatives" (.point s.location)))
        = true := by
      cases farthest? with
      | none => simp [State.commits, Failure.isLabeled, Failure.label?]
      | some f => exact hfarthest f rfl
    exact congrArg some (s.verdictOf_of_not_commits hreport)
  | cons p alternatives ih =>
    have hp := h p (by simp)
    simp only [List.map_cons, choiceFrom, Recognizer.choice]
    cases hrun : p.1 s with
    | success value s₁ => simp [hp.success hs hrun, Outcome.verdict?]
    | failure f s₁ =>
      have hs₁ := (hadvances p (by simp)).failure hs.le_length hrun
      by_cases hf : s₁.commits f = true
      · obtain ⟨label, hlabel⟩ := s₁.verdictOf_of_commits hf
        simp [hp.failure hs hrun, hf, hlabel, Outcome.verdict?]
      · obtain ⟨hback, hlocation⟩ := hs₁.goto hs.le_length
        have hkept : ∀ f' ∈ some (farther farthest? f),
            ¬(s₁.goto s.location).commits f' = true := by
          intro f' hf'
          obtain rfl : farther farthest? f = f' := by simpa using hf'
          rw [hback.commits_eq, ← hs₁.commits_eq]
          rcases farther_eq farthest? f with heq | hmem
          · rw [heq]
            exact hf
          · rw [hs₁.commits_eq]
            exact hfarthest _ hmem.symm
        have hrest := ih (fun q hq => h q (by simp [hq])) (fun q hq => hadvances q (by simp [hq]))
          (some (farther farthest? f)) (hs.of_advanced hback) hkept
        rw [hlocation] at hrest
        simp [hp.failure hs hrun, s₁.verdictOf_of_not_commits hf, hf, hrest]
    | unfinished => simp [hp.unfinished hs hrun, Outcome.verdict?]

lemma recognizes_choice {alternatives : List (Action α × Recognizer)}
    (h : ∀ p ∈ alternatives, p.1.Recognizes input policy p.2)
    (hadvances : ∀ p ∈ alternatives, p.1.Advances) :
    (choice (alternatives.map Prod.fst)).Recognizes input policy
      (Recognizer.choice (alternatives.map Prod.snd)) := by
  intro s hs
  exact recognizes_choiceFrom h hadvances none hs (by simp)

lemma Recognizes.lookahead (h : a.Recognizes input policy r) (ha : a.Advances) :
    (lookahead a).Recognizes input policy r.lookahead := by
  intro s hs
  unfold Action.lookahead Recognizer.lookahead
  cases hrun : a s with
  | success value s₁ =>
    have hback := ((ha.success hs.le_length hrun).goto hs.le_length).2
    simp [h.success hs hrun, Outcome.verdict?, hback]
  | failure f s₁ =>
    have hverdict : ((s₁.goto s.location).note f).verdictOf f = s₁.verdictOf f := rfl
    simp only [h.failure hs hrun, failWith, Outcome.verdict?, hverdict]
    split
    · next j heq => exact absurd (Option.some.inj heq) (s₁.verdictOf_ne_matched f j)
    · rfl
  | unfinished => simp [h.unfinished hs hrun, Outcome.verdict?]

lemma Recognizes.notAhead (h : a.Recognizes input policy r) (ha : a.Advances) :
    (notAhead a).Recognizes input policy r.notAhead := by
  intro s hs
  unfold Action.notAhead Recognizer.notAhead
  cases hrun : a s with
  | success value s₁ =>
    simp [h.success hs hrun, failWith, Outcome.verdict?, State.verdictOf, Failure.label?]
  | failure f s₁ =>
    have hback := ((ha.failure hs.le_length hrun).goto hs.le_length).2
    have hverdict : (s₁.goto s.location).verdictOf f = s₁.verdictOf f := rfl
    by_cases hf : s₁.commits f = true
    · obtain ⟨label, hlabel⟩ := s₁.verdictOf_of_commits hf
      simp [h.failure hs hrun, hf, Outcome.verdict?, hverdict, hlabel]
    · simp [h.failure hs hrun, hf, Outcome.verdict?, s₁.verdictOf_of_not_commits hf, hback]
  | unfinished => simp [h.unfinished hs hrun, Outcome.verdict?]

lemma recognizes_eof :
    eof.Recognizes input policy (Recognizer.character input fun _ => true).notAhead :=
  (recognizes_any.notAhead advances_any).map fun _ => none

lemma Recognizes.zeroOrMore (h : a.Recognizes input policy r) (ha : a.Advances) (limit : Nat) :
    (zeroOrMore a limit).Recognizes input policy (r.zeroOrMore limit) := by
  induction limit with
  | zero => exact recognizes_cutOff
  | succ limit ih =>
    intro s hs
    unfold Action.zeroOrMore Recognizer.zeroOrMore
    cases hrun : a s with
    | success value s₁ =>
      have hs₁ := hs.of_advanced (ha.success hs.le_length hrun)
      by_cases hstay : s₁.location = s.location
      · simp [h.success hs hrun, hstay, Outcome.verdict?]
      · have hrest := (ih.map (value :: ·)) s₁ hs₁
        simp only [h.success hs hrun, if_neg hstay]
        exact hrest
    | failure f s₁ =>
      have hback := ((ha.failure hs.le_length hrun).goto hs.le_length).2
      by_cases hf : s₁.commits f = true
      · obtain ⟨label, hlabel⟩ := s₁.verdictOf_of_commits hf
        simp [h.failure hs hrun, hf, hlabel, Outcome.verdict?]
      · simp [h.failure hs hrun, hf, s₁.verdictOf_of_not_commits hf, Outcome.verdict?, hback]
    | unfinished => simp [h.unfinished hs hrun, Outcome.verdict?]

lemma Recognizes.oneOrMore (h : a.Recognizes input policy r) (ha : a.Advances) (limit : Nat) :
    (oneOrMore a limit).Recognizes input policy (r.oneOrMore limit) := by
  intro s hs
  unfold Action.oneOrMore Recognizer.oneOrMore
  cases hrun : a s with
  | success value s₁ =>
    have hs₁ := hs.of_advanced (ha.success hs.le_length hrun)
    by_cases hstay : s₁.location = s.location
    · simp [h.success hs hrun, hstay, Outcome.verdict?]
    · have hrest := ((h.zeroOrMore ha limit).map (value :: ·)) s₁ hs₁
      simp only [h.success hs hrun, if_neg hstay]
      exact hrest
  | failure f s₁ =>
    simp only [h.failure hs hrun, Outcome.verdict?]
    split
    · next j heq => exact absurd (Option.some.inj heq) (s₁.verdictOf_ne_matched f j)
    · rfl
  | unfinished => simp [h.unfinished hs hrun, Outcome.verdict?]

end Parse.Action

namespace Code

variable {invoke : String → Action (Option Tree)} {ask : String → Recognizer}

lemma recognizes_stepsAction {codes : List Code} (start : Nat)
    (hadvances : ∀ c ∈ codes, ∀ start, (c.action invoke start).Advances)
    (h : ∀ c ∈ codes, ∀ start, (c.action invoke start).Recognizes input policy
      (c.recognizer input policy ask)) :
    (stepsAction invoke start codes).Recognizes input policy
      (Recognizer.steps (recognizers input policy ask codes)) := by
  induction codes with
  | nil => exact Action.recognizes_succeed []
  | cons code codes ih =>
    intro s hs
    have hcode := h code (by simp) start
    have hcodes := ih (fun c hc => hadvances c (by simp [hc])) fun c hc => h c (by simp [hc])
    simp only [stepsAction, recognizers, Recognizer.steps]
    cases hrun : code.action invoke start s with
    | success value s₁ =>
      have hs₁ := hs.of_advanced ((hadvances code (by simp) start).success hs.le_length hrun)
      have hrest := (hcodes.map (value :: ·)) s₁ hs₁
      simp only [hcode.success hs hrun]
      exact hrest
    | failure f s₁ =>
      simp only [hcode.failure hs hrun, Outcome.bind_failure, Outcome.verdict?]
      split
      · next j heq => exact absurd (Option.some.inj heq) (s₁.verdictOf_ne_matched f j)
      · rfl
    | unfinished => simp [hcode.unfinished hs hrun, Outcome.verdict?]

/-- A fragment ends as its recognizer says, if the rules it calls do. -/
theorem recognizes_action (hadvances : ∀ name, (invoke name).Advances)
    (hinvoke : ∀ name, (invoke name).Recognizes input policy (ask name)) (code : Code)
    (start : Nat) :
    (code.action invoke start).Recognizes input policy (code.recognizer input policy ask) := by
  have hcode : ∀ (c : Code) start, (c.action invoke start).Advances := advances_action hadvances
  induction code using inductionOn generalizing start with
  | sequence steps ih =>
    intro s hs
    simp only [action, recognizer]
    exact (recognizes_stepsAction s.location (fun c _ => hcode c) ih).collected s hs
  | choice alternatives ih =>
    simp only [action, recognizer, alternativeActions_eq_map, recognizers_eq_map]
    let pairs := alternatives.map fun c =>
      (c.action invoke start, c.recognizer input policy ask)
    have hpairs : ∀ p ∈ pairs, p.1.Recognizes input policy p.2 := by
      intro p hp
      obtain ⟨c, hc, rfl⟩ := List.mem_map.mp hp
      exact ih c hc start
    have hadvances : ∀ p ∈ pairs, p.1.Advances := by
      intro p hp
      obtain ⟨c, hc, rfl⟩ := List.mem_map.mp hp
      exact hcode c start
    have hchoice := Action.recognizes_choice hpairs hadvances
    simp only [pairs, List.map_map] at hchoice
    exact hchoice
  | empty =>
    simp only [action, recognizer]
    exact Action.recognizes_succeed none
  | repetition kind body ih =>
    intro s hs
    have hlimit : s.length - s.location + 1 = input.size - s.location + 1 := by
      rw [State.length, hs.input_eq]
    cases kind <;> simp only [action, recognizer, hlimit]
    · exact ((ih s.location).zeroOrMore (hcode body s.location) _).collected s hs
    · exact ((ih s.location).oneOrMore (hcode body s.location) _).collected s hs
  | lookahead kind body ih =>
    cases kind <;> simp only [action, recognizer]
    · exact ((ih start).lookahead (hcode body start)).map fun _ => none
    · exact ((ih start).notAhead (hcode body start)).map fun _ => none
  | labeled body ih =>
    intro s hs
    simp only [action, recognizer]
    exact ih s.location s hs
  | throw label site =>
    simp only [action, recognizer]
    exact Action.recognizes_throwLabel label start
  | call rule site =>
    simp only [action, recognizer]
    exact hinvoke rule
  | builtin rule site =>
    cases rule <;> simp only [action, recognizer]
    · exact Action.recognizes_spacing
    · exact Action.recognizes_eof
  | literal value site =>
    simp only [action, recognizer]
    exact Action.recognizes_literal value
  | range lo hi site =>
    simp only [action, recognizer]
    exact Action.recognizes_range lo hi
  | any site =>
    simp only [action, recognizer]
    exact Action.recognizes_any
  | procedure name body =>
    simp only [action, recognizer]
    exact Action.recognizes_succeed none
  | program procedures =>
    simp only [action, recognizer]
    exact Action.recognizes_succeed none

end Code

/-- A rule ends as its recognizer says. -/
theorem Program.recognizes_ruleAction (p : Program) (depth : Nat) (name : String) :
    (p.ruleAction depth name).Recognizes input policy (p.ruleRecognizer input policy depth name) := by
  induction depth generalizing name with
  | zero => exact Action.recognizes_cutOff
  | succ depth ih =>
    unfold ruleAction ruleRecognizer
    cases p.body? name with
    | some body => exact (body.recognizes_action (p.advances_ruleAction depth) ih 0).traced name
    | none => exact Action.recognizes_cutOff

end Abstraction

end LabeledPeg
