import LabeledPeg.Proofs.Parse.Position
import LabeledPeg.Proofs.Parse.Reuse

/-!
# Failures point into the attempt

A step that fails points between the place where it began and the end of the input, at a single place
unless a label was thrown. The latest failure lies within the input from the beginning on, so that a
label, which covers the input up to there, does too.
-/

namespace LabeledPeg

namespace Parse

/-- Whether a failure points between two places, and at a single place unless a label was thrown. -/
structure Failure.Inside (f : Failure) (start stop : Nat) : Prop where
  start_le : start ≤ f.span.start
  le : f.span.start ≤ f.span.stop
  le_stop : f.span.stop ≤ stop
  point : f.isLabeled = false → f.span.start = f.span.stop

lemma Failure.Inside.from_le {f : Failure} {start start' stop : Nat} (h : f.Inside start stop)
    (hstart : start' ≤ start) : f.Inside start' stop :=
  ⟨hstart.trans h.start_le, h.le, h.le_stop, h.point⟩

/-- An ordinary failure at a place. -/
lemma inside_of_point {f : Failure} {place start stop : Nat} (hspan : f.span = .point place)
    (hstart : start ≤ place) (hstop : place ≤ stop) : f.Inside start stop := by
  refine ⟨?_, ?_, ?_, fun _ => ?_⟩ <;> rw [hspan]
  · exact hstart
  · exact le_refl place
  · exact hstop
  · rfl

namespace State

/-- Whether the location and the latest failure of a state lie within the input. -/
structure Within (s : State) : Prop where
  location_le : s.location ≤ s.length
  failure_le : s.failure ≤ s.length

/-- How a step can end that began in the state `s`: behind that place, within the input, and with a
failure that points between the two. -/
inductive Confines {α : Type} (s : State) : Outcome Failure State α → Prop
  | success {value : α} {s' : State} (hs' : s.Advanced s') (hnoted : s'.failure ≤ s.length) :
    Confines s (.success value s')
  | failure {f : Failure} {s' : State} (hs' : s.Advanced s') (hnoted : s'.failure ≤ s.length)
    (hf : f.Inside s.location s.length) : Confines s (.failure f s')
  | unfinished : Confines s .unfinished

variable {α β : Type} {s s' : State} {o : Outcome Failure State α}

lemma Advanced.within_of_failure_le (h : s.Advanced s') (hnoted : s'.failure ≤ s.length) :
    s'.Within := ⟨h.within, h.length_eq ▸ hnoted⟩

/-- What goes on from behind the beginning of a step ends as the step can end. -/
lemma Confines.of_advanced (h : s'.Confines o) (hs : s.Advanced s') : s.Confines o := by
  cases h with
  | success hs' hnoted => exact .success (hs.trans hs') (hs.length_eq ▸ hnoted)
  | failure hs' hnoted hf =>
    rw [hs.length_eq] at hnoted hf
    exact .failure (hs.trans hs') hnoted (hf.from_le hs.start_le)
  | unfinished => exact .unfinished

lemma Confines.bind (h : s.Confines o) {next : α → State → Outcome Failure State β}
    (hnext : ∀ value s', s.Advanced s' → s'.failure ≤ s.length → s.Confines (next value s')) :
    s.Confines (o.bind next) := by
  cases h with
  | success hs' hnoted => exact hnext _ _ hs' hnoted
  | failure hs' hnoted hf => exact .failure hs' hnoted hf
  | unfinished => exact .unfinished

lemma Confines.map (h : s.Confines o) (f : α → β) : s.Confines (o.map f) := by
  cases h with
  | success hs' hnoted => exact .success hs' hnoted
  | failure hs' hnoted hf => exact .failure hs' hnoted hf
  | unfinished => exact .unfinished

lemma confines_failWith {f : Failure} (hs' : s.Advanced s') (hf : f.Inside s.location s.length) :
    s.Confines (Action.failWith f s' : Outcome Failure State α) :=
  .failure (hs'.note f) hf.le_stop hf

end State

namespace Action

variable {α β : Type} {a : Action α} {start : Nat}

/-- Whether a step from a state that lies within the input ends as a step can end. -/
def Confined (a : Action α) : Prop := ∀ s : State, s.Within → s.Confines (a s)

/-- Whether a step does so that begins at `start`. -/
def ConfinedFrom (start : Nat) (a : Action α) : Prop :=
  ∀ s : State, s.location = start → s.Within → s.Confines (a s)

lemma Confined.confinedFrom (h : a.Confined) (start : Nat) : a.ConfinedFrom start :=
  fun s _ hs => h s hs

lemma Confined.map (h : a.Confined) (f : α → β) : Confined fun s => (a s).map f :=
  fun s hs => (h s hs).map f

lemma confined_succeed (value : α) : Confined (Run.succeed value : Action α) :=
  fun _ hs => .success (.refl hs.location_le) hs.failure_le

lemma confined_cutOff : Confined (Run.cutOff : Action α) := fun _ _ => .unfinished

/-- What is missing at a place is missing there, within the input. -/
lemma confines_missing {s : State} {expected : String} {place : Nat} (hs : s.Within)
    (hstart : s.location ≤ place) (hplace : place ≤ s.length) :
    s.Confines (missing expected place s : Outcome Failure State α) := by
  unfold missing
  split
  · exact State.confines_failWith (.refl hs.location_le) (inside_of_point rfl hstart hplace)
  · exact State.confines_failWith (.refl hs.location_le) (inside_of_point rfl hstart hplace)

/-- Moving over characters notes no failure. -/
lemma confines_advance {s : State} {value : α} {count : Nat} (hs : s.Within)
    (hcount : s.location + count ≤ s.length) : s.Confines (.success value (s.advance count)) :=
  .success (advanced_advance hcount) hs.failure_le

lemma confined_anyChar : anyChar.Confined := by
  intro s hs
  unfold anyChar
  split
  · next hpeek => exact confines_advance hs (lt_length_of_peek? hpeek)
  · exact confines_missing hs (le_refl _) hs.location_le

lemma confined_charIn (lo hi : Char) : (charIn lo hi).Confined := by
  intro s hs
  unfold charIn
  split
  · next hpeek =>
    split
    · exact confines_advance hs (lt_length_of_peek? hpeek)
    · exact confines_missing hs (le_refl _) hs.location_le
  · exact confines_missing hs (le_refl _) hs.location_le

lemma confined_exactly (value : String) : (exactly value).Confined := by
  intro s hs
  have hlocation := hs.location_le
  have hcommon := (commonLength_le value.toList (s.ahead value.length)).2
  have hahead := length_ahead_le s value.length
  unfold exactly
  dsimp only
  split
  · exact confines_advance hs (by omega)
  · exact confines_missing hs (Nat.le_add_right _ _) (by omega)

/-- The tree that is made of what a step matched changes nothing about where it ends. -/
lemma Confined.text (h : a.Confined) (matched : α → String) :
    Confined fun s => (a s).bind fun value s' =>
      .success (some (textSince s.location (matched value) s')) s' :=
  fun s hs => (h s hs).bind fun _ _ hs' hnoted => .success hs' hnoted

lemma confined_any : any.Confined := confined_anyChar.text fun c => c.toString

lemma confined_literal (value : String) : (literal value).Confined :=
  (confined_exactly value).text fun _ => value

lemma confined_range (lo hi : Char) : (range lo hi).Confined :=
  (confined_charIn lo hi).text fun c => c.toString

lemma confined_spacing : spacing.Confined := by
  intro s hs
  have hlocation := hs.location_le
  have hcount := countWhile_le isSpacing s.input (s.length - s.location) s.location
  unfold spacing
  dsimp only
  split
  · exact confines_advance hs (by omega)
  · exact confines_advance hs (by omega)

/-- A label covers the input from the beginning of its attempt up to the latest failure. -/
lemma confinedFrom_throwLabel (label : String) (start : Nat) :
    (throwLabel label start : Action α).ConfinedFrom start := by
  rintro s rfl hs
  refine State.confines_failWith (.refl hs.location_le) ⟨le_refl _, le_max_right _ _, ?_, ?_⟩
  · exact max_le hs.failure_le hs.location_le
  · exact fun hlabeled => nomatch hlabeled

lemma Confined.traced (h : a.Confined) (name : String) : (traced name a).Confined := by
  intro s hs
  have hbody := h (s.enter name) ⟨hs.location_le, hs.failure_le⟩
  have hleave : ∀ s', (s.enter name).Advanced s' → s.Advanced s'.leave := by
    intro s' hs'
    refine ⟨hs'.input, hs'.policy, ?_, hs'.start_le, hs'.le_length⟩
    simp [State.leave, hs'.trace, State.enter]
  unfold Action.traced
  generalize a (s.enter name) = o at hbody
  cases hbody with
  | success hs' hnoted => exact .success (hleave _ hs') hnoted
  | failure hs' hnoted hf => exact .failure (hleave _ hs') hnoted hf
  | unfinished => exact .unfinished

lemma Confined.collected {a : Action (List (Option Tree))} (h : a.Confined) :
    (collected a).Confined :=
  fun s hs => (h s hs).bind fun _ _ hs' hnoted => .success hs' hnoted

lemma Confined.lookahead (h : a.Confined) : (lookahead a).Confined := by
  intro s hs
  have hbody := h s hs
  unfold Action.lookahead
  generalize a s = o at hbody
  cases hbody with
  | success hs' hnoted => exact .success (hs'.goto hs.location_le).1 hnoted
  | failure hs' _ hf => exact State.confines_failWith (hs'.goto hs.location_le).1 hf
  | unfinished => exact .unfinished

lemma Confined.notAhead (h : a.Confined) : (notAhead a).Confined := by
  intro s hs
  have hbody := h s hs
  unfold Action.notAhead
  generalize a s = o at hbody
  cases hbody with
  | success hs' _ =>
    exact State.confines_failWith (hs'.goto hs.location_le).1
      (inside_of_point rfl (le_refl _) hs.location_le)
  | failure hs' hnoted hf =>
    dsimp only
    split
    · exact .failure (hs'.goto hs.location_le).1 hnoted hf
    · exact .success (hs'.goto hs.location_le).1 hnoted
  | unfinished => exact .unfinished

lemma confined_eof : eof.Confined := confined_any.notAhead.map fun _ => none

/-- Of two failures that point into the attempt the one that is reported does. -/
lemma inside_farther {earlier? : Option Failure} {later : Failure} {stop : Nat}
    (hearlier : ∀ f ∈ earlier?, f.Inside start stop) (hlater : later.Inside start stop) :
    (farther earlier? later).Inside start stop := by
  cases earlier? with
  | none => exact hlater
  | some earlier =>
    unfold farther
    dsimp only
    split
    · exact hearlier earlier rfl
    · exact hlater

/-- Alternatives that are tried from where the choice began. -/
lemma confines_choiceFrom {alternatives : List (Action α)} {s₀ s : State} (hs₀ : s₀.Within)
    (h : ∀ a ∈ alternatives, a.ConfinedFrom s₀.location) {farthest? : Option Failure}
    (hfarthest : ∀ f ∈ farthest?, f.Inside s₀.location s₀.length) (hs : s₀.Advanced s)
    (hlocation : s.location = s₀.location) (hnoted : s.failure ≤ s₀.length) :
    s₀.Confines (choiceFrom s₀.location farthest? alternatives s) := by
  induction alternatives generalizing farthest? s with
  | nil =>
    refine State.confines_failWith hs ?_
    cases farthest? with
    | some earlier => exact hfarthest earlier rfl
    | none => exact inside_of_point rfl (le_refl _) hs₀.location_le
  | cons a alternatives ih =>
    have hfirst := (h a List.mem_cons_self s hlocation (hs.within_of_failure_le hnoted)).of_advanced hs
    unfold choiceFrom
    generalize a s = o at hfirst
    cases hfirst with
    | success hs' hnoted' => exact .success hs' hnoted'
    | failure hs' hnoted' hf =>
      dsimp only
      split
      · exact .failure hs' hnoted' hf
      · obtain ⟨hback, hstart⟩ := hs'.goto hs₀.location_le
        refine ih (fun b hb => h b (List.mem_cons_of_mem a hb)) (fun f hmem => ?_) hback hstart hnoted'
        obtain rfl := Option.some.inj hmem
        exact inside_farther hfarthest hf
    | unfinished => exact .unfinished

lemma confined_choice {alternatives : List (Action α)} (h : ∀ a ∈ alternatives, a.Confined) :
    (choice alternatives).Confined :=
  fun s hs => confines_choiceFrom hs (fun a ha => (h a ha).confinedFrom _) (by simp)
    (.refl hs.location_le) rfl hs.failure_le

lemma Confined.zeroOrMore (h : a.Confined) (limit : Nat) : (zeroOrMore a limit).Confined := by
  induction limit with
  | zero => exact confined_cutOff
  | succ limit ih =>
    intro s hs
    have hbody := h s hs
    unfold Action.zeroOrMore
    generalize a s = o at hbody
    cases hbody with
    | @success value s' hs' hnoted =>
      dsimp only
      split
      · exact .success hs' hnoted
      · exact ((ih s' (hs'.within_of_failure_le hnoted)).of_advanced hs').map _
    | failure hs' hnoted hf =>
      dsimp only
      split
      · exact .failure hs' hnoted hf
      · exact .success (hs'.goto hs.location_le).1 hnoted
    | unfinished => exact .unfinished

lemma Confined.oneOrMore (h : a.Confined) (limit : Nat) : (oneOrMore a limit).Confined := by
  intro s hs
  have hbody := h s hs
  unfold Action.oneOrMore
  generalize a s = o at hbody
  cases hbody with
  | @success value s' hs' hnoted =>
    dsimp only
    split
    · exact .success hs' hnoted
    · exact ((h.zeroOrMore limit s' (hs'.within_of_failure_le hnoted)).of_advanced hs').map _
  | failure hs' hnoted hf => exact .failure hs' hnoted hf
  | unfinished => exact .unfinished

end Action

end Parse

open Parse

namespace Code

variable {invoke : String → Action (Option Tree)} {g : Grammar}

lemma confined_stepsAction {codes : List Code}
    (h : ∀ code ∈ codes, ∀ start, (code.action invoke start).Confined) (start : Nat) :
    (stepsAction invoke start codes).Confined := by
  induction codes with
  | nil =>
    simp only [stepsAction]
    exact Action.confined_succeed []
  | cons code codes ih =>
    intro s hs
    have hrest := ih fun c hc => h c (List.mem_cons_of_mem code hc)
    simp only [stepsAction]
    apply (h code List.mem_cons_self start s hs).bind
    intro value s' hs' hnoted
    exact ((hrest s' (hs'.within_of_failure_le hnoted)).of_advanced hs').map (value :: ·)

/-- A fragment in which each label is thrown for an attempt of its own ends as a step can end, if the
rules it calls do. -/
theorem confined_action (hinvoke : ∀ name, (invoke name).Confined) {code : Code}
    (h : code.Contract g) (start : Nat) : (code.action invoke start).Confined := by
  induction h generalizing start with
  | sequence _ ih =>
    intro s hs
    simp only [action]
    exact (confined_stepsAction ih s.location).collected s hs
  | choice _ _ ih =>
    simp only [action, alternativeActions_eq_map]
    exact Action.confined_choice (List.forall_mem_map.mpr fun c hc => ih c hc start)
  | optional _ ih =>
    simp only [action, alternativeActions]
    refine Action.confined_choice (List.forall_mem_cons.mpr ⟨ih start, ?_⟩)
    exact List.forall_mem_singleton.mpr (Action.confined_succeed none)
  | @repetition kind body _ ih =>
    intro s hs
    cases kind <;> simp only [action]
    · exact ((ih s.location).zeroOrMore _).collected s hs
    · exact ((ih s.location).oneOrMore _).collected s hs
  | @lookahead kind body _ ih =>
    cases kind <;> simp only [action]
    · exact (ih start).lookahead.map fun _ => none
    · exact (ih start).notAhead.map fun _ => none
  | @labeled attempt label site _ ih =>
    intro s hs
    simp only [action, alternativeActions, Action.choice]
    -- the label is thrown where the attempt began
    refine Action.confines_choiceFrom hs (List.forall_mem_cons.mpr
      ⟨(ih s.location).confinedFrom _, ?_⟩) (by simp) (.refl hs.location_le) rfl hs.failure_le
    exact List.forall_mem_singleton.mpr (Action.confinedFrom_throwLabel label _)
  | @call rule site _ =>
    simp only [action]
    exact hinvoke rule
  | @builtin rule site _ =>
    cases rule <;> simp only [action]
    · exact Action.confined_spacing
    · exact Action.confined_eof
  | @literal value site =>
    simp only [action]
    exact Action.confined_literal value
  | @range lo hi site =>
    simp only [action]
    exact Action.confined_range lo hi
  | @any site =>
    simp only [action]
    exact Action.confined_any

end Code

namespace Program

variable {p : Program} {g : Grammar}

theorem confined_ruleAction (h : ∀ name body, p.body? name = some body → body.Contract g)
    (depth : Nat) (name : String) : (p.ruleAction depth name).Confined := by
  induction depth generalizing name with
  | zero => exact Action.confined_cutOff
  | succ depth ih =>
    unfold ruleAction
    cases hbody : p.body? name with
    | some body => exact (Code.confined_action ih (h name body hbody) 0).traced name
    | none => exact Action.confined_cutOff

lemma confines_parse (h : ∀ name body, p.body? name = some body → body.Contract g) (rule : String)
    {s : State} (hs : s.Within) : s.Confines (p.parse rule s) :=
  confined_ruleAction h (p.procedures.length * (s.length + 1)) rule s hs

/-- What a parser was used for before leaves its state within the input. -/
lemma Reached.within (h : ∀ name body, p.body? name = some body → body.Contract g) {text : String}
    {s : State} (hs : p.Reached text s) : s.Within := by
  induction hs with
  | start => exact ⟨Nat.zero_le _, Nat.zero_le _⟩
  | @parse name s s' _ hrun ih =>
    have hparse := confines_parse h name ih
    generalize p.parse name s = o at hparse hrun
    cases hparse with
    | success hs' hnoted | failure hs' hnoted _ =>
      obtain rfl := Option.some.inj hrun
      exact hs'.within_of_failure_le hnoted
    | unfinished => cases hrun
  | goto _ place ih => exact ⟨min_le_right _ _, ih.failure_le⟩
  | setPolicy _ policy ih => exact ⟨ih.location_le, ih.failure_le⟩

end Program

/-- A parser that was used in any way before is in a state within its input. From any such state, with
any policy, a rule ends behind the place where it began and within the input, whether it matches or
fails. If it fails, the failure points in between, at a single place unless a label was thrown. -/
theorem Grammar.Assembled.parse_within {g : Grammar} (hg : g.Assembled) :
    ∃ p, g.compile = .ok p ∧
      (∀ text s, p.Reached text s → s.location ≤ s.length ∧ s.failure ≤ s.length) ∧
      ∀ (rule : String) (s s' : State), s.location ≤ s.length → s.failure ≤ s.length →
        (p.parse rule s).state? = some s' →
        (s.location ≤ s'.location ∧ s'.location ≤ s.length) ∧
        ∀ f, p.parse rule s = .failure f s' →
          s.location ≤ f.span.start ∧ f.span.start ≤ f.span.stop ∧ f.span.stop ≤ s.length ∧
            (f.isLabeled = false → f.span.start = f.span.stop) := by
  obtain ⟨hplain, hvalid⟩ := hg.isPlain_and_validate
  have hbody : ∀ name body, g.program.body? name = some body → body.Contract g := by
    intro name body hbody
    obtain ⟨q, hq, rfl⟩ := Option.map_eq_some_iff.mp hbody
    exact (contract_program hplain hvalid q (List.mem_of_find?_eq_some hq)).2
  refine ⟨g.program, hg.compile_eq, fun text s hs => ?_, fun rule s s' hlocation hfailure hrun => ?_⟩
  · have hwithin := Program.Reached.within hbody hs
    exact ⟨hwithin.location_le, hwithin.failure_le⟩
  · have hparse := Program.confines_parse hbody rule ⟨hlocation, hfailure⟩
    generalize g.program.parse rule s = o at hparse hrun ⊢
    cases hparse with
    | success hs' _ =>
      obtain rfl := Option.some.inj hrun
      exact ⟨⟨hs'.start_le, hs'.le_length⟩, fun f hf => nomatch hf⟩
    | failure hs' _ hinside =>
      obtain rfl := Option.some.inj hrun
      refine ⟨⟨hs'.start_le, hs'.le_length⟩, fun f hf => ?_⟩
      obtain ⟨rfl, -⟩ := Outcome.failure.inj hf
      exact ⟨hinside.start_le, hinside.le, hinside.le_stop, hinside.point⟩
    | unfinished => cases hrun

/-- The parser failed at the end of the input before, and goes on from its beginning: the label is at
the failure of this attempt, not at the old one. -/
theorem parse_within_countdown : ∃ s s' : State, countdown.program.Reached "axaa" s ∧
    s.location = 0 ∧ s.failure = 4 ∧
    countdown.program.parse "S" s = .failure (.labeled "expected" (some "S") ⟨1, 1⟩) s' ∧
    (0 ≤ s'.location ∧ s'.location ≤ s.length) := by
  obtain ⟨p, hp, hreached, h⟩ := Grammar.Assembled.parse_within assembled_countdown
  obtain rfl : countdown.program = p :=
    Except.ok.inj (assembled_countdown.compile_eq.symm.trans hp)
  have hfailed : (countdown.program.parse "S" (State.goto (.ofString "axaa") 2)).state? =
      some ⟨"axaa".toList.toArray, 4, 4, [], .commit⟩ := rfl
  have hs := Program.Reached.goto (.parse (.goto .start 2) hfailed) 0
  obtain ⟨hlocation, hfailure⟩ := hreached _ _ hs
  obtain ⟨s', hrun⟩ : ∃ s', countdown.program.parse "S"
      (State.goto ⟨"axaa".toList.toArray, 4, 4, [], .commit⟩ 0) =
        .failure (.labeled "expected" (some "S") ⟨1, 1⟩) s' := ⟨_, rfl⟩
  have hbounds := (h "S" _ s' hlocation hfailure (by rw [hrun]; rfl)).1
  exact ⟨_, s', hs, rfl, rfl, hrun, hbounds⟩

end LabeledPeg
