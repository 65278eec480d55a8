import LabeledPeg.Proofs.Parse.Course
import LabeledPeg.Proofs.Program.Calls

/-!
# What every course has in common

The course of a fragment goes through states that the run advances to, calls the rules that the
fragment calls, and enters no repetition too often. It cannot be cut off, if the limit of turns is
beyond the input. A failure that commits comes from a label thrown just before, or from a rule that
failed with it, and nothing follows it.
-/

namespace LabeledPeg

open Parse

/-- What can happen in a fragment itself, apart from throwing a label. -/
def Event.Local (s : State) : Event → Prop
  | primitive _ | alternative _ => True
  | turn first count => first ≤ s.length ∧ count ≤ s.length - first + 1
  | enter _ _ _ | raise _ => False

lemma Event.Local.of_advanced {s s' : State} {e : Event} (h : e.Local s') (hs : s.Advanced s') :
    e.Local s := by
  cases e with
  | turn first count => simpa only [Local, hs.length_eq] using h
  | primitive | alternative | enter | raise => exact h

namespace Course

variable {α β : Type} {calls : String → Prop} {limit : Nat} {s : State}

/-- What the course of a fragment that began in the state `s` looks like. -/
inductive Orderly {α : Type} (calls : String → Prop) (limit : Nat) (s : State) : Course α → Prop
  | success {value : α} {s' : State} (hs' : s.Advanced s') : Orderly calls limit s (.success value s')
  | failure {f : Failure} {s' : State} (hs' : s.Advanced s') (hf : s.commits f = false) :
    Orderly calls limit s (.failure f s')
  | unfinished (hlimit : limit ≤ s.length) : Orderly calls limit s .unfinished
  | event {e : Event} {rest : Course α} (he : e.Local s) (h : Orderly calls limit s rest) :
    Orderly calls limit s (.event e rest)
  | raise {f : Failure} {rest : Course α} (hlabel : f.isLabeled = true) (hf : s.commits f = false)
    (h : Orderly calls limit s rest) : Orderly calls limit s (.event (.raise f) rest)
  | commit {f : Failure} {s' : State} (hs' : s.Advanced s') (hf : s.commits f = true) :
    Orderly calls limit s (.event (.raise f) (.failure f s'))
  | call {rule : String} {s' : State} {onSuccess : Option Tree → State → Course α}
    {onFailure : Failure → State → Course α} (hrule : calls rule) (hs' : s.Advanced s')
    (hsuccess : ∀ value s'', s'.Advanced s'' → Orderly calls limit s (onSuccess value s''))
    (hfailure : ∀ f s'', s'.Advanced s'' → s.commits f = false →
      Orderly calls limit s (onFailure f s''))
    (hcommit : ∀ f s'', s'.Advanced s'' → s.commits f = true →
      ∃ last, s.Advanced last ∧ onFailure f s'' = .failure f last) :
    Orderly calls limit s (.call rule s' onSuccess onFailure)

namespace Orderly

lemma of_advanced {s' : State} {c : Course α} (h : c.Orderly calls limit s') (hs : s.Advanced s') :
    c.Orderly calls limit s := by
  induction h with
  | success hs' => exact .success (hs.trans hs')
  | failure hs' hf => exact .failure (hs.trans hs') (hs.commits_eq _ ▸ hf)
  | unfinished hlimit => exact .unfinished (hs.length_eq ▸ hlimit)
  | event he _ ih => exact .event (he.of_advanced hs) ih
  | raise hlabel hf _ ih => exact .raise hlabel (hs.commits_eq _ ▸ hf) ih
  | commit hs' hf => exact .commit (hs.trans hs') (hs.commits_eq _ ▸ hf)
  | call hrule hs' _ _ hcommit ih ih' =>
    refine .call hrule (hs.trans hs') ih (fun f s'' hs'' hf => ?_) fun f s'' hs'' hf => ?_
    · exact ih' f s'' hs'' ((hs.commits_eq f).trans hf)
    · obtain ⟨last, hlast, heq⟩ := hcommit f s'' hs'' ((hs.commits_eq f).trans hf)
      exact ⟨last, hs.trans hlast, heq⟩

/-- How a course goes on after another one: a failure that commits is handed on as it is. -/
lemma andThen {c : Course α} (h : c.Orderly calls limit s) {onSuccess : α → State → Course β}
    {onFailure : Failure → State → Course β}
    (hsuccess : ∀ value s', s.Advanced s' → (onSuccess value s').Orderly calls limit s)
    (hfailure : ∀ f s', s.Advanced s' → s.commits f = false →
      (onFailure f s').Orderly calls limit s)
    (hcommit : ∀ f s', s.Advanced s' → s.commits f = true →
      ∃ last, s.Advanced last ∧ onFailure f s' = .failure f last) :
    (c.andThen onSuccess onFailure).Orderly calls limit s := by
  induction h with
  | success hs' => exact hsuccess _ _ hs'
  | failure hs' hf => exact hfailure _ _ hs' hf
  | unfinished hlimit => exact .unfinished hlimit
  | event he _ ih => exact .event he ih
  | raise hlabel hf _ ih => exact .raise hlabel hf ih
  | @commit f s' hs' hf =>
    obtain ⟨last, hlast, heq⟩ := hcommit f s' hs' hf
    simp only [Course.andThen, heq]
    exact .commit hlast hf
  | call hrule hs' _ _ hcall ih ih' =>
    refine .call hrule hs' ih ih' fun f s'' hs'' hf => ?_
    obtain ⟨last, hlast, heq⟩ := hcall f s'' hs'' hf
    simp only [heq, Course.andThen]
    exact hcommit f last hlast hf

lemma map {c : Course α} (h : c.Orderly calls limit s) (f : α → β) :
    (c.map f).Orderly calls limit s := by
  apply h.andThen
  · exact fun _ _ hs' => .success hs'
  · exact fun _ _ hs' hf => .failure hs' hf
  · exact fun _ s' hs' _ => ⟨s', hs', rfl⟩

end Orderly

/-- Whether the courses from all locations within an input are orderly. -/
def Steady (calls : String → Prop) (limit : Nat) (c : State → Course α) : Prop :=
  ∀ s, s.location ≤ s.length → (c s).Orderly calls limit s

end Course

namespace Parse.Action

variable {α β : Type}

/-- How a primitive ends: it matches, or it fails with no label. -/
inductive Ordinary : Outcome Failure State α → Prop
  | success {value : α} {s : State} : Ordinary (.success value s)
  | failure {f : Failure} {s : State} (hf : f.isLabeled = false) : Ordinary (.failure f s)

lemma Ordinary.bind {o : Outcome Failure State α} (h : Ordinary o)
    {next : α → State → Outcome Failure State β} (hnext : ∀ value s, Ordinary (next value s)) :
    Ordinary (o.bind next) := by
  cases h with
  | success => exact hnext _ _
  | failure hf => exact .failure hf

variable (s : State)

lemma ordinary_missing (expected : String) (place : Nat) :
    Ordinary (missing expected place s : Outcome Failure State α) := by
  unfold missing
  split <;> exact .failure rfl

lemma ordinary_anyChar : Ordinary (anyChar s) := by
  unfold anyChar
  split
  · exact .success
  · exact ordinary_missing s _ _

lemma ordinary_charIn (lo hi : Char) : Ordinary (charIn lo hi s) := by
  unfold charIn
  split
  · split
    · exact .success
    · exact ordinary_missing s _ _
  · exact ordinary_missing s _ _

lemma ordinary_exactly (value : String) : Ordinary (exactly value s) := by
  unfold exactly
  dsimp only
  split
  · exact .success
  · exact ordinary_missing s _ _

lemma ordinary_any : Ordinary (any s) := (ordinary_anyChar s).bind fun _ _ => .success

lemma ordinary_range (lo hi : Char) : Ordinary (range lo hi s) :=
  (ordinary_charIn s lo hi).bind fun _ _ => .success

lemma ordinary_literal (value : String) : Ordinary (literal value s) :=
  (ordinary_exactly s value).bind fun _ _ => .success

lemma ordinary_spacing : Ordinary (spacing s) := by
  unfold spacing
  dsimp only
  split <;> exact .success

lemma ordinary_eof : Ordinary (eof s) := by
  unfold eof notAhead
  have hany := ordinary_any s
  generalize any s = o at hany ⊢
  cases hany with
  | success => exact .failure rfl
  | @failure f s' hf =>
    simp only [State.commits, hf, Bool.false_and, Bool.false_eq_true, if_false]
    exact .success

end Parse.Action

namespace Course

variable {α : Type} {calls : String → Prop} {limit : Nat} {c : State → Course α}

lemma commits_eq_false_of_not_labeled {s : State} {f : Failure} (h : f.isLabeled = false) :
    s.commits f = false := by
  rw [State.commits, h, Bool.false_and]

lemma commits_farther_eq_false {s : State} {earlier? : Option Failure} {later : Failure}
    (hearlier : ∀ f ∈ earlier?, s.commits f = false) (hlater : s.commits later = false) :
    s.commits (Action.farther earlier? later) = false := by
  cases earlier? with
  | none => exact hlater
  | some earlier =>
    unfold Action.farther
    dsimp only
    split
    · exact hearlier earlier rfl
    · exact hlater

lemma steady_primitive {a : Action α} (ha : a.Advances) (hordinary : ∀ s, Action.Ordinary (a s)) :
    Steady calls limit (primitive a) := by
  intro s hs
  unfold primitive
  apply Orderly.event
  · exact trivial
  have hends := hordinary s
  have hadvances := fun s' => ha s s' hs
  generalize a s = o at hends hadvances ⊢
  cases hends with
  | success => exact .success (hadvances _ rfl)
  | failure hf => exact .failure (hadvances _ rfl) (commits_eq_false_of_not_labeled hf)

lemma steady_throwLabel (label : String) (start : Nat) :
    Steady calls limit (raising (Action.throwLabel label start : Action α)) := by
  intro s hs
  have hadvances := Action.advances_throwLabel (α := α) label start
  unfold raising
  cases hrun : (Action.throwLabel label start : Action α) s with
  | success value s' => exact .success (hadvances.success hs hrun)
  | failure f s' =>
    have hs' := hadvances.failure hs hrun
    have hlabel : f.isLabeled = true := (Outcome.failure.inj hrun).1 ▸ rfl
    by_cases hf : s.commits f = true
    · exact .commit hs' hf
    · rw [Bool.not_eq_true] at hf
      exact .raise hlabel hf (.failure hs' hf)
  | unfinished => cases hrun

lemma Steady.lookahead (h : Steady calls limit c) : Steady calls limit (lookahead c) := by
  intro s hs
  apply (h s hs).andThen
  · exact fun _ s' hs' => .success (hs'.goto hs).1
  · exact fun f s' hs' hf => .failure ((hs'.goto hs).1.note f) hf
  · exact fun f s' hs' _ => ⟨_, (hs'.goto hs).1.note f, rfl⟩

lemma Steady.notAhead (h : Steady calls limit c) : Steady calls limit (notAhead c) := by
  intro s hs
  apply (h s hs).andThen
  · intro _ s' hs'
    exact .failure ((hs'.goto hs).1.note _) (commits_eq_false_of_not_labeled rfl)
  · intro f s' hs' hf
    rw [hs'.commits_eq, hf]
    exact .success (hs'.goto hs).1
  · intro f s' hs' hf
    rw [hs'.commits_eq, hf]
    exact ⟨_, (hs'.goto hs).1, rfl⟩

lemma Steady.collected {c : State → Course (List (Option Tree))} (h : Steady calls limit c) :
    Steady calls limit (collected c) := by
  intro s hs
  apply (h s hs).andThen
  · exact fun _ _ hs' => .success hs'
  · exact fun _ _ hs' hf => .failure hs' hf
  · exact fun _ s' hs' _ => ⟨s', hs', rfl⟩

/-- Every turn but the last one moves on. -/
lemma Steady.turns (h : Steady calls limit c) {first n count : Nat} (hlimit : limit < n + count)
    (hpos : 0 < count) {s : State} (hs : s.location ≤ s.length)
    (hcount : first + count ≤ s.location + 1) :
    (turns c first n count s).Orderly calls limit s := by
  induction n generalizing count s with
  | zero =>
    apply Orderly.unfinished
    omega
  | succ n ih =>
    apply Orderly.event
    · simp only [Event.Local]
      omega
    apply (h s hs).andThen
    · intro value s' hs'
      have hstart := hs'.start_le
      split
      · exact .success hs'
      · apply Orderly.of_advanced _ hs'
        apply Orderly.map
        exact ih (by omega) (by omega) hs'.within (by omega)
    · intro f s' hs' hf
      rw [hs'.commits_eq, hf]
      exact .success (hs'.goto hs).1
    · intro f s' hs' hf
      rw [hs'.commits_eq, hf]
      exact ⟨s', hs', rfl⟩

lemma Steady.zeroOrMore (h : Steady calls limit c) : Steady calls limit (zeroOrMore c limit) := by
  intro s hs
  apply h.turns (Nat.lt_succ_self limit) Nat.one_pos hs
  omega

lemma Steady.oneOrMore (h : Steady calls limit c) :
    Steady calls limit (oneOrMore c limit) := by
  intro s hs
  apply Orderly.event
  · simp only [Event.Local]
    omega
  apply (h s hs).andThen
  · intro value s' hs'
    have hstart := hs'.start_le
    split
    · exact .success hs'
    · apply Orderly.of_advanced _ hs'
      apply Orderly.map
      apply h.turns (by omega) (by omega) hs'.within
      omega
  · exact fun _ _ hs' hf => .failure hs' hf
  · exact fun _ s' hs' _ => ⟨s', hs', rfl⟩

lemma orderly_choiceFrom {courses : List (State → Course α)}
    (h : ∀ c ∈ courses, Steady calls limit c) {farthest? : Option Failure} {s : State}
    (hs : s.location ≤ s.length) (hfarthest : ∀ f ∈ farthest?, s.commits f = false) :
    (choiceFrom s.location farthest? courses s).Orderly calls limit s := by
  induction courses generalizing farthest? s with
  | nil =>
    apply Orderly.failure ((State.Advanced.refl hs).note _)
    cases farthest? with
    | none => exact commits_eq_false_of_not_labeled rfl
    | some f => exact hfarthest f rfl
  | cons c courses ih =>
    apply Orderly.event
    · exact trivial
    apply (h c (by simp) s hs).andThen
    · exact fun _ _ hs' => .success hs'
    · intro f s' hs' hf
      -- the next alternative starts from where the choice did
      obtain ⟨hback, hlocation⟩ := hs'.goto hs
      have hfarther : ∀ g ∈ some (Action.farther farthest? f),
          (s'.goto s.location).commits g = false := by
        intro g hg
        rw [← Option.some.inj hg, hback.commits_eq]
        exact commits_farther_eq_false hfarthest hf
      have hnext := ih (fun d hd => h d (by simp [hd])) hback.within hfarther
      rw [hlocation] at hnext
      rw [hs'.commits_eq, hf]
      exact hnext.of_advanced hback
    · intro f s' hs' hf
      rw [hs'.commits_eq, hf]
      exact ⟨s', hs', rfl⟩

end Course

namespace Code

variable {calls : String → Prop} {limit : Nat}

lemma steady_stepsCourse {codes : List Code}
    (h : ∀ c ∈ codes, ∀ start, Course.Steady calls limit (c.course limit start)) (start : Nat) :
    Course.Steady calls limit (stepsCourse limit start codes) := by
  induction codes with
  | nil =>
    intro s hs
    simp only [stepsCourse]
    exact .success (.refl hs)
  | cons code codes ih =>
    intro s hs
    simp only [stepsCourse]
    apply (h code (by simp) start s hs).andThen
    · intro value s' hs'
      have hcodes := ih (fun c hc => h c (by simp [hc])) s' hs'.within
      exact (hcodes.map _).of_advanced hs'
    · exact fun _ _ hs' hf => .failure hs' hf
    · exact fun _ s' hs' _ => ⟨s', hs', rfl⟩

theorem steady_course {code : Code} (hcalls : ∀ rule, code.Calls rule → calls rule) (start : Nat) :
    Course.Steady calls limit (code.course limit start) := by
  induction code using inductionOn generalizing start with
  | sequence steps ih =>
    intro s hs
    simp only [course]
    have hsteps : ∀ c ∈ steps, ∀ start, Course.Steady calls limit (c.course limit start) :=
      fun c hc => ih c hc fun rule hrule => hcalls rule (.sequence hc hrule)
    exact (steady_stepsCourse hsteps s.location).collected s hs
  | choice alternatives ih =>
    intro s hs
    simp only [course, alternativeCourses_eq_map]
    apply Course.orderly_choiceFrom _ hs
    · intro f hf
      cases hf
    · intro a ha
      obtain ⟨c, hc, rfl⟩ := List.mem_map.mp ha
      exact ih c hc (fun rule hrule => hcalls rule (.choice hc hrule)) start
  | repetition kind body ih =>
    intro s hs
    have hbody := ih (fun rule hrule => hcalls rule (.repetition hrule)) s.location
    cases kind with
    | zeroOrMore =>
      simp only [course]
      exact hbody.zeroOrMore.collected s hs
    | oneOrMore =>
      simp only [course]
      exact hbody.oneOrMore.collected s hs
  | lookahead kind body ih =>
    intro s hs
    have hbody := ih (fun rule hrule => hcalls rule (.lookahead hrule)) start
    cases kind with
    | positive =>
      simp only [course]
      exact (hbody.lookahead s hs).map _
    | negative =>
      simp only [course]
      exact (hbody.notAhead s hs).map _
  | labeled body ih =>
    intro s hs
    simp only [course]
    exact ih (fun rule hrule => hcalls rule (.labeled hrule)) s.location s hs
  | throw label site =>
    simp only [course]
    exact Course.steady_throwLabel label start
  | call rule site =>
    intro s hs
    simp only [course]
    apply Course.Orderly.call (hcalls rule .call) (.refl hs)
    · exact fun _ _ hs' => .success hs'
    · exact fun _ _ hs' hf => .failure hs' hf
    · exact fun _ s' hs' _ => ⟨s', hs', rfl⟩
  | builtin rule site =>
    cases rule with
    | spacing =>
      simp only [course]
      exact Course.steady_primitive Action.advances_spacing Action.ordinary_spacing
    | eof =>
      simp only [course]
      exact Course.steady_primitive Action.advances_eof Action.ordinary_eof
  | literal value site =>
    simp only [course]
    exact Course.steady_primitive (Action.advances_literal value) fun s =>
      Action.ordinary_literal s value
  | range lo hi site =>
    simp only [course]
    exact Course.steady_primitive (Action.advances_range lo hi) fun s =>
      Action.ordinary_range s lo hi
  | any site =>
    simp only [course]
    exact Course.steady_primitive Action.advances_any Action.ordinary_any
  | empty | procedure | program =>
    intro s hs
    simp only [course]
    exact .success (.refl hs)

end Code

end LabeledPeg
