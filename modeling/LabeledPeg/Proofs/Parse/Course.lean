import LabeledPeg.Proofs.Parse.Motion
import Mathlib.Data.List.Forall2

/-!
# The course of a run

What happens in a run, in order: which primitives, alternatives, turns of repetitions and rules are
started, and which labels are thrown. The course of a fragment from a state is a tree. It leaves open
how the rules end that the fragment calls, and says for each way how the run goes on. Once the ends
of the rules are given, the course says how the run ends, and that is how the fragment ends.
-/

namespace LabeledPeg

open Parse

/-- What happens in a run. -/
inductive Event where
  | primitive (place : Nat)
  | alternative (place : Nat)
  /-- A repetition that was entered at `first` runs its body for the `count`th time. -/
  | turn (first count : Nat)
  /-- A rule is entered, inside the rules in `active`. -/
  | enter (rule : String) (place : Nat) (active : List TraceEntry)
  | raise (f : Failure)

/-- The course of a run up to its end, for every way in which the rules that it calls can end. -/
inductive Course (α : Type) where
  | success (value : α) (state : State)
  | failure (error : Failure) (state : State)
  | unfinished
  | event (e : Event) (rest : Course α)
  | call (rule : String) (state : State) (onSuccess : Option Tree → State → Course α)
    (onFailure : Failure → State → Course α)

namespace Course

variable {α β : Type}

/-- How a run ends if rules do what `invoke` does. -/
def run (invoke : String → Action (Option Tree)) : Course α → Outcome Failure State α
  | success value s => .success value s
  | failure f s => .failure f s
  | unfinished => .unfinished
  | event _ rest => rest.run invoke
  | call rule s onSuccess onFailure =>
    match invoke rule s with
    | .success value s' => (onSuccess value s').run invoke
    | .failure f s' => (onFailure f s').run invoke
    | .unfinished => .unfinished

/-- What happens in a run, up to the first rule that does not end; `inside` tells what happens in the
rules. -/
def events (invoke : String → Action (Option Tree)) (inside : String → State → List Event) :
    Course α → List Event
  | success _ _ => []
  | failure _ _ => []
  | unfinished => []
  | event e rest => e :: rest.events invoke inside
  | call rule s onSuccess onFailure =>
    inside rule s ++ match invoke rule s with
      | .success value s' => (onSuccess value s').events invoke inside
      | .failure f s' => (onFailure f s').events invoke inside
      | .unfinished => []

/-- Goes on from where a course ends. -/
def andThen (c : Course α) (onSuccess : α → State → Course β) (onFailure : Failure → State → Course β) :
    Course β :=
  match c with
  | success value s => onSuccess value s
  | failure f s => onFailure f s
  | unfinished => unfinished
  | event e rest => event e (rest.andThen onSuccess onFailure)
  | call rule s next next' => call rule s (fun value s' => (next value s').andThen onSuccess onFailure)
      fun f s' => (next' f s').andThen onSuccess onFailure

def map (f : α → β) (c : Course α) : Course β :=
  c.andThen (fun value s => success (f value) s) failure

/-- A step that starts a primitive. -/
def primitive (a : Action α) (s : State) : Course α :=
  event (.primitive s.location) <|
    match a s with
    | .success value s' => success value s'
    | .failure f s' => failure f s'
    | .unfinished => unfinished

/-- A step that throws the label that it fails with. -/
def raising (a : Action α) (s : State) : Course α :=
  match a s with
  | .success value s' => success value s'
  | .failure f s' => event (.raise f) (failure f s')
  | .unfinished => unfinished

def choiceFrom (start : Nat) (farthest? : Option Failure) : List (State → Course α) → State → Course α
  | [], s =>
    let f := farthest?.getD (.predicate "no alternatives" (.point start))
    failure f (s.note f)
  | alternative :: alternatives, s =>
    event (.alternative s.location) <| (alternative s).andThen success fun f s' =>
      if s'.commits f then failure f s'
      else choiceFrom start (some (Action.farther farthest? f)) alternatives (s'.goto start)

def lookahead (body : State → Course α) (s : State) : Course Unit :=
  (body s).andThen (fun _ s' => success () (s'.goto s.location))
    fun f s' => failure f ((s'.goto s.location).note f)

def notAhead (body : State → Course α) (s : State) : Course Unit :=
  (body s).andThen
    (fun _ s' =>
      let f := Failure.predicate "unexpected match" (.point s.location)
      failure f ((s'.goto s.location).note f))
    fun f s' =>
      if s'.commits f then failure f (s'.goto s.location) else success () (s'.goto s.location)

/-- The turns from the `count`th on of a repetition that was entered at `first`, at most `limit`. -/
def turns (body : State → Course α) (first : Nat) : Nat → Nat → State → Course (List α)
  | 0, _, _ => unfinished
  | limit + 1, count, s =>
    event (.turn first count) <| (body s).andThen
      (fun value s' =>
        if s'.location = s.location then success [value] s'
        else (turns body first limit (count + 1) s').map (value :: ·))
      fun f s' => if s'.commits f then failure f s' else success [] (s'.goto s.location)

def zeroOrMore (body : State → Course α) (limit : Nat) (s : State) : Course (List α) :=
  turns body s.location limit 1 s

def oneOrMore (body : State → Course α) (limit : Nat) (s : State) : Course (List α) :=
  event (.turn s.location 1) <| (body s).andThen
    (fun value s' =>
      if s'.location = s.location then success [value] s'
      else (turns body s.location limit 2 s').map (value :: ·))
    failure

def collected (body : State → Course (List (Option Tree))) (s : State) : Course (Option Tree) :=
  (body s).andThen
    (fun values s' => success (some (.sequence (values.filterMap id) ⟨s.location, s'.location⟩)) s')
    failure

end Course

namespace Code

mutual

/-- The course of a fragment. A repetition runs its body at most `limit` times. -/
def course (limit start : Nat) : Code → State → Course (Option Tree)
  | sequence steps => fun s => Course.collected (stepsCourse limit s.location steps) s
  | choice alternatives => fun s =>
    Course.choiceFrom s.location none (alternativeCourses limit start alternatives) s
  | empty => .success none
  | repetition .zeroOrMore body => fun s =>
    Course.collected (Course.zeroOrMore (body.course limit s.location) limit) s
  | repetition .oneOrMore body => fun s =>
    Course.collected (Course.oneOrMore (body.course limit s.location) limit) s
  | lookahead .positive body => fun s =>
    (Course.lookahead (body.course limit start) s).map fun _ => none
  | lookahead .negative body => fun s =>
    (Course.notAhead (body.course limit start) s).map fun _ => none
  | labeled body => fun s => body.course limit s.location s
  | throw label _ => Course.raising (Action.throwLabel label start)
  | call rule _ => fun s => .call rule s .success .failure
  | builtin .spacing _ => Course.primitive Action.spacing
  | builtin .eof _ => Course.primitive Action.eof
  | literal value _ => Course.primitive (Action.literal value)
  | range lo hi _ => Course.primitive (Action.range lo hi)
  | any _ => Course.primitive Action.any
  | procedure _ _ => .success none
  | program _ => .success none

def alternativeCourses (limit start : Nat) : List Code → List (State → Course (Option Tree))
  | [] => []
  | code :: codes => code.course limit start :: alternativeCourses limit start codes

def stepsCourse (limit start : Nat) : List Code → State → Course (List (Option Tree))
  | [] => .success []
  | code :: codes => fun s =>
    (code.course limit start s).andThen
      (fun value s' => (stepsCourse limit start codes s').map (value :: ·)) .failure

end

lemma alternativeCourses_eq_map (limit start : Nat) (codes : List Code) :
    alternativeCourses limit start codes = codes.map (course limit start) := by
  induction codes with
  | nil => simp only [alternativeCourses, List.map_nil]
  | cons code codes ih => simp only [alternativeCourses, List.map_cons, ih]

end Code

/-- What happens when a rule is matched, with at most `depth` rules inside one another and at most
`limit` turns of a repetition. Where either bound is met, what happens later is missing. -/
def Program.events (p : Program) (limit : Nat) : Nat → String → State → List Event
  | 0, name, s => [.enter name s.location s.trace]
  | depth + 1, name, s =>
    .enter name s.location s.trace ::
      match p.body? name with
      | some body =>
        (body.course limit 0 (s.enter name)).events (p.ruleAction depth) (p.events limit depth)
      | none => []

namespace Parse.Action

/-- A repetition that moves on at every turn needs no more turns than characters are left. -/
lemma zeroOrMore_eq_of_lt {α : Type} {a : Action α} (ha : a.Advances) {m n : Nat} {s : State}
    (hs : s.location ≤ s.length) (hm : s.length - s.location < m) (hn : s.length - s.location < n) :
    zeroOrMore a m s = zeroOrMore a n s := by
  induction m generalizing n s with
  | zero => omega
  | succ m ih =>
    obtain ⟨n, rfl⟩ : ∃ k, n = k + 1 := ⟨n - 1, by omega⟩
    simp only [zeroOrMore]
    cases hrun : a s with
    | success value s' =>
      have hs' := ha.success hs hrun
      have hlength := hs'.length_eq
      have hstart := hs'.start_le
      have hwithin := hs'.within
      by_cases hstay : s'.location = s.location
      · simp only [hstay, if_true]
      · have hnext : zeroOrMore a m s' = zeroOrMore a n s' := ih hwithin (by omega) (by omega)
        simp only [hstay, if_false, hnext]
    | failure f s' => rfl
    | unfinished => rfl

end Parse.Action

namespace Course

variable {α β : Type} {invoke : String → Action (Option Tree)}

lemma run_andThen (c : Course α) (onSuccess : α → State → Course β)
    (onFailure : Failure → State → Course β) :
    (c.andThen onSuccess onFailure).run invoke =
      match c.run invoke with
      | .success value s => (onSuccess value s).run invoke
      | .failure f s => (onFailure f s).run invoke
      | .unfinished => .unfinished := by
  induction c with
  | success | failure | unfinished => rfl
  | event e rest ih => exact ih
  | call rule s next next' ih ih' =>
    simp only [andThen, run]
    cases invoke rule s with
    | success value s' => exact ih value s'
    | failure f s' => exact ih' f s'
    | unfinished => rfl

lemma run_map (c : Course α) (f : α → β) : (c.map f).run invoke = (c.run invoke).map f := by
  rw [map, run_andThen]
  cases c.run invoke <;> rfl

/-- Whether courses end as a step does, from locations within inputs shorter than `limit`. -/
def EndAs (invoke : String → Action (Option Tree)) (limit : Nat) (c : State → Course α)
    (a : Action α) : Prop :=
  ∀ s, s.location ≤ s.length → s.length < limit → (c s).run invoke = a s

variable {limit : Nat} {c : State → Course α} {a : Action α}

lemma endAs_primitive (a : Action α) : EndAs invoke limit (primitive a) a := by
  intro s _ _
  unfold primitive
  cases h : a s <;> rfl

lemma endAs_raising (a : Action α) : EndAs invoke limit (raising a) a := by
  intro s _ _
  unfold raising
  cases h : a s <;> rfl

lemma EndAs.map (h : EndAs invoke limit c a) (f : α → β) :
    EndAs invoke limit (fun s => (c s).map f) (fun s => (a s).map f) := by
  intro s hs hlimit
  rw [run_map, h s hs hlimit]

lemma EndAs.lookahead (h : EndAs invoke limit c a) :
    EndAs invoke limit (lookahead c) (Action.lookahead a) := by
  intro s hs hlimit
  unfold Course.lookahead Action.lookahead
  rw [run_andThen, h s hs hlimit]
  cases a s <;> rfl

lemma EndAs.notAhead (h : EndAs invoke limit c a) :
    EndAs invoke limit (notAhead c) (Action.notAhead a) := by
  intro s hs hlimit
  unfold Course.notAhead Action.notAhead
  rw [run_andThen, h s hs hlimit]
  cases a s with
  | success value s' => rfl
  | failure f s' =>
    dsimp only
    split <;> rfl
  | unfinished => rfl

lemma EndAs.collected {c : State → Course (List (Option Tree))} {a : Action (List (Option Tree))}
    (h : EndAs invoke limit c a) : EndAs invoke limit (collected c) (Action.collected a) := by
  intro s hs hlimit
  unfold Course.collected Action.collected
  rw [run_andThen, h s hs hlimit]
  cases a s <;> rfl

lemma EndAs.turns (h : EndAs invoke limit c a) (ha : a.Advances) (first n count : Nat) :
    EndAs invoke limit (turns c first n count) (Action.zeroOrMore a n) := by
  induction n generalizing count with
  | zero => exact fun _ _ _ => rfl
  | succ n ih =>
    intro s hs hlimit
    simp only [Course.turns, Action.zeroOrMore, run]
    rw [run_andThen, h s hs hlimit]
    cases hrun : a s with
    | success value s' =>
      have hs' := ha.success hs hrun
      dsimp only
      split
      · rfl
      · exact (ih (count + 1)).map (value :: ·) s' hs'.within (hs'.length_eq ▸ hlimit)
    | failure f s' =>
      dsimp only
      split <;> rfl
    | unfinished => rfl

lemma EndAs.zeroOrMore (h : EndAs invoke limit c a) (ha : a.Advances) :
    EndAs invoke limit (zeroOrMore c limit)
      (fun s => Action.zeroOrMore a (s.length - s.location + 1) s) := by
  intro s hs hlimit
  unfold Course.zeroOrMore
  rw [h.turns ha s.location limit 1 s hs hlimit]
  apply Action.zeroOrMore_eq_of_lt ha hs
  · omega
  · omega

lemma EndAs.oneOrMore (h : EndAs invoke limit c a) (ha : a.Advances) :
    EndAs invoke limit (oneOrMore c limit)
      (fun s => Action.oneOrMore a (s.length - s.location + 1) s) := by
  intro s hs hlimit
  simp only [Course.oneOrMore, Action.oneOrMore, run]
  rw [run_andThen, h s hs hlimit]
  cases hrun : a s with
  | success value s' =>
    have hs' := ha.success hs hrun
    have hlength := hs'.length_eq
    have hstart := hs'.start_le
    dsimp only
    split
    · rfl
    · have hnext : Action.zeroOrMore a limit s' =
          Action.zeroOrMore a (s.length - s.location + 1) s' :=
        Action.zeroOrMore_eq_of_lt ha hs'.within (by omega) (by omega)
      -- the course counts down from `limit`, the step from what is left of the input
      rw [run_map, h.turns ha s.location limit 2 s' hs'.within (hlength ▸ hlimit), hnext]
  | failure f s' => rfl
  | unfinished => rfl

lemma endAs_choiceFrom {courses : List (State → Course α)} {actions : List (Action α)}
    (h : List.Forall₂ (EndAs invoke limit) courses actions) (hadvances : ∀ a ∈ actions, a.Advances)
    (start : Nat) (farthest? : Option Failure) :
    EndAs invoke limit (choiceFrom start farthest? courses)
      (Action.choiceFrom start farthest? actions) := by
  induction h generalizing farthest? with
  | nil => exact fun _ _ _ => rfl
  | @cons c a _ _ hfirst _ ih =>
    intro s hs hlimit
    simp only [choiceFrom, Action.choiceFrom, run]
    rw [run_andThen, hfirst s hs hlimit]
    cases hrun : a s with
    | success value s' => rfl
    | failure f s' =>
      have hs' := (hadvances a (by simp)).failure hs hrun
      dsimp only
      split
      · rfl
      · apply ih fun b hb => hadvances b (by simp [hb])
        · exact min_le_right start s'.input.size
        · exact hs'.length_eq ▸ hlimit
    | unfinished => rfl

end Course

namespace Code

variable {invoke : String → Action (Option Tree)} {limit : Nat}

lemma endAs_stepsCourse {codes : List Code} (start : Nat)
    (h : ∀ c ∈ codes, ∀ start, Course.EndAs invoke limit (c.course limit start)
      (c.action invoke start))
    (hadvances : ∀ c ∈ codes, ∀ start, (c.action invoke start).Advances) :
    Course.EndAs invoke limit (stepsCourse limit start codes) (stepsAction invoke start codes) := by
  induction codes with
  | nil => exact fun _ _ _ => rfl
  | cons code codes ih =>
    intro s hs hlimit
    simp only [stepsCourse, stepsAction]
    rw [Course.run_andThen, h code (by simp) start s hs hlimit]
    cases hrun : code.action invoke start s with
    | success value s' =>
      have hs' := (hadvances code (by simp) start).success hs hrun
      have hcodes := ih (fun c hc => h c (by simp [hc])) fun c hc => hadvances c (by simp [hc])
      exact hcodes.map (value :: ·) s' hs'.within (hs'.length_eq ▸ hlimit)
    | failure f s' => rfl
    | unfinished => rfl

/-- The course of a fragment ends as the fragment does, whatever the limit of turns is that an input
cannot exhaust. -/
theorem endAs_course (hinvoke : ∀ name, (invoke name).Advances) (code : Code) (start : Nat) :
    Course.EndAs invoke limit (code.course limit start) (code.action invoke start) := by
  induction code using inductionOn generalizing start with
  | sequence steps ih =>
    intro s hs hlimit
    simp only [course, action]
    exact (endAs_stepsCourse s.location ih fun c _ => c.advances_action hinvoke).collected s hs hlimit
  | choice alternatives ih =>
    intro s hs hlimit
    simp only [course, action, alternativeCourses_eq_map, alternativeActions_eq_map]
    refine Course.endAs_choiceFrom ?_ ?_ s.location none s hs hlimit
    · rw [List.forall₂_map_left_iff, List.forall₂_map_right_iff, List.forall₂_same]
      exact fun c hc => ih c hc start
    · intro a ha
      obtain ⟨c, -, rfl⟩ := List.mem_map.mp ha
      exact c.advances_action hinvoke start
  | repetition kind body ih =>
    intro s hs hlimit
    have hbody := body.advances_action hinvoke s.location
    cases kind with
    | zeroOrMore =>
      simp only [course, action]
      exact ((ih s.location).zeroOrMore hbody).collected s hs hlimit
    | oneOrMore =>
      simp only [course, action]
      exact ((ih s.location).oneOrMore hbody).collected s hs hlimit
  | lookahead kind body ih =>
    cases kind with
    | positive =>
      simp only [course, action]
      exact (ih start).lookahead.map fun _ => none
    | negative =>
      simp only [course, action]
      exact (ih start).notAhead.map fun _ => none
  | labeled body ih =>
    intro s hs hlimit
    simp only [course, action]
    exact ih s.location s hs hlimit
  | throw label site =>
    simp only [course, action]
    exact Course.endAs_raising _
  | call rule site =>
    intro s hs hlimit
    simp only [course, action, Course.run]
    cases invoke rule s <;> rfl
  | builtin rule site => cases rule <;> simp only [course, action] <;> exact Course.endAs_primitive _
  | literal | range | any =>
    simp only [course, action]
    exact Course.endAs_primitive _
  | empty | procedure | program => exact fun _ _ _ => by simp only [course, action]; rfl

end Code

end LabeledPeg
