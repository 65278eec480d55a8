import LabeledPeg.Proofs.Grammar.Closure
import LabeledPeg.Proofs.Parse.Orderly
import LabeledPeg.Proofs.Parse.Stable

/-!
# The first label is final

Under the policy that commits, a label that is thrown is the last thing that happens in a run, and
the run fails with just that label. A run that fails with a label has thrown it.
-/

namespace LabeledPeg

open Parse

/-- What happens in a run and how it ends, if labels are final: either a label is thrown last of all
and the run fails with it, or there is no label. -/
inductive Final {α : Type} (events : List Event) (o : Outcome Failure State α) : Prop
  | thrown {before : List Event} {f : Failure} {s : State} (hevents : events = before ++ [.raise f])
    (hbefore : ∀ f', .raise f' ∉ before) (hlabel : f.isLabeled = true) (ho : o = .failure f s)
  | quiet (hevents : ∀ f, .raise f ∉ events) (ho : ∀ f s, o = .failure f s → f.isLabeled = false)

namespace Final

variable {α : Type} {events : List Event} {o : Outcome Failure State α}

lemma success (hevents : ∀ f, .raise f ∉ events) (value : α) (s : State) :
    Final events (.success value s) := by
  apply Final.quiet hevents
  intro f s' ho
  cases ho

lemma unfinished (hevents : ∀ f, .raise f ∉ events) :
    Final events (.unfinished : Outcome Failure State α) := by
  apply Final.quiet hevents
  intro f s' ho
  cases ho

lemma append {before : List Event} (hbefore : ∀ f, .raise f ∉ before) (h : Final events o) :
    Final (before ++ events) o := by
  cases h with
  | @thrown middle f s hevents hmiddle hlabel ho =>
    have happend : before ++ events = before ++ middle ++ [.raise f] := by
      rw [hevents, List.append_assoc]
    refine .thrown happend (fun f' hmem => ?_) hlabel ho
    rcases List.mem_append.mp hmem with hmem | hmem
    · exact hbefore f' hmem
    · exact hmiddle f' hmem
  | quiet hevents ho =>
    refine .quiet (fun f hmem => ?_) ho
    rcases List.mem_append.mp hmem with hmem | hmem
    · exact hbefore f hmem
    · exact hevents f hmem

lemma mapState (h : Final events o) (g : State → State) : Final events (o.mapState g) := by
  cases h with
  | thrown hevents hbefore hlabel ho => exact .thrown hevents hbefore hlabel (by rw [ho]; rfl)
  | quiet hevents ho =>
    refine .quiet hevents fun f s hf => ?_
    cases o with
    | failure f' s' => exact (Outcome.failure.inj hf).1 ▸ ho f' s' rfl
    | success | unfinished => cases hf

end Final

lemma Event.Local.ne_raise {s : State} {e : Event} (h : e.Local s) (f : Failure) :
    .raise f ≠ e := by
  rintro rfl
  exact h

lemma Parse.State.commits_eq_isLabeled {s : State} (h : s.policy = .commit) (f : Failure) :
    s.commits f = f.isLabeled := by
  rw [commits, h, beq_self_eq_true, Bool.and_true]

/-- Labels are final in an orderly course, if they are in the rules that it calls. -/
theorem Course.Orderly.final {α : Type} {calls : String → Prop} {limit : Nat} {s : State}
    {c : Course α} (h : c.Orderly calls limit s) (hpolicy : s.policy = .commit)
    {invoke : String → Action (Option Tree)} (hinvoke : ∀ name, (invoke name).Advances)
    {inside : String → State → List Event}
    (hinside : ∀ rule s', s.Advanced s' → Final (inside rule s') (invoke rule s')) :
    Final (c.events invoke inside) (c.run invoke) := by
  have hcommits := State.commits_eq_isLabeled hpolicy
  have hnone : ∀ f, .raise f ∉ ([] : List Event) := fun _ => List.not_mem_nil
  induction h with
  | success => exact .success hnone _ _
  | failure _ hf =>
    apply Final.quiet hnone
    intro f s' ho
    rw [← (Outcome.failure.inj ho).1, ← hcommits, hf]
  | unfinished => exact .unfinished hnone
  | @event e _ he _ ih =>
    have hevent : ∀ f, .raise f ∉ [e] := fun f hmem => he.ne_raise f (List.mem_singleton.mp hmem)
    exact ih.append hevent
  | raise hlabel hf =>
    rw [hcommits, hlabel] at hf
    cases hf
  | @commit f s' _ hf =>
    rw [hcommits] at hf
    exact .thrown (List.nil_append _).symm hnone hf rfl
  | @call rule s' onSuccess onFailure hrule hs' _ _ hcommit ih ih' =>
    simp only [events, run]
    have hwithin := hs'.within
    cases hinside rule s' hs' with
    | @thrown before f last hevents hbefore hlabel ho =>
      -- what the rule fails with is handed on, and nothing happens on the way
      have hlast : s'.Advanced last := (hinvoke rule).failure hwithin ho
      obtain ⟨end', -, heq⟩ := hcommit f last hlast ((hcommits f).trans hlabel)
      simp only [ho, heq]
      exact .thrown (hevents ▸ List.append_nil _) hbefore hlabel rfl
    | quiet hevents ho =>
      cases hrun : invoke rule s' with
      | success value last => exact (ih value last ((hinvoke rule).success hwithin hrun)).append hevents
      | failure f last =>
        have hf : s.commits f = false := (hcommits f).trans (ho f last hrun)
        exact (ih' f last ((hinvoke rule).failure hwithin hrun) hf).append hevents
      | unfinished =>
        apply Final.unfinished
        rwa [List.append_nil]

namespace Program

variable {limit : Nat} {name : String} {s : State}

theorem final_ruleAction (p : Program) (depth : Nat) (hs : s.location ≤ s.length)
    (hlimit : s.length < limit) (hpolicy : s.policy = .commit) :
    Final (p.events limit depth name s) (p.ruleAction depth name s) := by
  have henter : ∀ f, .raise f ∉ [Event.enter name s.location s.trace] := by simp
  induction depth generalizing name s with
  | zero => exact .unfinished henter
  | succ depth ih =>
    unfold events ruleAction
    cases hbody : p.body? name with
    | none => exact .unfinished henter
    | some body =>
      have hadvances := p.advances_ruleAction depth
      have hcourse : (body.course limit 0 (s.enter name)).Orderly (fun _ => True) limit (s.enter name) :=
        Code.steady_course (fun _ _ => trivial) 0 (s.enter name) hs
      have hinside : ∀ rule s', (s.enter name).Advanced s' →
          Final (p.events limit depth rule s') (p.ruleAction depth rule s') := by
        intro rule s' hs'
        exact ih hs'.within (hs'.length_eq ▸ hlimit) (hs'.policy.trans hpolicy) (by simp)
      have hfinal := hcourse.final hpolicy hadvances hinside
      rw [body.endAs_course hadvances 0 (s.enter name) hs hlimit] at hfinal
      exact (hfinal.mapState State.leave).append henter

end Program

/-- Under the policy that commits, the first label that a run throws is final. Nothing happens after
it, no other one was thrown before it, and the rule fails with just this label; and a rule fails with
a label only if it was thrown in the run. -/
theorem Grammar.Assembled.raise_final {g : Grammar} (hg : g.Assembled) :
    ∃ p, g.compile = .ok p ∧ ∀ rule ∈ g.names, ∀ s : State, s.location ≤ s.length →
      s.policy = .commit → ∀ limit, s.length < limit →
      (∀ depth f, .raise f ∈ p.events limit depth rule s →
        (∃ before, p.events limit depth rule s = before ++ [.raise f] ∧ ∀ f', .raise f' ∉ before) ∧
        f.isLabeled = true ∧ ∃ s', p.parse rule s = .failure f s') ∧
      ∀ f s', p.parse rule s = .failure f s' → f.isLabeled = true →
        ∃ depth, .raise f ∈ p.events limit depth rule s := by
  refine ⟨g.program, hg.compile_eq, fun rule _ s hs hpolicy limit hlimit => ⟨?_, ?_⟩⟩
  · intro depth f hraise
    have hfinal : Final (g.program.events limit depth rule s) (g.program.ruleAction depth rule s) :=
      g.program.final_ruleAction depth hs hlimit hpolicy
    cases hfinal with
    | @thrown before f' s' hevents hbefore hlabel hrun =>
      rw [hevents, List.mem_append, List.mem_singleton] at hraise
      obtain rfl : f = f' := Event.raise.inj (hraise.resolve_left (hbefore f))
      have hparse := Program.parse_eq_ruleAction hs (by rw [hrun]; simp)
      exact ⟨⟨before, hevents, hbefore⟩, hlabel, s', hparse.trans hrun⟩
    | quiet hevents _ => exact absurd hraise (hevents f)
  · intro f s' hparse hlabel
    let depth := g.program.procedures.length * (s.length + 1)
    have hfinal : Final (g.program.events limit depth rule s) (g.program.ruleAction depth rule s) :=
      g.program.final_ruleAction depth hs hlimit hpolicy
    refine ⟨depth, ?_⟩
    cases hfinal with
    | @thrown before f' s₁ hevents _ _ hrun =>
      obtain ⟨rfl, -⟩ := Outcome.failure.inj (hparse.symm.trans hrun)
      rw [hevents]
      simp
    | quiet _ ho =>
      rw [ho f s' hparse] at hlabel
      cases hlabel

/-- The label is thrown at the second character, inside two calls of the rule. -/
theorem raise_final_countdown : ∃ before f s',
    countdown.program.events 3 2 "S" (.ofString "ax") = before ++ [.raise f] ∧
      (∀ f', .raise f' ∉ before) ∧ countdown.program.parse "S" (.ofString "ax") = .failure f s' ∧
      f.label? = some "expected" := by
  obtain ⟨p, hp, h⟩ := Grammar.Assembled.raise_final assembled_countdown
  obtain rfl : countdown.program = p :=
    Except.ok.inj (assembled_countdown.compile_eq.symm.trans hp)
  obtain ⟨hraise, -⟩ := h "S" (by decide) (.ofString "ax") (Nat.zero_le _) rfl 3 (by decide)
  have hmem : .raise (.labeled "expected" (some "S") ⟨1, 1⟩) ∈
      countdown.program.events 3 2 "S" (.ofString "ax") := List.mem_of_getLast? rfl
  obtain ⟨⟨before, hevents, hbefore⟩, -, s', hrun⟩ := hraise 2 _ hmem
  exact ⟨before, _, s', hevents, hbefore, hrun, rfl⟩

end LabeledPeg
