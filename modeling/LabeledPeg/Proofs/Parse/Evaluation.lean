import LabeledPeg.Proofs.Program.Contract
import LabeledPeg.Proofs.Parse.Motion

/-!
# What a run evaluates

A run evaluates fragments inside fragments: a step once the steps before it have matched, an
alternative once the ones before it were given up, the body of a repetition at each turn, and the body
of a rule where the rule is called. A run depends on nothing but what it evaluates. A fragment is
evaluated behind the place where the run began, and inside the rule that it is written in.
-/

namespace LabeledPeg

open Parse

namespace Code

section

variable (invoke : String → Action (Option Tree))

/-- Whether steps match one after the other. -/
inductive Matched (start : Nat) : List Code → State → State → Prop
  | nil {s : State} : Matched start [] s s
  | cons {code : Code} {codes : List Code} {value : Option Tree} {s s' s'' : State}
    (h : code.action invoke start s = .success value s') (hrest : Matched start codes s' s'') :
    Matched start (code :: codes) s s''

/-- Whether alternatives are given up one after the other: each fails without committing, and the
next one is tried from `place`. -/
inductive GivenUp (start place : Nat) : List Code → State → State → Prop
  | nil {s : State} : GivenUp start place [] s s
  | cons {code : Code} {codes : List Code} {f : Failure} {s s' s'' : State}
    (h : code.action invoke start s = .failure f s') (hf : s'.commits f = false)
    (hrest : GivenUp start place codes (s'.goto place) s'') : GivenUp start place (code :: codes) s s''

/-- Whether the body of a repetition matches, and moves on, some times. -/
inductive Turned (start : Nat) (body : Code) : State → State → Prop
  | refl {s : State} : Turned start body s s
  | turn {value : Option Tree} {s s' s'' : State} (h : body.action invoke start s = .success value s')
    (hmoved : s'.location ≠ s.location) (hrest : Turned start body s' s'') : Turned start body s s''

/-- Whether a run of a fragment evaluates the fragment `inner` in the state `s'`, with the start of its
surroundings at `start'`. -/
inductive Evaluates (inner : Code) (start' : Nat) (s' : State) : Code → Nat → State → Prop
  | self : Evaluates inner start' s' inner start' s'
  | step {before after : List Code} {code : Code} {start : Nat} {s s₁ : State}
    (hbefore : Matched invoke s.location before s s₁)
    (h : Evaluates inner start' s' code s.location s₁) :
    Evaluates inner start' s' (.sequence (before ++ code :: after)) start s
  | alternative {before after : List Code} {code : Code} {start : Nat} {s s₁ : State}
    (hbefore : GivenUp invoke start s.location before s s₁)
    (h : Evaluates inner start' s' code start s₁) :
    Evaluates inner start' s' (.choice (before ++ code :: after)) start s
  | turn {kind : Repetition} {body : Code} {start : Nat} {s s₁ : State}
    (hbefore : Turned invoke s.location body s s₁)
    (h : Evaluates inner start' s' body s.location s₁) :
    Evaluates inner start' s' (.repetition kind body) start s
  | lookahead {kind : Lookahead} {body : Code} {start : Nat} {s : State}
    (h : Evaluates inner start' s' body start s) :
    Evaluates inner start' s' (.lookahead kind body) start s
  | labeled {body : Code} {start : Nat} {s : State} (h : Evaluates inner start' s' body s.location s) :
    Evaluates inner start' s' (.labeled body) start s

end

variable {invoke invoke' : String → Action (Option Tree)} {code inner : Code} {codes : List Code}
  {start start' place : Nat} {s s' s₁ : State}

/-! ## What is evaluated is all that counts -/

lemma stepsAction_eq_of_matched (h : ∀ before c after s₁, codes = before ++ c :: after →
      Matched invoke start before s s₁ → c.action invoke start s₁ = c.action invoke' start s₁) :
    stepsAction invoke start codes s = stepsAction invoke' start codes s := by
  induction codes generalizing s with
  | nil => simp only [stepsAction]
  | cons c codes ih =>
    simp only [stepsAction, ← h [] c codes s rfl .nil]
    cases hc : c.action invoke start s with
    | success value s₁ =>
      have hrest := ih fun before c' after s₂ heq hbefore =>
        h (c :: before) c' after s₂ (congrArg (c :: ·) heq) (.cons hc hbefore)
      simp only [Outcome.bind_success, hrest]
    | failure f s₁ => rfl
    | unfinished => rfl

lemma choiceFrom_eq_of_givenUp {farthest? : Option Failure}
    (h : ∀ before c after s₁, codes = before ++ c :: after →
      GivenUp invoke start place before s s₁ → c.action invoke start s₁ = c.action invoke' start s₁) :
    Action.choiceFrom place farthest? (codes.map (action invoke start)) s =
      Action.choiceFrom place farthest? (codes.map (action invoke' start)) s := by
  induction codes generalizing farthest? s with
  | nil => rfl
  | cons c codes ih =>
    simp only [List.map_cons, Action.choiceFrom, ← h [] c codes s rfl .nil]
    cases hc : c.action invoke start s with
    | failure f s₁ =>
      dsimp only
      split
      · rfl
      · next hf =>
        exact ih fun before c' after s₂ heq hbefore =>
          h (c :: before) c' after s₂ (congrArg (c :: ·) heq) (.cons hc (by simpa using hf) hbefore)
    | success value s₁ => rfl
    | unfinished => rfl

lemma zeroOrMore_eq_of_turned (limit : Nat) (h : ∀ s₁, Turned invoke start code s s₁ →
      code.action invoke start s₁ = code.action invoke' start s₁) :
    Action.zeroOrMore (code.action invoke start) limit s =
      Action.zeroOrMore (code.action invoke' start) limit s := by
  induction limit generalizing s with
  | zero => rfl
  | succ limit ih =>
    simp only [Action.zeroOrMore, ← h s .refl]
    cases hc : code.action invoke start s with
    | success value s₁ =>
      dsimp only
      split
      · rfl
      · next hmoved => rw [ih fun s₂ hturned => h s₂ (.turn hc hmoved hturned)]
    | failure f s₁ => rfl
    | unfinished => rfl

lemma oneOrMore_eq_of_turned (limit : Nat) (h : ∀ s₁, Turned invoke start code s s₁ →
      code.action invoke start s₁ = code.action invoke' start s₁) :
    Action.oneOrMore (code.action invoke start) limit s =
      Action.oneOrMore (code.action invoke' start) limit s := by
  simp only [Action.oneOrMore, ← h s .refl]
  cases hc : code.action invoke start s with
  | success value s₁ =>
    dsimp only
    split
    · rfl
    · next hmoved =>
      rw [zeroOrMore_eq_of_turned limit fun s₂ hturned => h s₂ (.turn hc hmoved hturned)]
  | failure f s₁ => rfl
  | unfinished => rfl

/-- The calls that a run of a fragment evaluates, in the states in which it does, are all that the run
depends on. -/
theorem action_eq_of_evaluates (h : ∀ rule site start' s',
      Evaluates invoke (.call rule site) start' s' code start s → invoke rule s' = invoke' rule s') :
    code.action invoke start s = code.action invoke' start s := by
  induction code using inductionOn generalizing start s with
  | sequence steps ih =>
    have hsteps : stepsAction invoke s.location steps s = stepsAction invoke' s.location steps s := by
      refine stepsAction_eq_of_matched fun before c after s₁ heq hbefore => ?_
      exact ih c (heq ▸ by simp) fun rule site start' s' hcall =>
        h rule site start' s' (heq ▸ .step hbefore hcall)
    simp only [action, Action.collected, hsteps]
  | choice alternatives ih =>
    simp only [action, alternativeActions_eq_map, Action.choice]
    refine choiceFrom_eq_of_givenUp fun before c after s₁ heq hbefore => ?_
    exact ih c (heq ▸ by simp) fun rule site start' s' hcall =>
      h rule site start' s' (heq ▸ .alternative hbefore hcall)
  | repetition kind body ih =>
    have hbody : ∀ s₁, Turned invoke s.location body s s₁ →
        body.action invoke s.location s₁ = body.action invoke' s.location s₁ := fun s₁ hbefore =>
      ih fun rule site start' s' hcall => h rule site start' s' (.turn hbefore hcall)
    cases kind with
    | zeroOrMore =>
      have hturns := zeroOrMore_eq_of_turned (s.length - s.location + 1) hbody
      simp only [action, Action.collected, hturns]
    | oneOrMore =>
      have hturns := oneOrMore_eq_of_turned (s.length - s.location + 1) hbody
      simp only [action, Action.collected, hturns]
  | lookahead kind body ih =>
    have hbody := ih fun rule site start' s' hcall => h rule site start' s' (.lookahead hcall)
    cases kind <;> simp only [action, Action.lookahead, Action.notAhead, hbody]
  | labeled body ih =>
    simp only [action]
    exact ih fun rule site start' s' hcall => h rule site start' s' (.labeled hcall)
  | call rule site =>
    simp only [action]
    exact h rule site start s .self
  | builtin rule site => cases rule <;> simp only [action]
  | empty | throw | literal | range | any | procedure | program => simp only [action]

/-! ## The state of an evaluation -/

lemma Matched.advanced (hinvoke : ∀ name, (invoke name).Advances)
    (h : Matched invoke start codes s s₁) (hs : s.location ≤ s.length) : s.Advanced s₁ := by
  induction h with
  | nil => exact .refl hs
  | @cons code _ _ _ _ _ hcode _ ih =>
    have hs' := (advances_action hinvoke code start).success hs hcode
    exact hs'.trans (ih hs'.within)

lemma GivenUp.advanced (hinvoke : ∀ name, (invoke name).Advances)
    (h : GivenUp invoke start place codes s s₁) (hs : s.location ≤ s.length)
    (hplace : s.location = place) : s.Advanced s₁ := by
  induction h with
  | nil => exact .refl hs
  | @cons code _ _ _ _ _ hcode _ _ ih =>
    subst hplace
    obtain ⟨hback, hlocation⟩ := ((advances_action hinvoke code start).failure hs hcode).goto hs
    exact hback.trans (ih hback.within hlocation)

lemma Turned.advanced (hinvoke : ∀ name, (invoke name).Advances)
    (h : Turned invoke start code s s₁) (hs : s.location ≤ s.length) : s.Advanced s₁ := by
  induction h with
  | refl => exact .refl hs
  | turn hcode _ _ ih =>
    have hs' := (advances_action hinvoke code start).success hs hcode
    exact hs'.trans (ih hs'.within)

/-- What is evaluated in a run of a fragment is evaluated behind the place where the run began, and
inside the same rules. -/
lemma Evaluates.advanced (hinvoke : ∀ name, (invoke name).Advances)
    (h : Evaluates invoke inner start' s' code start s) (hs : s.location ≤ s.length) :
    s.Advanced s' := by
  induction h with
  | self => exact .refl hs
  | step hbefore _ ih =>
    have hs₁ := hbefore.advanced hinvoke hs
    exact hs₁.trans (ih hs₁.within)
  | alternative hbefore _ ih =>
    have hs₁ := hbefore.advanced hinvoke hs rfl
    exact hs₁.trans (ih hs₁.within)
  | turn hbefore _ ih =>
    have hs₁ := hbefore.advanced hinvoke hs
    exact hs₁.trans (ih hs₁.within)
  | lookahead _ ih | labeled _ ih => exact ih hs

/-- The form of what can be evaluated in a fragment of the parser of `g`. -/
inductive Part (g : Grammar) : Code → Prop
  | contract {code : Code} (h : code.Contract g) : Part g code
  | attempted {attempt : Code} {label : String} {site : CallSite} (h : attempt.Contract g) :
    Part g (.choice [attempt, .throw label site])
  | throw {label : String} {site : CallSite} : Part g (.throw label site)
  | empty : Part g .empty

variable {g : Grammar}

lemma Part.of_step {steps : List Code} (h : Part g (.sequence steps)) : ∀ c ∈ steps, Part g c := by
  cases h with
  | contract h =>
    cases h with
    | sequence h => exact fun c hc => .contract (h c hc)

lemma Part.of_alternative {alternatives : List Code} (h : Part g (.choice alternatives)) :
    ∀ c ∈ alternatives, Part g c := by
  cases h with
  | contract h =>
    cases h with
    | choice _ h => exact fun c hc => .contract (h c hc)
    | optional h => exact List.forall_mem_cons.mpr ⟨.contract h, List.forall_mem_singleton.mpr .empty⟩
  | attempted h => exact List.forall_mem_cons.mpr ⟨.contract h, List.forall_mem_singleton.mpr .throw⟩

lemma Evaluates.part (h : Evaluates invoke inner start' s' code start s) (hcode : Part g code) :
    Part g inner := by
  induction h with
  | self => exact hcode
  | step _ _ ih => exact ih (hcode.of_step _ (by simp))
  | alternative _ _ ih => exact ih (hcode.of_alternative _ (by simp))
  | turn _ _ ih =>
    cases hcode with
    | contract h =>
      cases h with
      | repetition h => exact ih (.contract h)
  | lookahead _ ih =>
    cases hcode with
    | contract h =>
      cases h with
      | lookahead h => exact ih (.contract h)
  | labeled _ ih =>
    cases hcode with
    | contract h =>
      cases h with
      | labeled h => exact ih (.attempted h)

end Code

namespace Program

/-- Whether matching a rule, with at most so many rules inside one another, evaluates the fragment
`inner` in the body of the rule `owner`, in the state `s'`, with `left` more rules inside it at most. -/
inductive Evaluates (p : Program) (owner : String) (left : Nat) (inner : Code) (start' : Nat)
    (s' : State) : Nat → String → State → Prop
  | own {body : Code} {s : State} (hbody : p.body? owner = some body)
    (h : Code.Evaluates (p.ruleAction left) inner start' s' body 0 (s.enter owner)) :
    Evaluates p owner left inner start' s' (left + 1) owner s
  | called {depth : Nat} {rule callee : String} {site : CallSite} {body : Code} {start : Nat}
    {s s₁ : State} (hbody : p.body? rule = some body)
    (hcall : Code.Evaluates (p.ruleAction depth) (.call callee site) start s₁ body 0 (s.enter rule))
    (h : Evaluates p owner left inner start' s' depth callee s₁) :
    Evaluates p owner left inner start' s' (depth + 1) rule s

variable {p : Program} {owner name : String} {left depth start' : Nat} {inner : Code} {s s' : State}

/-- A fragment is evaluated in the rule that it is written in. -/
lemma Evaluates.rule (h : p.Evaluates owner left inner start' s' depth name s)
    (hs : s.location ≤ s.length) : s'.location ≤ s'.length ∧ s'.rule? = some owner := by
  induction h with
  | @own _ s _ h =>
    have hs' := h.advanced (p.advances_ruleAction left) hs
    refine ⟨hs'.within, ?_⟩
    rw [State.rule?, hs'.trace]
    rfl
  | called _ hcall _ ih => exact ih (hcall.advanced (p.advances_ruleAction _) hs).within

lemma Evaluates.part {g : Grammar} (hbody : ∀ name body, p.body? name = some body → body.Contract g)
    (h : p.Evaluates owner left inner start' s' depth name s) : Code.Part g inner := by
  induction h with
  | own hown h => exact h.part (.contract (hbody _ _ hown))
  | called _ _ _ ih => exact ih

end Program

end LabeledPeg
