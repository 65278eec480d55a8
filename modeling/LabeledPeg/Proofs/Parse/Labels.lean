import LabeledPeg.Proofs.Parse.Evaluation
import LabeledPeg.Proofs.Parse.Position
import LabeledPeg.Proofs.Grammar.Nodes
import LabeledPeg.Proofs.Semantics.Phrase

/-!
# A label reports its own attempt

Wherever a run evaluates a labelled expression, the innermost rule is the one that the expression is
written in, and the latest failure is the one that its attempt ends with. So the label that is thrown
tells the rule, where the attempt began and where it failed, whatever rules and labels the attempt
met on the way.
-/

namespace LabeledPeg

open Parse

/-- What a label makes of the end of its attempt, from a state on: a match and a failure that commits
are left alone, and every other failure becomes one of the label, from where the attempt began up to
where it failed. -/
structure Parse.Action.Reports {α : Type} (label rule : String) (attempt labeled : Action α)
    (s : State) : Prop where
  success : ∀ value s', attempt s = .success value s' → labeled s = .success value s'
  failure : ∀ f s', attempt s = .failure f s' → s'.commits f = false →
    ∃ s'', labeled s = .failure (.labeled label (some rule) ⟨s.location, f.position⟩) s'' ∧
      s''.failure = f.position
  commit : ∀ f s', attempt s = .failure f s' → s'.commits f = true → labeled s = .failure f s'

namespace Code

variable {invoke : String → Action (Option Tree)} {attempt : Code} {label rule : String}
  {site : CallSite} {s : State}

/-- A label reports its own attempt if the attempt notes where it fails, and leaves the trace as it was. -/
lemma reports_labeled (haccounts : (attempt.action invoke s.location).Accounts)
    (hforward : (attempt.action invoke s.location).Forward) (hs : s.location ≤ s.length)
    (hrule : s.rule? = some rule) (start : Nat) :
    Action.Reports label rule (attempt.action invoke s.location)
      ((Code.labeled (.choice [attempt, .throw label site])).action invoke start) s := by
  have hends := haccounts s hs
  simp only [action, alternativeActions, Action.choice]
  constructor
  · intro value s' h
    simp only [Action.choiceFrom, h]
  · intro f s' h hf
    rw [h] at hends
    cases hends with
    | failure hs' hnoted =>
      let thrown : Failure := .labeled label (some rule) ⟨s.location, f.position⟩
      let noted : State := (s'.goto s.location).note thrown
      have hthrow : (Action.throwLabel label s.location : Action (Option Tree))
          (s'.goto s.location) = .failure thrown noted := by
        -- the rules that the attempt entered are left, and it failed at the place noted last
        have hrule' : (s'.goto s.location).rule? = some rule := by
          rw [← hrule]
          exact congrArg (fun trace => trace.head?.map TraceEntry.name) hs'.trace
        have hposition : max (s'.goto s.location).failure s.location = f.position := by
          change max s'.failure s.location = f.position
          rw [hnoted]
          exact max_eq_left (hforward s f s' hs h)
        simp only [Action.throwLabel, Action.failWith, hrule', hposition, noted, thrown]
      -- the label got as far as the attempt, and is the later one of the two
      have hfarther : Action.farther (some f) thrown = thrown := if_neg (lt_irrefl f.position)
      have hfirst : Action.farther none f = f := rfl
      simp only [Action.choiceFrom, h, hf, Bool.false_eq_true, if_false, hfirst, hthrow, hfarther,
        Option.getD_some]
      split
      · exact ⟨noted, rfl, rfl⟩
      · exact ⟨_, rfl, rfl⟩
  · intro f s' h hf
    simp only [Action.choiceFrom, h, hf, if_true]

end Code

/-! ## Where labels are written -/

namespace Code

variable {invoke : String → Action (Option Tree)} {code inner : Code} {steps : List Code}
  {start start' : Nat} {s s' : State} {g : Grammar}

lemma Evaluates.of_sequence (h : Evaluates invoke inner start' s' (.sequence steps) start s) :
    inner = .sequence steps ∨
      ∃ c ∈ steps, ∃ start s₁, Evaluates invoke inner start' s' c start s₁ := by
  generalize hcode : Code.sequence steps = code at h
  cases h with
  | self => exact .inl rfl
  | step _ h =>
    obtain rfl := Code.sequence.inj hcode
    exact .inr ⟨_, by simp, _, _, h⟩
  | alternative | turn | lookahead | labeled => cases hcode

lemma Evaluates.of_choice (h : Evaluates invoke inner start' s' (.choice steps) start s) :
    inner = .choice steps ∨
      ∃ c ∈ steps, ∃ start s₁, Evaluates invoke inner start' s' c start s₁ := by
  generalize hcode : Code.choice steps = code at h
  cases h with
  | self => exact .inl rfl
  | alternative _ h =>
    obtain rfl := Code.choice.inj hcode
    exact .inr ⟨_, by simp, _, _, h⟩
  | step | turn | lookahead | labeled => cases hcode

lemma not_evaluates_nameCode {name : String} {here : CallSite} :
    ¬ Evaluates invoke (.labeled inner) start' s' (g.nameCode name here) start s := by
  intro h
  unfold Grammar.nameCode at h
  split at h
  · cases h
  · split at h <;> cases h

end Code

namespace Expr

variable {invoke : String → Action (Option Tree)} {inner : Code} {start start' : Nat} {s s' : State}
  {g : Grammar}

/-- Whether a labelled fragment, given by what it does inside, is the code of a labelled node of an
expression. -/
def Writes (g : Grammar) (inner : Code) (e : Expr) : Prop :=
  ∃ label body span spaced here, (labeled label body span).Within e ∧
    .labeled inner = (labeled label body span).code g spaced here

lemma Writes.of_child {e child : Expr} (h : child.Writes g inner) (hchild : child ∈ e.children) :
    e.Writes g inner := by
  obtain ⟨label, body, span, spaced, here, hwithin, hcode⟩ := h
  exact ⟨label, body, span, spaced, here, .deeper hchild hwithin, hcode⟩

lemma exists_item_of_mem_codes {items : List Expr} {spaced : Bool} {c : Code}
    (h : c ∈ codes g spaced items) : ∃ item ∈ items, c = item.code g spaced .nested := by
  rw [codes_eq_map] at h
  obtain ⟨item, hitem, rfl⟩ := List.mem_map.mp h
  exact ⟨item, hitem, rfl⟩

lemma writes_choice {items : List Expr} {span : Span} {spaced : Bool} {here : CallSite}
    (ih : ∀ e ∈ items, ∀ {start s spaced here}, Code.Evaluates invoke (.labeled inner) start' s'
      (e.code g spaced here) start s → e.Writes g inner)
    (h : Code.Evaluates invoke (.labeled inner) start' s' ((choice items span).code g spaced here)
      start s) : ∃ e ∈ items, e.Writes g inner := by
  have hcodes : Code.Evaluates invoke (.labeled inner) start' s' (.choice (codes g spaced items))
      start s → ∃ e ∈ items, e.Writes g inner := by
    intro h
    obtain hself | ⟨c, hc, start, s₁, h⟩ := h.of_choice
    · cases hself
    · obtain ⟨item, hitem, rfl⟩ := exists_item_of_mem_codes hc
      exact ⟨item, hitem, ih item hitem h⟩
  match items with
  | [] =>
    simp only [code] at h
    exact hcodes h
  | [only] =>
    simp only [code] at h
    exact ⟨only, List.mem_cons_self, ih only List.mem_cons_self h⟩
  | _ :: _ :: _ =>
    simp only [code] at h
    exact hcodes h

/-- A labelled fragment that is evaluated in the code of an expression is written in it. -/
theorem writes_of_evaluates {e : Expr} {spaced : Bool} {here : CallSite}
    (h : Code.Evaluates invoke (.labeled inner) start' s' (e.code g spaced here) start s) :
    e.Writes g inner := by
  induction e using inductionOn generalizing spaced here start s with
  | any | literal | range | definition | imported | grammar =>
    simp only [code] at h
    cases h
  | identifier name span =>
    simp only [code] at h
    exact absurd h Code.not_evaluates_nameCode
  | charClass members span ih =>
    rw [code_charClass] at h
    obtain ⟨member, hmember, hwrites⟩ := writes_choice ih h
    exact hwrites.of_child hmember
  | choice alternatives span ih =>
    obtain ⟨alternative, halternative, hwrites⟩ := writes_choice ih h
    exact hwrites.of_child halternative
  | optional body span ih =>
    simp only [code] at h
    obtain hself | ⟨c, hc, start, s₁, h⟩ := h.of_choice
    · cases hself
    · rcases List.mem_pair.mp hc with rfl | rfl
      · exact (ih h).of_child List.mem_cons_self
      · cases h
  | zeroOrMore body span ih | oneOrMore body span ih =>
    simp only [code] at h
    cases h with
    | turn _ h => exact (ih h).of_child List.mem_cons_self
  | andPredicate body span ih | notPredicate body span ih =>
    simp only [code] at h
    cases h with
    | lookahead h => exact (ih h).of_child List.mem_cons_self
  | lexical body span ih =>
    simp only [code] at h
    exact (ih h).of_child List.mem_cons_self
  | labeled label body span ih =>
    simp only [code] at h
    cases h with
    | self => exact ⟨label, body, span, spaced, here, .self, by simp only [code]⟩
    | labeled h =>
      obtain hself | ⟨c, hc, start, s₁, h⟩ := h.of_choice
      · cases hself
      · rcases List.mem_pair.mp hc with rfl | rfl
        · exact (ih h).of_child List.mem_cons_self
        · cases h
  | sequence items span ih =>
    have hitem : ∀ {c : Code} {start : Nat} {s : State}, c ∈ codes g spaced items →
        Code.Evaluates invoke (.labeled inner) start' s' c start s →
          (sequence items span).Writes g inner := by
      intro c start s hc h
      obtain ⟨item, hitem, rfl⟩ := exists_item_of_mem_codes hc
      exact (ih item hitem h).of_child hitem
    simp only [code, Grammar.stepCodes] at h
    obtain hself | ⟨c, hc, start, s₁, h⟩ := h.of_sequence
    · cases hself
    · split at hc
      · obtain ⟨c', hc', hpair⟩ := List.mem_flatMap.mp hc
        rcases List.mem_pair.mp hpair with rfl | rfl
        · exact absurd h Code.not_evaluates_nameCode
        · exact hitem hc' h
      · exact hitem hc h

end Expr

namespace Grammar

variable {g : Grammar}

/-- A labelled fragment that a run evaluates in a rule is written in a definition of that rule. -/
lemma writes_of_evaluates {owner name : String} {left depth start' : Nat} {inner : Code} {s s' : State}
    (h : g.program.Evaluates owner left (.labeled inner) start' s' depth name s) :
    ∃ d ∈ g.definitions, d.name = owner ∧ d.body.Writes g inner := by
  induction h with
  | own hbody h =>
    rw [body?_program] at hbody
    obtain ⟨d, hd, rfl⟩ := Option.map_eq_some_iff.mp hbody
    obtain ⟨hmem, hname⟩ := definition?_eq_some_iff.mp hd
    exact ⟨d, hmem, hname, Expr.writes_of_evaluates h⟩
  | called _ _ _ ih => exact ih

/-- A label reports its own attempt. Every labelled fragment that a run evaluates in a rule is written
in a definition of that rule. Whichever labelled expression it is the code of, a match of the attempt
and a failure of it that commits are handed on; every other failure becomes one of the label, in that
rule, from where the attempt began to where it failed. -/
theorem Assembled.labeled_reports (hg : g.Assembled) :
    ∃ p, g.compile = .ok p ∧ ∀ (rule : String) (s : State), s.location ≤ s.length →
      ∀ (depth left : Nat) (owner : String) (inner : Code) (start : Nat) (s' : State),
        p.Evaluates owner left (.labeled inner) start s' depth rule s →
          (∃ d ∈ g.definitions, d.name = owner ∧ d.body.Writes g inner) ∧
          ∀ label e span spaced here, .labeled inner = (Expr.labeled label e span).code g spaced here →
            Action.Reports label owner
              ((e.code g spaced .nested).action (p.ruleAction left) s'.location)
              ((Code.labeled inner).action (p.ruleAction left) start) s' := by
  obtain ⟨hplain, hvalid⟩ := hg.isPlain_and_validate
  have hbody : ∀ name body, g.program.body? name = some body → body.Contract g := by
    intro name body hbody
    obtain ⟨q, hq, rfl⟩ := Option.map_eq_some_iff.mp hbody
    exact (contract_program hplain hvalid q (List.mem_of_find?_eq_some hq)).2
  refine ⟨g.program, hg.compile_eq, ?_⟩
  intro rule s hs depth left owner inner start s' h
  refine ⟨writes_of_evaluates h, fun label e span spaced here hcode => ?_⟩
  obtain ⟨hwithin, hrule⟩ := h.rule hs
  have hpart := h.part hbody
  simp only [Expr.code] at hcode
  rw [hcode] at hpart ⊢
  have hattempt : (e.code g spaced .nested).Contract g := by
    cases hpart with
    | contract h =>
      cases h with
      | labeled h => exact h
  exact Code.reports_labeled (Code.accounts_action (g.program.accounts_ruleAction left) _ _)
    (Code.forward_action (g.program.advances_ruleAction left) (Program.forward_ruleAction hbody left)
      hattempt _) hwithin hrule start

end Grammar

/-- The label is evaluated behind the first character, in a second call of the rule, where `b` is
missing. -/
theorem labeled_reports_countdown : ∃ s' s'' : State, s'.location = 1 ∧
    countdown.program.Evaluates "S" 0 (.labeled (.choice [.literal "b" .nested,
      .throw "expected" .nested])) 0 s' 2 "S" (.ofString "ax") ∧
    (Code.labeled (.choice [.literal "b" .nested, .throw "expected" .nested])).action
      (countdown.program.ruleAction 0) 0 s' =
        .failure (.labeled "expected" (some "S") ⟨1, 1⟩) s'' ∧ s''.failure = 1 := by
  let repeated : Code := .sequence [.builtin .spacing .nested, .literal "a" .nested,
    .builtin .spacing .nested, .call "S" .nested]
  let attempted : Code := .choice [.literal "b" .nested, .throw "expected" .nested]
  have hbody : countdown.program.body? "S" = some (.choice [repeated, .labeled attempted]) := rfl
  let inner : State := ⟨#['a', 'x'], 1, 0, [⟨"S", 1⟩, ⟨"S", 0⟩], .commit⟩
  let givenUp : State := { inner with failure := 1 }
  have hcall : Code.Evaluates (countdown.program.ruleAction 1) (.call "S" .nested) 0
      { inner with trace := [⟨"S", 0⟩] } (.choice [repeated, .labeled attempted]) 0
      ((State.ofString "ax").enter "S") := by
    refine .alternative (.nil : Code.GivenUp _ _ _ [] _ _) (.step (?_ : Code.Matched _ _
      [.builtin .spacing .nested, .literal "a" .nested, .builtin .spacing .nested] _ _) .self)
    exact .cons rfl (.cons rfl (.cons rfl .nil))
  have hlabel : Code.Evaluates (countdown.program.ruleAction 0) (.labeled attempted) 0 givenUp
      (.choice [repeated, .labeled attempted]) 0 inner :=
    .alternative (.cons rfl rfl .nil : Code.GivenUp _ _ _ [repeated] _ _) .self
  have hevaluates : countdown.program.Evaluates "S" 0 (.labeled attempted) 0 givenUp 2 "S"
      (.ofString "ax") := .called hbody hcall (.own hbody hlabel)
  obtain ⟨p, hp, h⟩ := Grammar.Assembled.labeled_reports assembled_countdown
  obtain rfl : countdown.program = p :=
    Except.ok.inj (assembled_countdown.compile_eq.symm.trans hp)
  obtain ⟨-, hreports⟩ := h "S" (.ofString "ax") (Nat.zero_le _) _ _ _ _ _ _ hevaluates
  have hattempt : (Code.literal "b" .nested).action (countdown.program.ruleAction 0) 1 givenUp =
      .failure (.mismatch "'b'" 'x' ⟨1, 1⟩) givenUp := rfl
  obtain ⟨s'', hrun, hnoted⟩ :=
    (hreports "expected" (.literal "b" ⟨13, 16⟩) ⟨13, 25⟩ true .nested rfl).failure _ _ hattempt rfl
  exact ⟨givenUp, s'', rfl, hevaluates, hrun, hnoted⟩

end LabeledPeg
