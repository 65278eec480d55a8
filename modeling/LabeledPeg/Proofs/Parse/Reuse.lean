import LabeledPeg.Proofs.Grammar.Closure
import LabeledPeg.Proofs.Parse.Shift
import LabeledPeg.Proofs.Parse.Stable
import LabeledPeg.Proofs.Semantics.Phrase

/-!
# A parser has no memory

Whatever a parser was used for before, a rule matches at the current location as it does in a fresh
parser on the rest of the input. The latest failure may be an old one, but a label is thrown only
after the attempt that it is for has failed, and the trace is empty between two parses.
-/

namespace LabeledPeg

open Parse

/-- The form of the code of an expression. Labels are thrown after a labelled attempt, and nowhere
else. -/
inductive Code.Emitted : Code → Prop
  | sequence {steps : List Code} (h : ∀ c ∈ steps, Emitted c) : Emitted (.sequence steps)
  | choice {alternatives : List Code} (h : ∀ c ∈ alternatives, Emitted c) :
    Emitted (.choice alternatives)
  | empty : Emitted .empty
  | repetition {kind : Repetition} {body : Code} (h : Emitted body) :
    Emitted (.repetition kind body)
  | lookahead {kind : Lookahead} {body : Code} (h : Emitted body) : Emitted (.lookahead kind body)
  | labeled {attempt : Code} {label : String} {site : CallSite} (h : Emitted attempt) :
    Emitted (.labeled (.choice [attempt, .throw label site]))
  | call {rule : String} {site : CallSite} : Emitted (.call rule site)
  | builtin {rule : Builtin} {site : CallSite} : Emitted (.builtin rule site)
  | literal {value : String} {site : CallSite} : Emitted (.literal value site)
  | range {lo hi : Char} {site : CallSite} : Emitted (.range lo hi site)
  | any {site : CallSite} : Emitted (.any site)

namespace Expr

variable {g : Grammar}

lemma emitted_nameCode (name : String) (here : CallSite) : (g.nameCode name here).Emitted := by
  unfold Grammar.nameCode
  split
  · exact .call
  · split
    · exact .builtin
    · exact .empty

lemma emitted_code (e : Expr) (spaced : Bool) (here : CallSite) :
    (e.code g spaced here).Emitted := by
  have hchoice : ∀ (items : List Expr) (span : Span) (spaced : Bool) (here : CallSite),
      (∀ e ∈ items, ∀ spaced here, (e.code g spaced here).Emitted) →
      ((choice items span).code g spaced here).Emitted := by
    intro items span spaced here ih
    match items with
    | [] =>
      simp only [code, codes]
      exact .choice (List.forall_mem_nil _)
    | [only] =>
      simp only [code]
      exact ih only (by simp) spaced here
    | first :: second :: others =>
      simp only [code, codes_eq_map]
      apply Code.Emitted.choice
      intro c hc
      obtain ⟨item, hitem, rfl⟩ := List.mem_map.mp hc
      exact ih item hitem spaced .nested
  induction e using inductionOn generalizing spaced here with
  | any => simp only [code]; exact .any
  | literal => simp only [code]; exact .literal
  | range => simp only [code]; exact .range
  | identifier name span => simp only [code]; exact emitted_nameCode name here
  | charClass members span ih =>
    rw [code_charClass]
    exact hchoice members span spaced here ih
  | choice alternatives span ih => exact hchoice alternatives span spaced here ih
  | optional body span ih =>
    simp only [code]
    exact .choice (List.forall_mem_cons.mpr
      ⟨ih spaced .nested, List.forall_mem_singleton.mpr .empty⟩)
  | zeroOrMore body span ih | oneOrMore body span ih =>
    simp only [code]
    exact .repetition (ih spaced .nested)
  | andPredicate body span ih | notPredicate body span ih =>
    simp only [code]
    exact .lookahead (ih spaced .nested)
  | lexical body span ih =>
    simp only [code]
    exact ih false here
  | labeled label body span ih =>
    simp only [code]
    exact .labeled (ih spaced .nested)
  | sequence items span ih =>
    simp only [code, codes_eq_map, Grammar.stepCodes]
    apply Code.Emitted.sequence
    intro c hc
    split at hc
    · obtain ⟨step, hstep, hmem⟩ := List.mem_flatMap.mp hc
      obtain ⟨item, hitem, rfl⟩ := List.mem_map.mp hstep
      rcases List.mem_pair.mp hmem with rfl | rfl
      · exact emitted_nameCode spacingName .nested
      · exact ih item hitem spaced .nested
    · obtain ⟨item, hitem, rfl⟩ := List.mem_map.mp hc
      exact ih item hitem spaced .nested
  | definition | imported | grammar => simp only [code]; exact .empty

end Expr

lemma Grammar.emitted_of_body? {g : Grammar} {name : String} {body : Code}
    (h : g.program.body? name = some body) : body.Emitted := by
  rw [Grammar.body?_program] at h
  obtain ⟨d, -, rfl⟩ := Option.map_eq_some_iff.mp h
  exact Expr.emitted_code _ _ _

namespace Code

variable {input : Array Char} {k : Nat} {failed : Bool} {invoke : String → Action (Option Tree)}

lemma follows_stepsAction {codes : List Code}
    (h : ∀ c ∈ codes, ∀ start start₀,
      Action.Follows input k failed (Tree.shiftOption k) (c.action invoke start)
        (c.action invoke start₀)) (start start₀ : Nat) :
    Action.Follows input k failed (List.map (Tree.shiftOption k)) (stepsAction invoke start codes)
      (stepsAction invoke start₀ codes) := by
  induction codes with
  | nil =>
    simp only [stepsAction]
    exact Action.follows_succeed rfl
  | cons code codes ih =>
    intro s s₀ hs
    simp only [stepsAction]
    apply (h code (by simp) start start₀ s s₀ hs).bind
    intro value s' s₀' hs'
    have hcodes := ih fun c hc => h c (by simp [hc])
    exact (hcodes s' s₀' hs').map fun _ => by rw [List.map_cons]

/-- The code of an expression does the same further on in the input, if rules do. -/
theorem follows_action (hinvoke : ∀ name failed,
      Action.Follows input k failed (Tree.shiftOption k) (invoke name) (invoke name))
    {code : Code} (h : code.Emitted) (failed : Bool) (start start₀ : Nat) :
    Action.Follows input k failed (Tree.shiftOption k) (code.action invoke start)
      (code.action invoke start₀) := by
  induction h generalizing failed start start₀ with
  | sequence _ ih =>
    intro s s₀ hs
    simp only [action]
    exact (follows_stepsAction (fun c hc => ih c hc failed) s.location s₀.location).collected s s₀ hs
  | @choice alternatives _ ih =>
    simp only [action, alternativeActions_eq_map]
    cases alternatives with
    | nil => exact Action.follows_choice_nil
    | cons first others =>
      apply (ih first (by simp) failed start start₀).choice
      rw [List.forall₂_map_left_iff, List.forall₂_map_right_iff, List.forall₂_same]
      exact fun c hc => ih c (by simp [hc]) true start start₀
  | empty =>
    simp only [action]
    exact Action.follows_succeed rfl
  | @repetition kind body _ ih =>
    intro s s₀ hs
    have hlimit : s.length - s.location + 1 = s₀.length - s₀.location + 1 := by
      rw [hs.length_eq, hs.location]
      omega
    have hbody := ih failed s.location s₀.location
    cases kind with
    | zeroOrMore =>
      simp only [action, hlimit]
      exact (hbody.zeroOrMore _).collected s s₀ hs
    | oneOrMore =>
      simp only [action, hlimit]
      exact (hbody.oneOrMore _).collected s s₀ hs
  | @lookahead kind body _ ih =>
    intro s s₀ hs
    cases kind with
    | positive =>
      simp only [action]
      exact ((ih failed start start₀).lookahead s s₀ hs).map fun _ => rfl
    | negative =>
      simp only [action]
      exact ((ih failed start start₀).notAhead s s₀ hs).map fun _ => rfl
  | @labeled attempt label site _ ih =>
    intro s s₀ hs
    have hthrow : Action.Follows input k true (Tree.shiftOption k)
        (Action.throwLabel label s.location) (Action.throwLabel label s₀.location) := by
      rw [hs.location]
      exact Action.follows_throwLabel label s₀.location
    -- the label is thrown only after the attempt has failed, and the failure was noted
    simp only [action, alternativeActions]
    exact (ih failed s.location s₀.location).choice (.cons hthrow .nil) s s₀ hs
  | call =>
    simp only [action]
    exact hinvoke _ failed
  | @builtin rule site =>
    cases rule with
    | spacing =>
      simp only [action]
      exact Action.follows_spacing
    | eof =>
      simp only [action]
      exact Action.follows_eof
  | literal =>
    simp only [action]
    exact Action.follows_literal _
  | range =>
    simp only [action]
    exact Action.follows_range _ _
  | any =>
    simp only [action]
    exact Action.follows_any

end Code

/-- A parser with nothing behind it, with the same policy, on the rest of the input. -/
def Parse.State.fresh (s : State) : State :=
  { State.ofString (String.ofList s.rest) with policy := s.policy }

/-- The states that a parser of a text can be in between two steps, each of them a parse, a move or a
change of the policy. -/
inductive Program.Reached (p : Program) (text : String) : State → Prop
  | start : Reached p text (.ofString text)
  | parse {name : String} {s s' : State} (h : Reached p text s)
    (hrun : (p.parse name s).state? = some s') : Reached p text s'
  | goto {s : State} (h : Reached p text s) (place : Nat) : Reached p text (s.goto place)
  | setPolicy {s : State} (h : Reached p text s) (policy : LabelPolicy) :
    Reached p text { s with policy }

namespace Program

variable {p : Program} {s : State}

lemma Reached.idle {text : String} (h : p.Reached text s) :
    s.trace = [] ∧ s.location ≤ s.length := by
  induction h with
  | start => exact ⟨rfl, Nat.zero_le _⟩
  | @parse name s s' _ hrun ih =>
    have hs' := p.advances_ruleAction _ name s s' ih.2 hrun
    exact ⟨hs'.trace.trans ih.1, hs'.within⟩
  | goto _ place ih => exact ⟨ih.1, min_le_right _ _⟩
  | setPolicy _ policy ih => exact ih

lemma twin_fresh (hs : s.location ≤ s.length) (htrace : s.trace = []) :
    Twin s.input s.location false s s.fresh := by
  refine ⟨rfl, ?_, hs, (Nat.zero_add _).symm, hs, rfl, htrace, Bool.noConfusion⟩
  simp only [State.fresh, State.ofString, State.rest, String.toList_ofList]

theorem follows_ruleAction (hp : ∀ name body, p.body? name = some body → body.Emitted)
    {input : Array Char} {k : Nat} (depth : Nat) (name : String) (failed : Bool) :
    Action.Follows input k failed (Tree.shiftOption k) (p.ruleAction depth name)
      (p.ruleAction depth name) := by
  induction depth generalizing name failed with
  | zero => exact Action.follows_cutOff
  | succ depth ih =>
    unfold ruleAction
    cases hbody : p.body? name with
    | some body => exact (Code.follows_action ih (hp name body hbody) failed 0 0).traced name
    | none => exact Action.follows_cutOff

/-- A parser and a fresh one on the rest of its input end in the same way. -/
theorem endsAlike_parse (hp : ∀ name body, p.body? name = some body → body.Emitted)
    (hs : s.location ≤ s.length) (htrace : s.trace = []) (name : String) :
    EndsAlike s.input s.location false (Tree.shiftOption s.location) (p.parse name s)
      (p.parse name s.fresh) := by
  have htwin := twin_fresh hs htrace
  -- the depth for all of the input is enough for the rest of it
  have hlength := htwin.length_eq
  have hdepth : p.procedures.length * (s.fresh.length + 1) ≤ p.procedures.length * (s.length + 1) :=
    Nat.mul_le_mul_left _ (by omega)
  have hrun := follows_ruleAction hp (p.procedures.length * (s.length + 1)) name false s s.fresh htwin
  rw [ruleAction_eq_parse (Nat.zero_le _) hdepth] at hrun
  exact hrun

end Program

/-- A parser of an assembled grammar can be used again and again. Whatever was done with it before,
a rule matches as it does in a fresh parser on the rest of the input: it returns the same tree or
failure further on, ends further on, and a failure leaves the same latest failure. -/
theorem Grammar.Assembled.parse_reused {g : Grammar} (hg : g.Assembled) :
    ∃ p, g.compile = .ok p ∧ ∀ text s, p.Reached text s → ∀ rule ∈ g.names,
      (∀ tree? s₀, p.parse rule s.fresh = .success tree? s₀ →
        ∃ s', p.parse rule s = .success (tree?.map (Tree.shift s.location)) s' ∧
          s'.location = s₀.location + s.location ∧ s'.trace = []) ∧
      (∀ f s₀, p.parse rule s.fresh = .failure f s₀ →
        ∃ s', p.parse rule s = .failure (f.shift s.location) s' ∧
          s'.location = s₀.location + s.location ∧ s'.failure = s₀.failure + s.location ∧
          s'.trace = []) ∧
      (p.parse rule s.fresh = .unfinished ↔ p.parse rule s = .unfinished) := by
  refine ⟨g.program, hg.compile_eq, fun text s hreached rule _ => ?_⟩
  obtain ⟨htrace, hs⟩ := hreached.idle
  have hemitted : ∀ name body, g.program.body? name = some body → body.Emitted :=
    fun _ _ => Grammar.emitted_of_body?
  have halike := Program.endsAlike_parse hemitted hs htrace rule
  have hidle : ∀ s', (g.program.parse rule s).state? = some s' → s'.trace = [] :=
    fun s' hrun => (hreached.parse hrun).idle.1
  generalize g.program.parse rule s = o at halike hidle ⊢
  generalize g.program.parse rule s.fresh = o₀ at halike ⊢
  cases halike with
  | @success value value₀ s' s₀ hvalue hs' =>
    refine ⟨fun tree? s₁ h => ?_, fun f s₁ h => ?_, ?_⟩
    · obtain ⟨rfl, rfl⟩ := Outcome.success.inj h
      exact ⟨s', hvalue ▸ rfl, hs'.location, hidle s' rfl⟩
    · cases h
    · simp
  | @failure f s' s₀ hs' =>
    refine ⟨fun tree? s₁ h => ?_, fun f s₁ h => ?_, ?_⟩
    · cases h
    · obtain ⟨rfl, rfl⟩ := Outcome.failure.inj h
      exact ⟨s', rfl, hs'.location, hs'.failure rfl, hidle s' rfl⟩
    · simp
  | unfinished =>
    refine ⟨fun tree? s₁ h => ?_, fun f s₁ h => ?_, ?_⟩
    · cases h
    · cases h
    · simp

/-- The first parse fails at the second character, and the next one begins behind it. -/
theorem parse_reused_countdown : ∃ s, countdown.program.Reached "axa b" s ∧ s.location = 2 ∧
    s.failure = 1 ∧ ∃ (tree? : Option Tree) (s' : State), countdown.program.parse "S" s =
      .success (tree?.map (Tree.shift s.location)) s' ∧ s'.location = 5 := by
  obtain ⟨p, hp, h⟩ := Grammar.Assembled.parse_reused assembled_countdown
  obtain rfl : countdown.program = p :=
    Except.ok.inj (assembled_countdown.compile_eq.symm.trans hp)
  have hfailed : (countdown.program.parse "S" (.ofString "axa b")).state? =
      some ⟨"axa b".toList.toArray, 1, 1, [], .commit⟩ := rfl
  have hreached := Program.Reached.goto (.parse .start hfailed) 2
  obtain ⟨tree?, s₀, hfresh, hstop⟩ : ∃ tree? s₀, countdown.program.parse "S"
      (State.goto ⟨"axa b".toList.toArray, 1, 1, [], .commit⟩ 2).fresh = .success tree? s₀ ∧
        s₀.location = 3 := ⟨_, _, rfl, rfl⟩
  obtain ⟨s', hrun, hlocation, -⟩ := (h _ _ hreached "S" (by decide)).1 tree? s₀ hfresh
  rw [hstop] at hlocation
  exact ⟨_, hreached, rfl, rfl, tree?, s', hrun, hlocation⟩

end LabeledPeg
