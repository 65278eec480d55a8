import LabeledPeg.Proofs.Grammar.Unlabeled
import LabeledPeg.Proofs.Parse.Mirror
import LabeledPeg.Proofs.Semantics.Phrase

/-!
# Labels only affect failures

Under the policy that goes back, a grammar matches what it matches without its labels, and returns
the same values. Under the policy that commits it does what it does under the other one, up to the
first label that is thrown.
-/

namespace LabeledPeg

open Parse

namespace Code

variable {policy : LabelPolicy} {invoke invoke₀ : String → Action (Option Tree)}

/-- Whether one fragment does what another one does in which labels end nothing, wherever the two
attempts began that a label is thrown for. -/
def Mirrored (policy : LabelPolicy) (invoke invoke₀ : String → Action (Option Tree))
    (c c₀ : Code) : Prop :=
  ∀ start start₀, Action.Mirrored policy (c.action invoke start) (c₀.action invoke₀ start₀)

lemma mirrored_stepsAction {steps steps₀ : List Code}
    (h : List.Forall₂ (Mirrored policy invoke invoke₀) steps steps₀) (start start₀ : Nat) :
    Action.Mirrored policy (stepsAction invoke start steps)
      (stepsAction invoke₀ start₀ steps₀) := by
  induction h with
  | nil =>
    simp only [stepsAction]
    exact Action.mirrored_succeed []
  | cons hc _ ih =>
    intro s s₀ hs
    simp only [stepsAction]
    apply (hc start start₀ s s₀ hs).bind
    intro value s' s₀' hs'
    exact (ih s' s₀' hs').map _

lemma mirrored_sequence {steps steps₀ : List Code}
    (h : List.Forall₂ (Mirrored policy invoke invoke₀) steps steps₀) :
    Mirrored policy invoke invoke₀ (.sequence steps) (.sequence steps₀) := by
  intro start start₀ s s₀ hs
  simp only [action]
  exact (mirrored_stepsAction h s.location s₀.location).collected s s₀ hs

lemma mirrored_choice {alternatives alternatives₀ : List Code}
    (h : List.Forall₂ (Mirrored policy invoke invoke₀) alternatives alternatives₀) :
    Mirrored policy invoke invoke₀ (.choice alternatives) (.choice alternatives₀) := by
  intro start start₀
  simp only [action, alternativeActions_eq_map]
  apply Action.mirrored_choice
  rw [List.forall₂_map_left_iff, List.forall₂_map_right_iff]
  exact h.imp fun c c₀ hc => hc start start₀

lemma mirrored_empty : Mirrored policy invoke invoke₀ .empty .empty := by
  intro start start₀
  simp only [action]
  exact Action.mirrored_succeed none

variable {c c₀ : Code}

lemma Mirrored.repetition (h : Mirrored policy invoke invoke₀ c c₀) (kind : Repetition) :
    Mirrored policy invoke invoke₀ (.repetition kind c) (.repetition kind c₀) := by
  intro start start₀ s s₀ hs
  have hbody := h s.location s₀.location
  cases kind with
  | zeroOrMore =>
    simp only [action, hs.length_eq, hs.location_eq] at hbody ⊢
    exact (hbody.zeroOrMore _).collected s s₀ hs
  | oneOrMore =>
    simp only [action, hs.length_eq, hs.location_eq] at hbody ⊢
    exact (hbody.oneOrMore _).collected s s₀ hs

lemma Mirrored.lookahead (h : Mirrored policy invoke invoke₀ c c₀) (kind : Lookahead) :
    Mirrored policy invoke invoke₀ (.lookahead kind c) (.lookahead kind c₀) := by
  intro start start₀ s s₀ hs
  cases kind with
  | positive =>
    simp only [action]
    exact ((h start start₀).lookahead s s₀ hs).map _
  | negative =>
    simp only [action]
    exact ((h start start₀).notAhead s s₀ hs).map _

lemma Mirrored.labeled (h : Mirrored policy invoke invoke₀ c c₀) :
    Mirrored policy invoke invoke₀ (.labeled c) (.labeled c₀) := by
  intro start start₀ s s₀ hs
  simp only [action]
  exact h s.location s₀.location s s₀ hs

lemma Mirrored.throwing (h : Mirrored .backtrack invoke invoke₀ c c₀) (label : String)
    (here : CallSite) :
    Mirrored .backtrack invoke invoke₀ (.labeled (.choice [c, .throw label here])) c₀ := by
  intro start start₀ s s₀ hs
  simp only [action, alternativeActions]
  exact (h s.location start₀).throwing label s.location s s₀ hs

lemma mirrored_builtin (b : Builtin) (here here₀ : CallSite) :
    Mirrored policy invoke invoke₀ (.builtin b here) (.builtin b here₀) := by
  intro start start₀
  cases b with
  | spacing =>
    simp only [action]
    exact Action.mirrored_spacing
  | eof =>
    simp only [action]
    exact Action.mirrored_eof

lemma mirrored_call (hinvoke : ∀ name, Action.Mirrored policy (invoke name) (invoke₀ name))
    (name : String) (here here₀ : CallSite) :
    Mirrored policy invoke invoke₀ (.call name here) (.call name here₀) := by
  intro start start₀
  simp only [action]
  exact hinvoke name

lemma mirrored_any (here here₀ : CallSite) :
    Mirrored policy invoke invoke₀ (.any here) (.any here₀) := by
  intro start start₀
  simp only [action]
  exact Action.mirrored_any

lemma mirrored_literal (value : String) (here here₀ : CallSite) :
    Mirrored policy invoke invoke₀ (.literal value here) (.literal value here₀) := by
  intro start start₀
  simp only [action]
  exact Action.mirrored_literal value

lemma mirrored_range (lo hi : Char) (here here₀ : CallSite) :
    Mirrored policy invoke invoke₀ (.range lo hi here) (.range lo hi here₀) := by
  intro start start₀
  simp only [action]
  exact Action.mirrored_range lo hi

/-- Under the policy that commits, a fragment does what it does under the other one, up to the first
label. -/
theorem mirrored_self (hinvoke : ∀ name, Action.Mirrored .commit (invoke name) (invoke₀ name))
    (c : Code) : Mirrored .commit invoke invoke₀ c c := by
  induction c using inductionOn with
  | sequence steps ih => exact mirrored_sequence (List.forall₂_same.mpr ih)
  | choice alternatives ih => exact mirrored_choice (List.forall₂_same.mpr ih)
  | empty => exact mirrored_empty
  | repetition kind body ih => exact ih.repetition kind
  | lookahead kind body ih => exact ih.lookahead kind
  | labeled body ih => exact ih.labeled
  | throw label site =>
    intro start start₀
    simp only [action]
    exact Action.mirrored_throwLabel label start start₀
  | call rule site => exact mirrored_call hinvoke rule site site
  | builtin rule site => exact mirrored_builtin rule site site
  | literal value site => exact mirrored_literal value site site
  | range lo hi site => exact mirrored_range lo hi site site
  | any site => exact mirrored_any site site
  | procedure | program =>
    intro start start₀
    simp only [action]
    exact Action.mirrored_succeed none

end Code

namespace Expr

open Code

variable {g g₀ : Grammar} {policy : LabelPolicy} {invoke invoke₀ : String → Action (Option Tree)}

lemma mirrored_nameCode (hinvoke : ∀ name, Action.Mirrored policy (invoke name) (invoke₀ name))
    {name : String} (hdefines : g₀.defines name = g.defines name) (here here₀ : CallSite) :
    Mirrored policy invoke invoke₀ (g.nameCode name here) (g₀.nameCode name here₀) := by
  unfold Grammar.nameCode
  rw [hdefines]
  split
  · exact mirrored_call hinvoke name here here₀
  · split
    · exact mirrored_builtin _ here here₀
    · exact mirrored_empty

lemma mirrored_stepCodes {codes codes₀ : List Code}
    (hgap : Mirrored policy invoke invoke₀ (g.nameCode spacingName .nested)
      (g₀.nameCode spacingName .nested))
    (h : List.Forall₂ (Mirrored policy invoke invoke₀) codes codes₀) (gaps : Bool) :
    List.Forall₂ (Mirrored policy invoke invoke₀) (g.stepCodes gaps codes)
      (g₀.stepCodes gaps codes₀) := by
  unfold Grammar.stepCodes
  split
  · induction h with
    | nil => exact .nil
    | cons hc _ ih => exact .cons hgap (.cons hc ih)
  · exact h

/-- Under the policy that goes back, an expression matches what it matches without its labels, and
returns the same. -/
theorem mirrored_unlabeled (hdefines : ∀ name, g₀.defines name = g.defines name)
    (hinvoke : ∀ name, Action.Mirrored .backtrack (invoke name) (invoke₀ name)) (e : Expr)
    (spaced : Bool) (here here₀ : CallSite) :
    Mirrored .backtrack invoke invoke₀ (e.code g spaced here)
      (e.unlabeled.code g₀ spaced here₀) := by
  have hitems : ∀ (items : List Expr) (spaced : Bool), (∀ e ∈ items, ∀ spaced here here₀,
        Mirrored .backtrack invoke invoke₀ (e.code g spaced here)
          (e.unlabeled.code g₀ spaced here₀)) →
      List.Forall₂ (Mirrored .backtrack invoke invoke₀) (codes g spaced items)
        (codes g₀ spaced (allUnlabeled items)) := by
    intro items spaced ih
    rw [codes_eq_map, codes_eq_map, allUnlabeled_eq_map, List.map_map,
      List.forall₂_map_left_iff, List.forall₂_map_right_iff, List.forall₂_same]
    exact fun e he => ih e he spaced .nested .nested
  have hchoice : ∀ (items : List Expr) (span : Span) (spaced : Bool) (here here₀ : CallSite),
      (∀ e ∈ items, ∀ spaced here here₀,
        Mirrored .backtrack invoke invoke₀ (e.code g spaced here)
          (e.unlabeled.code g₀ spaced here₀)) →
      Mirrored .backtrack invoke invoke₀ ((choice items span).code g spaced here)
        ((choice (allUnlabeled items) span).code g₀ spaced here₀) := by
    intro items span spaced here here₀ ih
    match items with
    | [] =>
      simp only [allUnlabeled, code, codes]
      exact mirrored_choice .nil
    | [only] =>
      simp only [allUnlabeled, code]
      exact ih only (by simp) spaced here here₀
    | first :: second :: others =>
      have h := mirrored_choice (hitems (first :: second :: others) spaced ih)
      simp only [allUnlabeled] at h
      simp only [allUnlabeled, code]
      exact h
  induction e using inductionOn generalizing spaced here here₀ with
  | any span =>
    simp only [unlabeled, code]
    exact mirrored_any here here₀
  | literal value span =>
    simp only [unlabeled, code]
    exact mirrored_literal value here here₀
  | identifier name span =>
    simp only [unlabeled, code]
    exact mirrored_nameCode hinvoke (hdefines name) here here₀
  | range lo hi span =>
    simp only [unlabeled, code]
    exact mirrored_range lo hi here here₀
  | charClass members span ih =>
    rw [unlabeled, code_charClass, code_charClass]
    exact hchoice members span spaced here here₀ ih
  | optional body span ih =>
    simp only [unlabeled, code]
    exact mirrored_choice (.cons (ih spaced .nested .nested) (.cons mirrored_empty .nil))
  | zeroOrMore body span ih | oneOrMore body span ih =>
    simp only [unlabeled, code]
    exact (ih spaced .nested .nested).repetition _
  | andPredicate body span ih | notPredicate body span ih =>
    simp only [unlabeled, code]
    exact (ih spaced .nested .nested).lookahead _
  | lexical body span ih =>
    simp only [unlabeled, code]
    exact ih false here here₀
  | labeled label body span ih =>
    simp only [unlabeled, code]
    exact (ih spaced .nested here₀).throwing label .nested
  | sequence items span ih =>
    simp only [unlabeled, code, allSyntactic_allUnlabeled]
    apply mirrored_sequence
    apply mirrored_stepCodes _ (hitems items spaced ih)
    exact mirrored_nameCode hinvoke (hdefines spacingName) .nested .nested
  | choice alternatives span ih =>
    rw [unlabeled]
    exact hchoice alternatives span spaced here here₀ ih
  | definition | imported | grammar =>
    simp only [unlabeled, code]
    exact mirrored_empty

end Expr

namespace Program

theorem mirrored_ruleAction (p : Program) (depth : Nat) (name : String) :
    Action.Mirrored .commit (p.ruleAction depth name) (p.ruleAction depth name) := by
  induction depth generalizing name with
  | zero => exact Action.mirrored_cutOff
  | succ depth ih =>
    unfold ruleAction
    cases p.body? name with
    | some body => exact (Code.mirrored_self ih body 0 0).traced name
    | none => exact Action.mirrored_cutOff

lemma mirrors_parse (p : Program) {s s₀ : State} (hs : s.Peers .commit s₀) (name : String) :
    Mirrors .commit (p.parse name s) (p.parse name s₀) := by
  unfold parse
  rw [hs.length_eq]
  exact p.mirrored_ruleAction _ name s s₀ hs

end Program

namespace Grammar

variable (g : Grammar)

lemma body?_program_unlabeled (name : String) :
    g.unlabeled.program.body? name = (g.definition? name).map fun d =>
      d.body.unlabeled.code g.unlabeled (!g.quietRules.contains d.name) .rule := by
  rw [body?_program, quietRules_unlabeled, unlabeled, definition?_mapBodies, Option.map_map]
  rfl

theorem mirrored_ruleAction_unlabeled (depth : Nat) (name : String) :
    Action.Mirrored .backtrack (g.program.ruleAction depth name)
      (g.unlabeled.program.ruleAction depth name) := by
  induction depth generalizing name with
  | zero => exact Action.mirrored_cutOff
  | succ depth ih =>
    unfold Program.ruleAction
    rw [body?_program, body?_program_unlabeled]
    cases g.definition? name with
    | some d =>
      have hdefines : ∀ name, g.unlabeled.defines name = g.defines name := defines_mapBodies
      have hbody := Expr.mirrored_unlabeled hdefines ih d.body (!g.quietRules.contains d.name)
        .rule .rule
      exact (hbody 0 0).traced name
    | none => exact Action.mirrored_cutOff

lemma mirrors_parse_unlabeled {s s₀ : State} (hs : s.Peers .backtrack s₀) (name : String) :
    Mirrors .backtrack (g.program.parse name s) (g.unlabeled.program.parse name s₀) := by
  have hlength : g.unlabeled.program.procedures.length = g.program.procedures.length := by
    simp only [program, unlabeled, mapBodies, List.length_map]
  unfold Program.parse
  rw [hlength, hs.length_eq]
  exact g.mirrored_ruleAction_unlabeled _ name s s₀ hs

end Grammar

namespace Parse.Mirrors

variable {α : Type} {o o₀ : Outcome Failure State α}

lemma exists_success_iff (h : Mirrors .backtrack o o₀) (value : α) (i : Nat) :
    (∃ s, o = .success value s ∧ s.location = i) ↔
      ∃ s₀, o₀ = .success value s₀ ∧ s₀.location = i := by
  cases h with
  | @success value' s s₀ hs =>
    constructor
    · rintro ⟨_, hrun, rfl⟩
      obtain ⟨rfl, rfl⟩ := Outcome.success.inj hrun
      exact ⟨s₀, rfl, hs.location_eq⟩
    · rintro ⟨_, hrun, rfl⟩
      obtain ⟨rfl, rfl⟩ := Outcome.success.inj hrun
      exact ⟨s, rfl, hs.location_eq.symm⟩
  | failure => simp
  | committed _ _ hcommit => cases hcommit
  | unfinished => simp

lemma exists_failure_iff (h : Mirrors .backtrack o o₀) :
    (∃ f s, o = .failure f s) ↔ ∃ f₀ s₀, o₀ = .failure f₀ s₀ := by
  cases h with
  | success => simp
  | failure => simp
  | committed _ _ hcommit => cases hcommit
  | unfinished => simp

lemma exists_success {value : α} {s : State} (h : Mirrors .commit (.success value s) o₀) :
    ∃ s₀, o₀ = .success value s₀ ∧ s₀.location = s.location := by
  cases h with
  | @success _ _ s₀ hs => exact ⟨s₀, rfl, hs.location_eq⟩

lemma exists_failure {f : Failure} {s : State} (hf : f.isLabeled = false)
    (h : Mirrors .commit (.failure f s) o₀) :
    ∃ s₀, o₀ = .failure f s₀ ∧ s₀.location = s.location := by
  cases h with
  | @failure _ f₀ _ s₀ hf₀ _ _ hlocation =>
    rw [hf₀.eq_of_commit rfl]
    exact ⟨s₀, rfl, hlocation rfl⟩
  | committed hlabel =>
    rw [hf] at hlabel
    cases hlabel

end Parse.Mirrors

/-- Labels only affect failures. Under the policy that goes back, a rule of an assembled grammar
returns a value and ends at a place exactly if it does so in the grammar without labels, and fails
exactly if it fails there. If it returns a value or fails without a label under the policy that
commits, it does the same, and ends at the same place, under the policy that goes back. -/
theorem Grammar.Assembled.parse_unlabeled {g : Grammar} (hg : g.Assembled) :
    ∃ p p₀, g.compile = .ok p ∧ g.unlabeled.compile = .ok p₀ ∧ ∀ rule ∈ g.names,
      (∀ s s₀ : State, s.Peers .backtrack s₀ →
        (∀ tree? i, (∃ s', p.parse rule s = .success tree? s' ∧ s'.location = i) ↔
          ∃ s', p₀.parse rule s₀ = .success tree? s' ∧ s'.location = i) ∧
        ((∃ f s', p.parse rule s = .failure f s') ↔ ∃ f s', p₀.parse rule s₀ = .failure f s')) ∧
      ∀ s s₀ : State, s.Peers .commit s₀ → s₀.policy = .backtrack →
        (∀ tree? s', p.parse rule s = .success tree? s' →
          ∃ s₁, p.parse rule s₀ = .success tree? s₁ ∧ s₁.location = s'.location) ∧
        ∀ f s', p.parse rule s = .failure f s' → f.isLabeled = false →
          ∃ s₁, p.parse rule s₀ = .failure f s₁ ∧ s₁.location = s'.location := by
  refine ⟨g.program, g.unlabeled.program, hg.compile_eq, hg.compile_unlabeled, fun rule _ => ?_⟩
  constructor
  · intro s s₀ hs
    have hmirrors := g.mirrors_parse_unlabeled hs rule
    exact ⟨hmirrors.exists_success_iff, hmirrors.exists_failure_iff⟩
  · intro s s₀ hs _
    have hmirrors := g.program.mirrors_parse hs rule
    refine ⟨fun tree? s' hrun => ?_, fun f s' hrun hf => ?_⟩
    · rw [hrun] at hmirrors
      exact hmirrors.exists_success
    · rw [hrun] at hmirrors
      exact hmirrors.exists_failure hf

/-- Without its label the grammar matches the same text, and fails where the label is thrown. -/
theorem parse_unlabeled_countdown :
    (∃ tree? s', countdown.unlabeled.program.parse "S" (.ofString "a b") = .success tree? s' ∧
      s'.location = 3) ∧
    (∃ f s', countdown.unlabeled.program.parse "S" (.ofString "x") = .failure f s') ∧
    ∃ tree? s', countdown.program.parse "S" { State.ofString "a b" with policy := .backtrack } =
      .success tree? s' ∧ s'.location = 3 := by
  obtain ⟨p, p₀, hp, hp₀, h⟩ := Grammar.Assembled.parse_unlabeled assembled_countdown
  obtain rfl : countdown.program = p :=
    Except.ok.inj (assembled_countdown.compile_eq.symm.trans hp)
  obtain rfl : countdown.unlabeled.program = p₀ :=
    Except.ok.inj (assembled_countdown.compile_unlabeled.symm.trans hp₀)
  obtain ⟨hback, hcommit⟩ := h "S" (by decide)
  have hpeers : ∀ text, State.Peers .backtrack { State.ofString text with policy := .backtrack }
      (.ofString text) := fun _ => ⟨rfl, rfl, rfl⟩
  obtain ⟨tree?, s', hrun, hstop⟩ : ∃ tree? s', countdown.program.parse "S" (.ofString "a b") =
      .success tree? s' ∧ s'.location = 3 := ⟨_, _, rfl, rfl⟩
  obtain ⟨s₁, hrun₁, hstop₁⟩ := (hcommit (.ofString "a b") { State.ofString "a b" with
    policy := .backtrack } ⟨rfl, rfl, rfl⟩ rfl).1 tree? s' hrun
  have hmatched := ((hback _ _ (hpeers "a b")).1 tree? 3).mp ⟨s₁, hrun₁, hstop₁.trans hstop⟩
  have hfailed := (hback _ _ (hpeers "x")).2.mp ⟨_, _, rfl⟩
  exact ⟨⟨tree?, hmatched⟩, hfailed, tree?, s₁, hrun₁, hstop₁.trans hstop⟩

end LabeledPeg
