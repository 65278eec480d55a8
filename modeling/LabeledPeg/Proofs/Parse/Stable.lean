import LabeledPeg.Proofs.Parse.Depth

/-!
# What a greater depth leaves as it is

A run that ends at some depth ends in the same way at every greater one: with the same value or
error, and in the same state. So the parser of a rule returns exactly if some depth lets it return,
and then it returns just that.
-/

namespace LabeledPeg

open Parse

namespace Parse.Action

variable {α β : Type}

/-- Whether one step ends as another one does, wherever that one ends. -/
def Below (a a' : Action α) : Prop := ∀ s, a s ≠ .unfinished → a' s = a s

variable {a a' : Action α}

lemma Below.refl (a : Action α) : a.Below a := fun _ _ => rfl

/-- What is made of the end of a step, and of nothing else that the step does. -/
lemma Below.strict (h : a.Below a') (next : State → Outcome Failure State α → Outcome Failure State β)
    (hnext : ∀ s, next s .unfinished = .unfinished) :
    Below (fun s => next s (a s)) (fun s => next s (a' s)) := by
  intro s hs
  have ha : a s ≠ .unfinished := by
    intro hrun
    exact hs (by simp only [hrun, hnext])
  simp only [h s ha]

lemma Below.map (h : a.Below a') (f : α → β) :
    Below (fun s => (a s).map f) (fun s => (a' s).map f) :=
  h.strict (fun _ o => o.map f) fun _ => rfl

lemma Below.traced (h : a.Below a') (name : String) : (traced name a).Below (traced name a') := by
  intro s hs
  unfold Action.traced at hs ⊢
  have ha : a (s.enter name) ≠ .unfinished := by
    intro hrun
    exact hs (by rw [hrun]; rfl)
  rw [h _ ha]

lemma Below.lookahead (h : a.Below a') : (lookahead a).Below (lookahead a') :=
  h.strict (fun s o => Action.lookahead (fun _ => o) s) fun _ => rfl

lemma Below.notAhead (h : a.Below a') : (notAhead a).Below (notAhead a') :=
  h.strict (fun s o => Action.notAhead (fun _ => o) s) fun _ => rfl

lemma Below.collected {a a' : Action (List (Option Tree))} (h : a.Below a') :
    (collected a).Below (collected a') :=
  h.strict (fun s o => Action.collected (fun _ => o) s) fun _ => rfl

lemma Below.choiceFrom {alternatives : List (Action α × Action α)}
    (h : ∀ p ∈ alternatives, p.1.Below p.2) (start : Nat) (farthest? : Option Failure) :
    (choiceFrom start farthest? (alternatives.map Prod.fst)).Below
      (choiceFrom start farthest? (alternatives.map Prod.snd)) := by
  induction alternatives generalizing farthest? with
  | nil => exact .refl _
  | cons p alternatives ih =>
    intro s hs
    simp only [List.map_cons, Action.choiceFrom] at hs ⊢
    cases hrun : p.1 s with
    | unfinished => simp [hrun] at hs
    | success value s₁ =>
      rw [h p (by simp) s (by simp [hrun]), hrun]
    | failure f s₁ =>
      rw [h p (by simp) s (by simp [hrun]), hrun]
      simp only [hrun] at hs ⊢
      by_cases hf : s₁.commits f = true
      · rw [if_pos hf, if_pos hf]
      · rw [if_neg hf] at hs
        rw [if_neg hf, if_neg hf]
        exact ih (fun q hq => h q (by simp [hq])) _ _ hs

lemma Below.choice {alternatives : List (Action α × Action α)}
    (h : ∀ p ∈ alternatives, p.1.Below p.2) :
    (choice (alternatives.map Prod.fst)).Below (choice (alternatives.map Prod.snd)) :=
  fun s hs => Below.choiceFrom h s.location none s hs

lemma Below.zeroOrMore (h : a.Below a') (limit : Nat) :
    (zeroOrMore a limit).Below (zeroOrMore a' limit) := by
  induction limit with
  | zero => exact .refl _
  | succ limit ih =>
    intro s hs
    simp only [Action.zeroOrMore] at hs ⊢
    cases hrun : a s with
    | unfinished => simp [hrun] at hs
    | success value s₁ =>
      rw [h s (by simp [hrun]), hrun]
      simp only [hrun] at hs ⊢
      split at hs
      · next hstay => simp only [hstay, if_true]
      · next hstay =>
        simp only [hstay, if_false]
        exact ih.map (value :: ·) s₁ hs
    | failure f s₁ => rw [h s (by simp [hrun]), hrun]

lemma Below.oneOrMore (h : a.Below a') (limit : Nat) :
    (oneOrMore a limit).Below (oneOrMore a' limit) := by
  intro s hs
  simp only [Action.oneOrMore] at hs ⊢
  cases hrun : a s with
  | unfinished => simp [hrun] at hs
  | success value s₁ =>
    rw [h s (by simp [hrun]), hrun]
    simp only [hrun] at hs ⊢
    split at hs
    · next hstay => simp only [hstay, if_true]
    · next hstay =>
      simp only [hstay, if_false]
      exact (h.zeroOrMore limit).map (value :: ·) s₁ hs
  | failure f s₁ => rw [h s (by simp [hrun]), hrun]

end Parse.Action

namespace Code

variable {invoke invoke' : String → Action (Option Tree)}

lemma below_stepsAction {codes : List Code} (start : Nat)
    (h : ∀ c ∈ codes, ∀ start, (c.action invoke start).Below (c.action invoke' start)) :
    (stepsAction invoke start codes).Below (stepsAction invoke' start codes) := by
  induction codes with
  | nil => exact .refl _
  | cons code codes ih =>
    intro s hs
    simp only [stepsAction] at hs ⊢
    cases hrun : code.action invoke start s with
    | unfinished => simp [hrun] at hs
    | success value s₁ =>
      rw [h code (by simp) start s (by simp [hrun]), hrun]
      rw [hrun] at hs
      exact (ih fun c hc => h c (by simp [hc])).map (value :: ·) s₁ hs
    | failure f s₁ =>
      rw [h code (by simp) start s (by simp [hrun]), hrun]
      rfl

theorem below_action (h : ∀ name, (invoke name).Below (invoke' name)) (code : Code) (start : Nat) :
    (code.action invoke start).Below (code.action invoke' start) := by
  induction code using inductionOn generalizing start with
  | sequence steps ih =>
    intro s hs
    simp only [action] at hs ⊢
    exact (below_stepsAction s.location ih).collected s hs
  | choice alternatives ih =>
    let pairs := alternatives.map fun c => (c.action invoke start, c.action invoke' start)
    have hpairs : ∀ p ∈ pairs, p.1.Below p.2 := by
      intro p hp
      obtain ⟨c, hc, rfl⟩ := List.mem_map.mp hp
      exact ih c hc start
    have hchoice := Action.Below.choice hpairs
    simp only [pairs, List.map_map] at hchoice
    simp only [action, alternativeActions_eq_map]
    exact hchoice
  | repetition kind body ih =>
    intro s hs
    cases kind <;> simp only [action] at hs ⊢
    · exact ((ih s.location).zeroOrMore _).collected s hs
    · exact ((ih s.location).oneOrMore _).collected s hs
  | lookahead kind body ih =>
    cases kind <;> simp only [action]
    · exact (ih start).lookahead.map fun _ => none
    · exact (ih start).notAhead.map fun _ => none
  | labeled body ih =>
    intro s hs
    simp only [action] at hs ⊢
    exact ih s.location s hs
  | call rule site =>
    simp only [action]
    exact h rule
  | builtin rule site => cases rule <;> simp only [action] <;> exact .refl _
  | empty | throw | literal | range | any | procedure | program =>
    simp only [action]
    exact .refl _

end Code

lemma Outcome.ne_unfinished_iff {α : Type} {o : Outcome Failure State α} :
    o ≠ .unfinished ↔ ∃ v, o.verdict? = some v := by
  cases o <;> simp [verdict?]

namespace Program

variable {p q : Program} {name : String} {s : State}

theorem below_ruleAction (p : Program) {m n : Nat} (hmn : m ≤ n) (name : String) :
    (p.ruleAction m name).Below (p.ruleAction n name) := by
  induction m generalizing n name with
  | zero => exact fun s hs => absurd rfl hs
  | succ m ih =>
    obtain ⟨n, rfl⟩ : ∃ k, n = k + 1 := ⟨n - 1, by omega⟩
    unfold ruleAction
    cases p.body? name with
    | some body => exact (body.below_action (fun name => ih (by omega) name) 0).traced name
    | none => exact .refl _

lemma ruleAction_unique {m n : Nat} (hm : p.ruleAction m name s ≠ .unfinished)
    (hn : p.ruleAction n name s ≠ .unfinished) : p.ruleAction m name s = p.ruleAction n name s :=
  (p.below_ruleAction (le_max_left m n) name s hm).symm.trans
    (p.below_ruleAction (le_max_right m n) name s hn)

lemma ruleAction_ne_unfinished_iff {depth : Nat} (hs : s.location ≤ s.length) :
    p.ruleAction depth name s ≠ .unfinished ↔
      ∃ v, p.ruleRecognizer s.input s.policy depth name s.location = some v := by
  rw [Outcome.ne_unfinished_iff, p.recognizes_ruleAction depth name s ⟨rfl, rfl, hs⟩]

/-- A parser returns what some depth lets it return. -/
theorem parse_eq_ruleAction {depth : Nat} (hs : s.location ≤ s.length)
    (h : p.ruleAction depth name s ≠ .unfinished) : p.parse name s = p.ruleAction depth name s := by
  obtain ⟨v, hv⟩ := (ruleAction_ne_unfinished_iff hs).mp h
  -- the depth of the parser is enough for every verdict that some depth gives
  have hverdict : (p.parse name s).verdict? = some v :=
    (p.parse_verdict?_eq_some_iff ⟨rfl, rfl, hs⟩).mpr ⟨depth, hv⟩
  exact ruleAction_unique (Outcome.ne_unfinished_iff.mpr ⟨v, hverdict⟩) h

lemma ruleAction_eq_unfinished {depth : Nat} (hs : s.location ≤ s.length)
    (h : p.parse name s = .unfinished) : p.ruleAction depth name s = .unfinished := by
  by_contra hrun
  exact hrun ((parse_eq_ruleAction hs hrun).symm.trans h)

lemma ruleAction_eq_parse {depth : Nat} (hs : s.location ≤ s.length)
    (hdepth : p.procedures.length * (s.length + 1) ≤ depth) :
    p.ruleAction depth name s = p.parse name s := by
  by_cases hrun : p.parse name s = .unfinished
  · rw [hrun, ruleAction_eq_unfinished hs hrun]
  · exact p.below_ruleAction hdepth name s hrun

end Program

end LabeledPeg
