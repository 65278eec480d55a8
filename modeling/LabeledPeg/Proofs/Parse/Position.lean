import LabeledPeg.Proofs.Parse.Bookkeeping
import LabeledPeg.Proofs.Program.Contract

/-!
# Where failures lie

A step that fails does not fail before the place where it began, and the place of its failure is the
one that is noted. Labels are no exception, as long as each is thrown for an attempt of its own.
-/

namespace LabeledPeg

namespace Parse.Action

variable {α β : Type} {a : Action α}

/-- Whether a step never fails before the location where it begins, within the input. -/
def Forward (a : Action α) : Prop :=
  ∀ s f s', s.location ≤ s.length → a s = .failure f s' → s.location ≤ f.position

/-- Whether a step that begins at `start` does not fail before. -/
def ForwardFrom (start : Nat) (a : Action α) : Prop :=
  ∀ s f s', s.location = start → s.location ≤ s.length → a s = .failure f s' → start ≤ f.position

lemma Forward.forwardFrom (h : a.Forward) (start : Nat) : a.ForwardFrom start := by
  rintro s f s' rfl hs hrun
  exact h s f s' hs hrun

lemma forward_succeed (value : α) : Forward (Run.succeed value : Action α) := by
  intro s f s' _ h
  cases h

lemma forward_cutOff : Forward (Run.cutOff : Action α) := by
  intro s f s' _ h
  cases h

lemma position_of_missing {expected : String} {place : Nat} {s s' : State} {f : Failure}
    (h : (missing expected place : Action α) s = .failure f s') : f.position = place := by
  unfold missing failWith at h
  split at h
  · obtain ⟨rfl, -⟩ := Outcome.failure.inj h
    rfl
  · obtain ⟨rfl, -⟩ := Outcome.failure.inj h
    rfl

/-- What is made of the value of a step changes nothing about where it fails. -/
lemma Forward.bind_success (h : a.Forward) (g : State → α → State → β) :
    Forward fun s => (a s).bind fun value s' => .success (g s value s') s' := by
  intro s f s' hs hrun
  cases ha : a s with
  | success value s₁ => simp [ha] at hrun
  | failure f₁ s₁ =>
    simp only [ha, Outcome.bind_failure] at hrun
    obtain ⟨rfl, -⟩ := Outcome.failure.inj hrun
    exact h s f₁ s₁ hs ha
  | unfinished => simp [ha] at hrun

lemma Forward.map (h : a.Forward) (g : α → β) : Forward fun s => (a s).map g := by
  have heq : (fun s => (a s).map g) = fun s => (a s).bind fun value s' => .success (g value) s' := by
    funext s
    cases a s <;> rfl
  rw [heq]
  exact h.bind_success fun _ value _ => g value

lemma forward_anyChar : anyChar.Forward := by
  intro s f s' _ h
  unfold anyChar at h
  split at h
  · cases h
  · exact (position_of_missing h).ge

lemma forward_charIn (lo hi : Char) : (charIn lo hi).Forward := by
  intro s f s' _ h
  unfold charIn at h
  split at h
  · split at h
    · cases h
    · exact (position_of_missing h).ge
  · exact (position_of_missing h).ge

lemma forward_exactly (value : String) : (exactly value).Forward := by
  intro s f s' _ h
  unfold exactly at h
  dsimp only at h
  split at h
  · cases h
  · rw [position_of_missing h]
    exact Nat.le_add_right _ _

lemma forward_any : any.Forward :=
  forward_anyChar.bind_success fun s c s' => some (textSince s.location c.toString s')

lemma forward_literal (value : String) : (literal value).Forward :=
  (forward_exactly value).bind_success fun s _ s' => some (textSince s.location value s')

lemma forward_range (lo hi : Char) : (range lo hi).Forward :=
  (forward_charIn lo hi).bind_success fun s c s' => some (textSince s.location c.toString s')

lemma forward_spacing : spacing.Forward := by
  intro s f s' _ h
  unfold spacing at h
  dsimp only at h
  split at h <;> cases h

/-- A label is thrown for an attempt, and its failure does not end before the attempt began. -/
lemma forwardFrom_throwLabel (label : String) (start : Nat) :
    (throwLabel label start : Action α).ForwardFrom start := by
  intro s f s' _ _ h
  simp only [throwLabel, failWith] at h
  obtain ⟨rfl, -⟩ := Outcome.failure.inj h
  exact le_max_right s.failure start

lemma Forward.traced (h : a.Forward) (name : String) : (traced name a).Forward := by
  intro s f s' hs hrun
  unfold Action.traced at hrun
  cases ha : a (s.enter name) with
  | failure f₁ s₁ =>
    rw [ha] at hrun
    obtain ⟨rfl, -⟩ := Outcome.failure.inj hrun
    exact h (s.enter name) f₁ s₁ hs ha
  | success | unfinished => simp [ha, Outcome.mapState] at hrun

lemma Forward.collected {a : Action (List (Option Tree))} (h : a.Forward) : (collected a).Forward :=
  h.bind_success fun s values s' => some (Tree.sequence (values.filterMap id) ⟨s.location, s'.location⟩)

lemma Forward.lookahead (h : a.Forward) : (lookahead a).Forward := by
  intro s f s' hs hrun
  unfold Action.lookahead at hrun
  cases ha : a s with
  | failure f₁ s₁ =>
    simp only [ha, failWith] at hrun
    obtain ⟨rfl, -⟩ := Outcome.failure.inj hrun
    exact h s f₁ s₁ hs ha
  | success | unfinished => simp [ha] at hrun

lemma Forward.notAhead (h : a.Forward) : (notAhead a).Forward := by
  intro s f s' hs hrun
  unfold Action.notAhead at hrun
  cases ha : a s with
  | success value s₁ =>
    simp only [ha, failWith] at hrun
    obtain ⟨rfl, -⟩ := Outcome.failure.inj hrun
    exact le_refl s.location
  | failure f₁ s₁ =>
    simp only [ha] at hrun
    split at hrun
    · obtain ⟨rfl, -⟩ := Outcome.failure.inj hrun
      exact h s f₁ s₁ hs ha
    · cases hrun
  | unfinished => simp [ha] at hrun

lemma forward_eof : eof.Forward := forward_any.notAhead.map fun _ => none

lemma position_farther_ge {place : Nat} {earlier? : Option Failure} {later : Failure}
    (hearlier : ∀ f ∈ earlier?, place ≤ f.position) (hlater : place ≤ later.position) :
    place ≤ (farther earlier? later).position := by
  cases earlier? with
  | none => exact hlater
  | some earlier =>
    unfold farther
    dsimp only
    split
    · exact hearlier earlier rfl
    · exact hlater

lemma forward_choiceFrom {alternatives : List (Action α)} {start : Nat}
    (h : ∀ a ∈ alternatives, a.Advances ∧ a.ForwardFrom start) {farthest? : Option Failure}
    {s s' : State} {f : Failure} (hs : s.location ≤ s.length) (hstart : s.location = start)
    (hfarthest : ∀ f ∈ farthest?, start ≤ f.position)
    (hrun : choiceFrom start farthest? alternatives s = .failure f s') : start ≤ f.position := by
  induction alternatives generalizing farthest? s with
  | nil =>
    simp only [choiceFrom, failWith] at hrun
    obtain ⟨rfl, -⟩ := Outcome.failure.inj hrun
    cases farthest? with
    | some earlier => exact hfarthest earlier rfl
    | none => exact le_refl start
  | cons a alternatives ih =>
    obtain ⟨hadvances, hforward⟩ := h a List.mem_cons_self
    unfold choiceFrom at hrun
    cases ha : a s with
    | failure f₁ s₁ =>
      have hf₁ : start ≤ f₁.position := hforward s f₁ s₁ hstart hs ha
      simp only [ha] at hrun
      split at hrun
      · obtain ⟨rfl, -⟩ := Outcome.failure.inj hrun
        exact hf₁
      · -- the next alternative is tried from where the choice began
        obtain ⟨hback, hlocation⟩ := (hadvances.failure hs ha).goto hs
        rw [hstart] at hback hlocation
        refine ih (fun b hb => h b (List.mem_cons_of_mem a hb)) hback.within hlocation ?_ hrun
        intro f hf
        obtain rfl := Option.some.inj hf
        exact position_farther_ge hfarthest hf₁
    | success | unfinished => simp [ha] at hrun

lemma forward_choice {alternatives : List (Action α)}
    (h : ∀ a ∈ alternatives, a.Advances ∧ a.Forward) : (choice alternatives).Forward := by
  intro s f s' hs hrun
  exact forward_choiceFrom (fun a ha => ⟨(h a ha).1, (h a ha).2.forwardFrom _⟩) hs rfl (by simp) hrun

lemma Forward.zeroOrMore (h : a.Forward) (hadvances : a.Advances) (limit : Nat) :
    (zeroOrMore a limit).Forward := by
  induction limit with
  | zero => exact forward_cutOff
  | succ limit ih =>
    intro s f s' hs hrun
    unfold Action.zeroOrMore at hrun
    cases ha : a s with
    | success value s₁ =>
      have hs₁ := hadvances.success hs ha
      simp only [ha] at hrun
      split at hrun
      · cases hrun
      · exact hs₁.start_le.trans (ih.map (value :: ·) s₁ f s' hs₁.within hrun)
    | failure f₁ s₁ =>
      simp only [ha] at hrun
      split at hrun
      · obtain ⟨rfl, -⟩ := Outcome.failure.inj hrun
        exact h s f₁ s₁ hs ha
      · cases hrun
    | unfinished => simp [ha] at hrun

lemma Forward.oneOrMore (h : a.Forward) (hadvances : a.Advances) (limit : Nat) :
    (oneOrMore a limit).Forward := by
  intro s f s' hs hrun
  unfold Action.oneOrMore at hrun
  cases ha : a s with
  | success value s₁ =>
    have hs₁ := hadvances.success hs ha
    simp only [ha] at hrun
    split at hrun
    · cases hrun
    · exact hs₁.start_le.trans
        ((h.zeroOrMore hadvances limit).map (value :: ·) s₁ f s' hs₁.within hrun)
  | failure f₁ s₁ =>
    simp only [ha] at hrun
    obtain ⟨rfl, -⟩ := Outcome.failure.inj hrun
    exact h s f₁ s₁ hs ha
  | unfinished => simp [ha] at hrun

end Parse.Action

open Parse

namespace Code

variable {invoke : String → Action (Option Tree)}

lemma accounts_stepsAction {codes : List Code}
    (h : ∀ code ∈ codes, ∀ start, (code.action invoke start).Accounts) (start : Nat) :
    (stepsAction invoke start codes).Accounts := by
  induction codes with
  | nil =>
    simp only [stepsAction]
    exact Action.accounts_succeed []
  | cons code codes ih =>
    intro s hs
    simp only [stepsAction]
    apply (h code List.mem_cons_self start s hs).bind
    intro value s' hs'
    have hrest := ih (fun c hc => h c (List.mem_cons_of_mem code hc)) s' hs'.within
    exact (hrest.of_inOrder hs').map (value :: ·)

/-- A fragment leaves everything in order, and notes its failure, if the rules it calls do. -/
theorem accounts_action (hinvoke : ∀ name, (invoke name).Accounts) (code : Code) (start : Nat) :
    (code.action invoke start).Accounts := by
  induction code using inductionOn generalizing start with
  | sequence steps ih =>
    intro s hs
    simp only [action]
    exact (accounts_stepsAction ih s.location).collected s hs
  | choice alternatives ih =>
    simp only [action, alternativeActions_eq_map]
    exact Action.accounts_choice (List.forall_mem_map.mpr fun c hc => ih c hc start)
  | empty | procedure | program =>
    simp only [action]
    exact Action.accounts_succeed none
  | repetition kind body ih =>
    intro s hs
    cases kind <;> simp only [action]
    · exact ((ih s.location).zeroOrMore _).collected s hs
    · exact ((ih s.location).oneOrMore _).collected s hs
  | lookahead kind body ih =>
    cases kind <;> simp only [action]
    · exact (ih start).lookahead.map fun _ => none
    · exact (ih start).notAhead.map fun _ => none
  | labeled body ih =>
    intro s hs
    simp only [action]
    exact ih s.location s hs
  | throw label site =>
    simp only [action]
    exact Action.accounts_throwLabel label start
  | call rule site =>
    simp only [action]
    exact hinvoke rule
  | builtin rule site =>
    cases rule <;> simp only [action]
    · exact Action.accounts_spacing
    · exact Action.accounts_eof
  | literal value site =>
    simp only [action]
    exact Action.accounts_literal value
  | range lo hi site =>
    simp only [action]
    exact Action.accounts_range lo hi
  | any site =>
    simp only [action]
    exact Action.accounts_any

lemma forward_stepsAction {codes : List Code} (h : ∀ code ∈ codes, ∀ start,
      (code.action invoke start).Advances ∧ (code.action invoke start).Forward) (start : Nat) :
    (stepsAction invoke start codes).Forward := by
  induction codes with
  | nil =>
    simp only [stepsAction]
    exact Action.forward_succeed []
  | cons code codes ih =>
    intro s f s' hs hrun
    obtain ⟨hadvances, hforward⟩ := h code List.mem_cons_self start
    have hrest := ih fun c hc => h c (List.mem_cons_of_mem code hc)
    simp only [stepsAction] at hrun
    cases hfirst : code.action invoke start s with
    | success value s₁ =>
      have hs₁ := hadvances.success hs hfirst
      rw [hfirst] at hrun
      exact hs₁.start_le.trans (hrest.map (value :: ·) s₁ f s' hs₁.within hrun)
    | failure f₁ s₁ =>
      rw [hfirst, Outcome.bind_failure] at hrun
      obtain ⟨rfl, -⟩ := Outcome.failure.inj hrun
      exact hforward s f₁ s₁ hs hfirst
    | unfinished => simp [hfirst] at hrun

variable {g : Grammar}

/-- A fragment in which each label is thrown for an attempt of its own does not fail before it began,
if the rules it calls do not. -/
theorem forward_action (hadvances : ∀ name, (invoke name).Advances)
    (hinvoke : ∀ name, (invoke name).Forward) {code : Code} (h : code.Contract g) (start : Nat) :
    (code.action invoke start).Forward := by
  have hcode := advances_action hadvances
  induction h generalizing start with
  | @sequence steps _ ih =>
    intro s f s' hs hrun
    simp only [action] at hrun
    have hsteps := forward_stepsAction (fun c hc start => ⟨hcode c start, ih c hc start⟩) s.location
    exact hsteps.collected s f s' hs hrun
  | @choice alternatives _ _ ih =>
    simp only [action, alternativeActions_eq_map]
    exact Action.forward_choice
      (List.forall_mem_map.mpr fun c hc => ⟨hcode c start, ih c hc start⟩)
  | @optional attempt _ ih =>
    simp only [action, alternativeActions]
    refine Action.forward_choice (List.forall_mem_cons.mpr ⟨⟨hcode attempt start, ih start⟩, ?_⟩)
    exact List.forall_mem_singleton.mpr ⟨Action.advances_succeed none, Action.forward_succeed none⟩
  | @repetition kind body _ ih =>
    intro s f s' hs hrun
    have hbody := ih s.location
    cases kind <;> simp only [action] at hrun
    · exact (hbody.zeroOrMore (hcode body s.location) _).collected s f s' hs hrun
    · exact (hbody.oneOrMore (hcode body s.location) _).collected s f s' hs hrun
  | @lookahead kind body _ ih =>
    cases kind <;> simp only [action]
    · exact (ih start).lookahead.map fun _ => none
    · exact (ih start).notAhead.map fun _ => none
  | @labeled attempt label site _ ih =>
    intro s f s' hs hrun
    simp only [action, alternativeActions, Action.choice] at hrun
    refine Action.forward_choiceFrom (List.forall_mem_cons.mpr
      ⟨⟨hcode attempt s.location, (ih s.location).forwardFrom _⟩, ?_⟩) hs rfl (by simp) hrun
    exact List.forall_mem_singleton.mpr
      ⟨Action.advances_throwLabel label _, Action.forwardFrom_throwLabel label _⟩
  | @call rule site _ =>
    simp only [action]
    exact hinvoke rule
  | @builtin rule site _ =>
    cases rule <;> simp only [action]
    · exact Action.forward_spacing
    · exact Action.forward_eof
  | @literal value site =>
    simp only [action]
    exact Action.forward_literal value
  | @range lo hi site =>
    simp only [action]
    exact Action.forward_range lo hi
  | @any site =>
    simp only [action]
    exact Action.forward_any

end Code

namespace Program

variable {p : Program}

theorem accounts_ruleAction (p : Program) (depth : Nat) (name : String) :
    (p.ruleAction depth name).Accounts := by
  induction depth generalizing name with
  | zero => exact fun _ _ => .unfinished
  | succ depth ih =>
    unfold ruleAction
    cases p.body? name with
    | some body => exact (body.accounts_action ih 0).traced name
    | none => exact fun _ _ => .unfinished

theorem forward_ruleAction {g : Grammar}
    (h : ∀ name body, p.body? name = some body → body.Contract g) (depth : Nat) (name : String) :
    (p.ruleAction depth name).Forward := by
  induction depth generalizing name with
  | zero => exact Action.forward_cutOff
  | succ depth ih =>
    unfold ruleAction
    cases hbody : p.body? name with
    | some body =>
      exact (Code.forward_action (p.advances_ruleAction depth) ih (h name body hbody) 0).traced name
    | none => exact Action.forward_cutOff

end Program

end LabeledPeg
