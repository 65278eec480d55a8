import LabeledPeg.Proofs.Outcome
import LabeledPeg.Proofs.Parse.Motion
import LabeledPeg.Proofs.Program.Compile

/-!
# Trees lose nothing

The tree that a step returns stands for exactly the input between the places where the step began
and ended, and the trees below a sequence lie one after the other on its stretch. A step that
returns no tree did not move, so that leaving it out of a sequence makes no gap.
-/

namespace LabeledPeg

open Parse

namespace Parse

namespace Tree

/-- Whether the spans of trees lie one after the other, from a place to another one. -/
inductive Tiling : Nat → List Tree → Nat → Prop where
  | nil (place : Nat) : Tiling place [] place
  | cons {start middle stop : Nat} {tree : Tree} {trees : List Tree}
    (hspan : tree.span = ⟨start, middle⟩) (hrest : Tiling middle trees stop) :
    Tiling start (tree :: trees) stop

/-- Whether one tree is another one or lies below it. -/
inductive Within (t : Tree) : Tree → Prop where
  | self : Within t t
  | item {u : Tree} {items : List Tree} {span : Span} (hitem : u ∈ items) (h : Within t u) :
    Within t (.sequence items span)

mutual

/-- Whether a tree stands for the input between two places. -/
inductive Covers (input : Array Char) : Tree → Nat → Nat → Prop where
  | piece {text : String} {start stop : Nat} (hle : start ≤ stop)
    (htext : text.toList = (input.extract start stop).toList) :
    Covers input (.piece text ⟨start, stop⟩) start stop
  | sequence {items : List Tree} {start stop : Nat} (hitems : CoversAll input items start stop) :
    Covers input (.sequence items ⟨start, stop⟩) start stop

/-- Whether trees stand for the input between two places, one after the other. -/
inductive CoversAll (input : Array Char) : List Tree → Nat → Nat → Prop where
  | nil (place : Nat) : CoversAll input [] place place
  | cons {tree : Tree} {trees : List Tree} {start middle stop : Nat}
    (htree : Covers input tree start middle) (htrees : CoversAll input trees middle stop) :
    CoversAll input (tree :: trees) start stop

end

variable {input : Array Char}

lemma Covers.span_eq {t : Tree} {start stop : Nat} (h : Covers input t start stop) :
    t.span = ⟨start, stop⟩ := by
  cases h <;> rfl

lemma CoversAll.tiling {trees : List Tree} {start stop : Nat}
    (h : CoversAll input trees start stop) : Tiling start trees stop := by
  induction trees generalizing start with
  | nil =>
    cases h
    exact .nil _
  | cons tree trees ih =>
    cases h with
    | cons htree htrees => exact .cons htree.span_eq (ih htrees)

mutual

lemma Covers.le {t : Tree} {start stop : Nat} : Covers input t start stop → start ≤ stop
  | .piece hle _ => hle
  | .sequence hitems => hitems.le

lemma CoversAll.le {trees : List Tree} {start stop : Nat} :
    CoversAll input trees start stop → start ≤ stop
  | .nil _ => le_refl _
  | .cons htree htrees => htree.le.trans htrees.le

end

lemma toList_extract_append {start middle stop : Nat} (h : start ≤ middle) (h' : middle ≤ stop) :
    (input.extract start middle).toList ++ (input.extract middle stop).toList =
      (input.extract start stop).toList := by
  rw [← Array.toList_append, Array.extract_append_extract, min_eq_left h, max_eq_right h']

mutual

lemma Covers.toList_flatten {t : Tree} {start stop : Nat} :
    Covers input t start stop → t.flatten.toList = (input.extract start stop).toList
  | .piece _ htext => by rw [flatten, htext]
  | .sequence hitems => by rw [flatten, hitems.toList_flattenAll]

lemma CoversAll.toList_flattenAll {trees : List Tree} {start stop : Nat} :
    CoversAll input trees start stop →
      (flattenAll trees).toList = (input.extract start stop).toList
  | .nil _ => by simp [flattenAll]
  | .cons htree htrees => by
    rw [flattenAll, String.toList_append, htree.toList_flatten, htrees.toList_flattenAll,
      toList_extract_append htree.le htrees.le]

end

lemma CoversAll.exists_of_mem {trees : List Tree} {start stop : Nat} {t : Tree}
    (h : CoversAll input trees start stop) (ht : t ∈ trees) :
    ∃ start stop, Covers input t start stop := by
  induction trees generalizing start with
  | nil => simp at ht
  | cons tree trees ih =>
    cases h with
    | cons htree htrees =>
      rcases List.mem_cons.mp ht with rfl | ht
      · exact ⟨_, _, htree⟩
      · exact ih htrees ht

lemma Covers.tiling_of_within {t : Tree} {start stop : Nat} (h : Covers input t start stop)
    {items : List Tree} {span : Span} (hwithin : Within (.sequence items span) t) :
    Tiling span.start items span.stop := by
  generalize hu : Tree.sequence items span = u at hwithin
  induction hwithin generalizing start stop with
  | self =>
    subst hu
    cases h with
    | sequence hitems => exact hitems.tiling
  | item hitem _ ih =>
    cases h with
    | sequence hitems =>
      obtain ⟨start, stop, hcovers⟩ := hitems.exists_of_mem hitem
      exact ih hcovers

/-- Whether a tree stands for the input between two places, which are the same if there is none. -/
def OptionCovers (input : Array Char) (tree? : Option Tree) (start stop : Nat) : Prop :=
  match tree? with
  | some t => Covers input t start stop
  | none => start = stop

lemma CoversAll.cons_option {tree? : Option Tree} {values : List (Option Tree)}
    {start middle stop : Nat} (h : OptionCovers input tree? start middle)
    (hrest : CoversAll input (values.filterMap id) middle stop) :
    CoversAll input ((tree? :: values).filterMap id) start stop := by
  cases tree? with
  | some t => exact .cons h hrest
  | none =>
    have heq : start = middle := h
    rw [heq]
    exact hrest

end Tree

namespace Action

/-- Whether every match of a step returns what stands for the input that it moved over. -/
def Lossless (a : Action (Option Tree)) : Prop :=
  ∀ s s' tree?, s.location ≤ s.length → a s = .success tree? s' →
    Tree.OptionCovers s.input tree? s.location s'.location

/-- Whether the trees that every match of a step returns stand for the input that it moved over. -/
def LosslessAll (a : Action (List (Option Tree))) : Prop :=
  ∀ s s' values, s.location ≤ s.length → a s = .success values s' →
    Tree.CoversAll s.input (values.filterMap id) s.location s'.location

variable {a : Action (Option Tree)}

lemma missing_ne_success {α : Type} {expected : String} {place : Nat} {s s' : State} {value : α} :
    missing expected place s ≠ .success value s' := by
  unfold missing
  split <;> simp [failWith]

lemma anyChar_eq_success {s s' : State} {c : Char} (h : anyChar s = .success c s') :
    s.peek? = some c ∧ s' = s.advance 1 := by
  unfold anyChar at h
  cases hpeek : s.peek? with
  | some found =>
    simp only [hpeek, Outcome.success.injEq] at h
    exact ⟨by rw [h.1], h.2.symm⟩
  | none =>
    simp only [hpeek] at h
    exact absurd h missing_ne_success

lemma charIn_eq_success {lo hi : Char} {s s' : State} {c : Char}
    (h : charIn lo hi s = .success c s') : s.peek? = some c ∧ s' = s.advance 1 := by
  unfold charIn at h
  cases hpeek : s.peek? with
  | some found =>
    simp only [hpeek] at h
    split at h
    · simp only [Outcome.success.injEq] at h
      exact ⟨by rw [h.1], h.2.symm⟩
    · exact absurd h missing_ne_success
  | none =>
    simp only [hpeek] at h
    exact absurd h missing_ne_success

lemma exactly_eq_success {value : String} {s s' : State} {u : Unit}
    (h : exactly value s = .success u s') :
    s.ahead value.length = value.toList ∧ s' = s.advance value.length := by
  unfold exactly at h
  dsimp only at h
  split at h
  · next hcommon =>
    have hahead : value.toList <+: s.rest := commonLength_ahead_eq_iff.mp hcommon
    obtain ⟨-, rfl⟩ := Outcome.success.inj h
    rw [List.prefix_iff_eq_take, String.length_toList] at hahead
    exact ⟨by rw [State.ahead_eq_take_rest, ← hahead], by rw [hcommon]⟩
  · exact absurd h missing_ne_success

lemma toList_extract_one {input : Array Char} {place : Nat} {c : Char} (h : input[place]? = some c) :
    c.toString.toList = (input.extract place (place + 1)).toList := by
  have hdrop : (input.toList.drop place).head? = some c := by
    rw [List.head?_drop, Array.getElem?_toList, h]
  rw [Array.toList_extract, List.extract_eq_take_drop, Nat.add_sub_cancel_left,
    List.take_one, hdrop]
  simp

lemma lossless_any : any.Lossless := by
  intro s s' tree? hs hrun
  obtain ⟨c, s₁, hc, htree⟩ := Outcome.bind_eq_success_iff.mp hrun
  obtain ⟨rfl, rfl⟩ := Outcome.success.inj htree
  obtain ⟨hpeek, rfl⟩ := anyChar_eq_success hc
  exact .piece (Nat.le_succ _) (toList_extract_one hpeek)

lemma lossless_range (lo hi : Char) : (range lo hi).Lossless := by
  intro s s' tree? hs hrun
  obtain ⟨c, s₁, hc, htree⟩ := Outcome.bind_eq_success_iff.mp hrun
  obtain ⟨rfl, rfl⟩ := Outcome.success.inj htree
  obtain ⟨hpeek, rfl⟩ := charIn_eq_success hc
  exact .piece (Nat.le_succ _) (toList_extract_one hpeek)

lemma lossless_literal (value : String) : (literal value).Lossless := by
  intro s s' tree? hs hrun
  obtain ⟨u, s₁, hu, htree⟩ := Outcome.bind_eq_success_iff.mp hrun
  obtain ⟨rfl, rfl⟩ := Outcome.success.inj htree
  obtain ⟨hahead, rfl⟩ := exactly_eq_success hu
  exact .piece (Nat.le_add_right _ _) hahead.symm

lemma toList_slice {s : State} {start stop : Nat} (h : start ≤ stop) (hstop : stop ≤ s.length) :
    (s.slice ⟨start, stop⟩).toList = (s.input.extract start stop).toList := by
  have hmin : min stop s.input.size = stop := min_eq_left hstop
  simp only [State.slice, hmin, min_eq_left h, String.toList_ofList]

lemma lossless_spacing : spacing.Lossless := by
  intro s s' tree? hs hrun
  have hcount := countWhile_le isSpacing s.input (s.length - s.location) s.location
  unfold spacing at hrun
  dsimp only at hrun
  split at hrun
  · next hzero =>
    obtain ⟨rfl, rfl⟩ := Outcome.success.inj hrun
    simp [Tree.OptionCovers, State.advance, hzero]
  · obtain ⟨rfl, rfl⟩ := Outcome.success.inj hrun
    refine .piece (Nat.le_add_right _ _) (toList_slice (Nat.le_add_right _ _) ?_)
    simp only [State.advance]
    omega

/-- A step that only looks ahead returns nothing and does not move. -/
lemma lossless_of_stays {α : Type} {a : Action α}
    (h : ∀ s s' value, s.location ≤ s.length → a s = .success value s' →
      s'.location = s.location) :
    Lossless fun s => (a s).map fun _ => none := by
  intro s s' tree? hs hrun
  obtain ⟨value, hvalue, rfl⟩ := Outcome.map_eq_success_iff.mp hrun
  exact (h s s' value hs hvalue).symm

lemma lookahead_stays {α : Type} {a : Action α} (ha : a.Advances) {s s' : State} {u : Unit}
    (hs : s.location ≤ s.length) (h : lookahead a s = .success u s') :
    s'.location = s.location := by
  unfold lookahead at h
  cases hrun : a s with
  | success value s₁ =>
    simp only [hrun, Outcome.success.injEq, true_and] at h
    exact h ▸ ((ha.success hs hrun).goto hs).2
  | failure f s₁ => simp [hrun, failWith] at h
  | unfinished => simp [hrun] at h

lemma notAhead_stays {α : Type} {a : Action α} (ha : a.Advances) {s s' : State} {u : Unit}
    (hs : s.location ≤ s.length) (h : notAhead a s = .success u s') :
    s'.location = s.location := by
  unfold notAhead at h
  cases hrun : a s with
  | success value s₁ => simp [hrun, failWith] at h
  | failure f s₁ =>
    simp only [hrun] at h
    split at h
    · cases h
    · simp only [Outcome.success.injEq, true_and] at h
      exact h ▸ ((ha.failure hs hrun).goto hs).2
  | unfinished => simp [hrun] at h

lemma lossless_eof : eof.Lossless :=
  lossless_of_stays fun _ _ _ hs h => notAhead_stays advances_any hs h

lemma lossless_none : Lossless (Run.succeed none) := by
  intro s s' tree? hs hrun
  obtain ⟨rfl, rfl⟩ := Outcome.success.inj hrun
  rfl

lemma lossless_cutOff : Lossless Run.cutOff := by
  intro s s' tree? hs hrun
  cases hrun

lemma lossless_throwLabel (label : String) (start : Nat) :
    (throwLabel label start : Action (Option Tree)).Lossless := by
  intro s s' tree? hs hrun
  cases hrun

lemma Lossless.traced (h : a.Lossless) (name : String) : (traced name a).Lossless := by
  intro s s' tree? hs hrun
  obtain ⟨s₁, hs₁, rfl⟩ := Outcome.mapState_eq_success_iff.mp hrun
  exact h (s.enter name) s₁ tree? hs hs₁

lemma lossless_choiceFrom {alternatives : List (Action (Option Tree))}
    (h : ∀ a ∈ alternatives, a.Lossless) (hadvances : ∀ a ∈ alternatives, a.Advances)
    (farthest? : Option Failure) {start : Nat} {s s' : State} {tree? : Option Tree}
    (hstart : s.location = start) (hs : s.location ≤ s.length)
    (hrun : choiceFrom start farthest? alternatives s = .success tree? s') :
    Tree.OptionCovers s.input tree? start s'.location := by
  induction alternatives generalizing farthest? s with
  | nil => cases hrun
  | cons a alternatives ih =>
    unfold choiceFrom at hrun
    cases ha : a s with
    | success value s₁ =>
      simp only [ha, Outcome.success.injEq] at hrun
      obtain ⟨rfl, rfl⟩ := hrun
      exact hstart ▸ h a (by simp) s s₁ value hs ha
    | failure f s₁ =>
      obtain ⟨hback, hlocation⟩ := ((hadvances a (by simp)).failure hs ha).goto hs
      simp only [ha] at hrun
      split at hrun
      · cases hrun
      · rw [hstart] at hlocation hback
        have hrest := ih (fun b hb => h b (by simp [hb])) (fun b hb => hadvances b (by simp [hb])) _
          hlocation hback.within hrun
        rwa [hback.input] at hrest
    | unfinished => simp [ha] at hrun

lemma lossless_choice {alternatives : List (Action (Option Tree))}
    (h : ∀ a ∈ alternatives, a.Lossless) (hadvances : ∀ a ∈ alternatives, a.Advances) :
    (choice alternatives).Lossless :=
  fun _ _ _ hs hrun => lossless_choiceFrom h hadvances none rfl hs hrun

/-- What two steps in a row return stands for what both of them moved over. -/
lemma coversAll_cons {values : List (Option Tree)} {tree? : Option Tree} {s s₁ s' : State}
    (hmove : s.Advanced s₁) (h : Tree.OptionCovers s.input tree? s.location s₁.location)
    (hrest : Tree.CoversAll s₁.input (values.filterMap id) s₁.location s'.location) :
    Tree.CoversAll s.input ((tree? :: values).filterMap id) s.location s'.location := by
  rw [hmove.input] at hrest
  exact .cons_option h hrest

lemma coversAll_singleton {tree? : Option Tree} {s s₁ : State}
    (h : Tree.OptionCovers s.input tree? s.location s₁.location) :
    Tree.CoversAll s.input ([tree?].filterMap id) s.location s₁.location :=
  .cons_option h (.nil _)

lemma Lossless.zeroOrMore (h : a.Lossless) (ha : a.Advances) (limit : Nat) :
    (zeroOrMore a limit).LosslessAll := by
  induction limit with
  | zero =>
    intro s s' values hs hrun
    cases hrun
  | succ limit ih =>
    intro s s' values hs hrun
    unfold Action.zeroOrMore at hrun
    cases hfirst : a s with
    | success value s₁ =>
      have hs₁ := ha.success hs hfirst
      have hvalue := h s s₁ value hs hfirst
      simp only [hfirst] at hrun
      split at hrun
      · obtain ⟨rfl, rfl⟩ := Outcome.success.inj hrun
        exact coversAll_singleton hvalue
      · obtain ⟨rest, hrest, rfl⟩ := Outcome.map_eq_success_iff.mp hrun
        exact coversAll_cons hs₁ hvalue (ih s₁ s' rest hs₁.within hrest)
    | failure f s₁ =>
      simp only [hfirst] at hrun
      split at hrun
      · cases hrun
      · obtain ⟨rfl, rfl⟩ := Outcome.success.inj hrun
        -- the turn that failed is taken back, so that nothing lies behind the last item
        rw [((ha.failure hs hfirst).goto hs).2]
        exact .nil _
    | unfinished => simp [hfirst] at hrun

lemma Lossless.oneOrMore (h : a.Lossless) (ha : a.Advances) (limit : Nat) :
    (oneOrMore a limit).LosslessAll := by
  intro s s' values hs hrun
  unfold Action.oneOrMore at hrun
  cases hfirst : a s with
  | success value s₁ =>
    have hs₁ := ha.success hs hfirst
    have hvalue := h s s₁ value hs hfirst
    simp only [hfirst] at hrun
    split at hrun
    · obtain ⟨rfl, rfl⟩ := Outcome.success.inj hrun
      exact coversAll_singleton hvalue
    · obtain ⟨rest, hrest, rfl⟩ := Outcome.map_eq_success_iff.mp hrun
      exact coversAll_cons hs₁ hvalue (h.zeroOrMore ha limit s₁ s' rest hs₁.within hrest)
  | failure f s₁ => simp [hfirst] at hrun
  | unfinished => simp [hfirst] at hrun

lemma LosslessAll.collected {a : Action (List (Option Tree))} (h : a.LosslessAll) :
    (collected a).Lossless := by
  intro s s' tree? hs hrun
  obtain ⟨values, s₁, hvalues, htree⟩ := Outcome.bind_eq_success_iff.mp hrun
  obtain ⟨rfl, rfl⟩ := Outcome.success.inj htree
  exact .sequence (h s s₁ values hs hvalues)

end Action

end Parse

namespace Code

variable {invoke : String → Action (Option Tree)}

lemma lossless_stepsAction {codes : List Code}
    (hadvances : ∀ c ∈ codes, ∀ start, (c.action invoke start).Advances)
    (h : ∀ c ∈ codes, ∀ start, (c.action invoke start).Lossless) (start : Nat) :
    (stepsAction invoke start codes).LosslessAll := by
  induction codes with
  | nil =>
    intro s s' values hs hrun
    obtain ⟨rfl, rfl⟩ := Outcome.success.inj hrun
    exact .nil _
  | cons code codes ih =>
    intro s s' values hs hrun
    simp only [stepsAction] at hrun
    obtain ⟨value, s₁, hvalue, hrest⟩ := Outcome.bind_eq_success_iff.mp hrun
    obtain ⟨values, hvalues, rfl⟩ := Outcome.map_eq_success_iff.mp hrest
    have hs₁ := (hadvances code (by simp) start).success hs hvalue
    have hcodes := ih (fun c hc => hadvances c (by simp [hc])) fun c hc => h c (by simp [hc])
    exact Action.coversAll_cons hs₁ (h code (by simp) start s s₁ value hs hvalue)
      (hcodes s₁ s' values hs₁.within hvalues)

/-- A fragment loses nothing if the rules it calls do not. -/
theorem lossless_action (hadvances : ∀ name, (invoke name).Advances)
    (hinvoke : ∀ name, (invoke name).Lossless) (code : Code) (start : Nat) :
    (code.action invoke start).Lossless := by
  have hcode : ∀ (c : Code) start, (c.action invoke start).Advances := advances_action hadvances
  induction code using inductionOn generalizing start with
  | sequence steps ih =>
    intro s s' tree? hs hrun
    simp only [action] at hrun
    exact (lossless_stepsAction (fun c _ => hcode c) ih s.location).collected s s' tree? hs hrun
  | choice alternatives ih =>
    simp only [action, alternativeActions_eq_map]
    apply Action.lossless_choice
    · intro a ha
      obtain ⟨c, hc, rfl⟩ := List.mem_map.mp ha
      exact ih c hc start
    · intro a ha
      obtain ⟨c, hc, rfl⟩ := List.mem_map.mp ha
      exact hcode c start
  | empty =>
    simp only [action]
    exact Action.lossless_none
  | repetition kind body ih =>
    intro s s' tree? hs hrun
    cases kind <;> simp only [action] at hrun
    · exact ((ih s.location).zeroOrMore (hcode body _) _).collected s s' tree? hs hrun
    · exact ((ih s.location).oneOrMore (hcode body _) _).collected s s' tree? hs hrun
  | lookahead kind body ih =>
    -- a predicate drops what its body returned, but it also goes back to where it began
    cases kind <;> simp only [action]
    · exact Action.lossless_of_stays fun _ _ _ hs h =>
        Action.lookahead_stays (hcode body start) hs h
    · exact Action.lossless_of_stays fun _ _ _ hs h =>
        Action.notAhead_stays (hcode body start) hs h
  | labeled body ih =>
    intro s s' tree? hs hrun
    simp only [action] at hrun
    exact ih s.location s s' tree? hs hrun
  | throw label site =>
    simp only [action]
    exact Action.lossless_throwLabel label start
  | call rule site =>
    simp only [action]
    exact hinvoke rule
  | builtin rule site =>
    cases rule <;> simp only [action]
    · exact Action.lossless_spacing
    · exact Action.lossless_eof
  | literal value site =>
    simp only [action]
    exact Action.lossless_literal value
  | range lo hi site =>
    simp only [action]
    exact Action.lossless_range lo hi
  | any site =>
    simp only [action]
    exact Action.lossless_any
  | procedure name body =>
    simp only [action]
    exact Action.lossless_none
  | program procedures =>
    simp only [action]
    exact Action.lossless_none

end Code

theorem Program.lossless_ruleAction (p : Program) (depth : Nat) (name : String) :
    (p.ruleAction depth name).Lossless := by
  induction depth generalizing name with
  | zero => exact Action.lossless_cutOff
  | succ depth ih =>
    unfold ruleAction
    cases p.body? name with
    | some body => exact (body.lossless_action (p.advances_ruleAction depth) ih 0).traced name
    | none => exact Action.lossless_cutOff

/-- The parser of an assembled grammar loses nothing of the input. What a rule returns stands for
exactly the stretch that it matched, and every sequence in it is tiled by its items; a rule that
returns nothing matched nothing. -/
theorem Grammar.Assembled.parse_lossless {g : Grammar} (hg : g.Assembled) :
    ∃ p, g.compile = .ok p ∧ ∀ rule ∈ g.names, ∀ (s s' : State) (tree? : Option Tree),
      s.location ≤ s.length → p.parse rule s = .success tree? s' →
        (tree? = none → s.location = s'.location) ∧
        ∀ tree, tree? = some tree →
          tree.span = ⟨s.location, s'.location⟩ ∧
          tree.flatten.toList = (s.input.extract s.location s'.location).toList ∧
          ∀ items span, (Tree.sequence items span).Within tree →
            Tree.Tiling span.start items span.stop := by
  refine ⟨g.program, hg.compile_eq, fun rule _ s s' tree? hs hrun => ?_⟩
  have hcovers := g.program.lossless_ruleAction _ rule s s' tree? hs hrun
  constructor
  · rintro rfl
    exact hcovers
  · rintro tree rfl
    have htree : Tree.Covers s.input tree s.location s'.location := hcovers
    exact ⟨htree.span_eq, htree.toList_flatten, fun items span h => htree.tiling_of_within h⟩

theorem parse_lossless_countdown : ∃ p, countdown.compile = .ok p ∧ ∃ tree s',
    p.parse "S" (.ofString "a b") = .success (some tree) s' ∧ tree.span = ⟨0, 3⟩ ∧
      tree.flatten.toList = "a b".toList := by
  obtain ⟨p, hp, h⟩ := Grammar.Assembled.parse_lossless assembled_countdown
  obtain rfl : countdown.program = p :=
    Except.ok.inj (assembled_countdown.compile_eq.symm.trans hp)
  obtain ⟨tree, s', hrun, hstop⟩ : ∃ tree s', countdown.program.parse "S" (.ofString "a b") =
      .success (some tree) s' ∧ s'.location = 3 := ⟨_, _, rfl, rfl⟩
  obtain ⟨hspan, hflatten, -⟩ :=
    (h "S" (by decide) (.ofString "a b") s' (some tree) (Nat.zero_le _) hrun).2 tree rfl
  rw [hstop] at hspan hflatten
  exact ⟨_, hp, tree, s', hrun, hspan, hflatten⟩

end LabeledPeg
