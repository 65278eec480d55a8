import LabeledPeg.Program.Compile
import LabeledPeg.Parse.Interpreter
import LabeledPeg.Proofs.Outcome

/-!
# Options and repetitions in two spellings

An option is a choice with an alternative that matches nothing, which is how the compiler writes it. A
repetition that has to match once fails as the first run of its body does, and is else the one that
may match nothing. Nothing is asked of the body: it may go back, match forever, or change what labels
do.
-/

namespace LabeledPeg

/-- What is made of the value of a step can be made inside the closure or outside it. -/
lemma Compiler.nested_map {α β : Type} (x : Compiler α) (f : α → β) :
    Compiler.nested (do return f (← x)) = (do return f (← Compiler.nested x)) := by
  funext c
  change ((x _).bind fun value => (pure (f value) : Compiler β)).filterMapState _ =
    ((x _).filterMapState _).bind fun value => (pure (f value) : Compiler β)
  cases x { c with closures := c.closures + 1 } with
  | success value d =>
    obtain ⟨depth, _ | closures, lexical, inSpacingRule⟩ := d <;> rfl
  | failure e d =>
    obtain ⟨depth, _ | closures, lexical, inSpacingRule⟩ := d <;> rfl
  | unfinished => rfl

lemma Expr.compile_optional (g : Grammar) (quiet : List String) (e : Expr) (span : Span) :
    (Expr.optional e span).compile g quiet =
      (do return .choice [← Compiler.nested (e.compile g quiet), .empty]) := by
  simp only [Expr.compile, Compiler.nested_map _ fun code => [code, Code.empty]]
  funext c
  rw [Run.bind_apply, Run.bind_apply, Run.bind_apply]
  cases Compiler.nested (e.compile g quiet) c <;> rfl

namespace Parse.Action

variable {α β : Type} {s s' : State}

/-- How a repetition of `body` without a bound ends, run by run of its body. -/
inductive Iterates (body : Action α) : State → Outcome Failure State (List α) → Prop
  | moves {s s' : State} {value : α} {o : Outcome Failure State (List α)}
    (h : body s = .success value s') (hmoved : s'.location ≠ s.location)
    (hrest : Iterates body s' o) : Iterates body s (o.map (value :: ·))
  | stays {s s' : State} {value : α} (h : body s = .success value s')
    (hstay : s'.location = s.location) : Iterates body s (.success [value] s')
  | commits {s s' : State} {f : Failure} (h : body s = .failure f s')
    (hf : s'.commits f = true) : Iterates body s (.failure f s')
  | recovers {s s' : State} {f : Failure} (h : body s = .failure f s')
    (hf : s'.commits f = false) : Iterates body s (.success [] (s'.goto s.location))

/-- Whether a step with a bound ends in one way, and does so from some bound on. A step that never
ends does not end in any way. -/
def Ends (a : Nat → Action α) (s : State) (o : Outcome Failure State α) : Prop :=
  o ≠ .unfinished ∧ ∃ bound, ∀ limit, bound ≤ limit → a limit s = o

lemma ends_of_succ {a : Nat → Action α} {o : Outcome Failure State α} (ho : o ≠ .unfinished)
    (bound : Nat) (h : ∀ limit, bound ≤ limit → a (limit + 1) s = o) : Ends a s o := by
  refine ⟨ho, bound + 1, fun limit hlimit => ?_⟩
  obtain ⟨limit, rfl⟩ : ∃ n, limit = n + 1 := ⟨limit - 1, by omega⟩
  exact h limit (by omega)

section Body

variable {body : Action α} {o : Outcome Failure State (List α)}

lemma Iterates.ends (h : Iterates body s o) : Ends (zeroOrMore body) s o := by
  induction h with
  | @moves s s' value o hrun hmoved _ ih =>
    obtain ⟨ho, bound, hbound⟩ := ih
    have hmap : o.map (value :: ·) ≠ .unfinished := by
      cases o with
      | success | failure => simp
      | unfinished => exact absurd rfl ho
    refine ends_of_succ hmap bound fun limit hlimit => ?_
    simp only [zeroOrMore, hrun, hmoved, if_false, hbound limit hlimit]
  | stays hrun hstay =>
    refine ends_of_succ (by simp) 0 fun limit _ => ?_
    simp only [zeroOrMore, hrun, hstay, if_true]
  | commits hrun hf | recovers hrun hf =>
    refine ends_of_succ (by simp) 0 fun limit _ => ?_
    simp [zeroOrMore, hrun, hf]

lemma iterates_of_zeroOrMore {limit : Nat} (h : zeroOrMore body limit s = o)
    (ho : o ≠ .unfinished) : Iterates body s o := by
  induction limit generalizing s o with
  | zero => exact absurd h.symm ho
  | succ limit ih =>
    subst h
    simp only [zeroOrMore] at ho ⊢
    cases hrun : body s with
    | success value s' =>
      simp only [hrun] at ho ⊢
      split
      · next hstay => exact .stays hrun hstay
      · next hmoved =>
        have hrest : zeroOrMore body limit s' ≠ .unfinished := by
          intro hcut
          exact ho (by rw [if_neg hmoved, hcut, Outcome.map_unfinished])
        exact .moves hrun hmoved (ih rfl hrest)
    | failure f s' =>
      dsimp only
      split
      · next hf => exact .commits hrun hf
      · next hf => exact .recovers hrun (by simpa using hf)
    | unfinished => exact absurd (by simp only [hrun]) ho

lemma ends_zeroOrMore_iff : Ends (zeroOrMore body) s o ↔ Iterates body s o := by
  constructor
  · rintro ⟨ho, bound, hbound⟩
    exact iterates_of_zeroOrMore (hbound bound (Nat.le_refl bound)) ho
  · exact Iterates.ends

lemma oneOrMore_of_failure {f : Failure} (h : body s = .failure f s') (limit : Nat) :
    oneOrMore body limit s = .failure f s' := by
  simp only [oneOrMore, h]

/-- The bound of a repetition that has to match once does not count the first run. -/
lemma oneOrMore_of_ne_failure (h : ∀ f s', body s ≠ .failure f s') (limit : Nat) :
    oneOrMore body limit s = zeroOrMore body (limit + 1) s := by
  simp only [oneOrMore, zeroOrMore]
  cases hrun : body s with
  | success | unfinished => rfl
  | failure f s' => exact absurd hrun (h f s')

lemma ends_oneOrMore_of_failure {f : Failure} (h : body s = .failure f s') :
    Ends (oneOrMore body) s o ↔ o = .failure f s' := by
  constructor
  · rintro ⟨-, bound, hbound⟩
    exact (hbound bound (Nat.le_refl bound)).symm.trans (oneOrMore_of_failure h bound)
  · rintro rfl
    exact ⟨by simp, 0, fun limit _ => oneOrMore_of_failure h limit⟩

lemma ends_oneOrMore_of_ne_failure (h : ∀ f s', body s ≠ .failure f s') :
    Ends (oneOrMore body) s o ↔ Ends (zeroOrMore body) s o := by
  simp only [Ends, oneOrMore_of_ne_failure h]
  constructor
  · rintro ⟨ho, bound, hbound⟩
    exact ends_of_succ ho bound hbound
  · rintro ⟨ho, bound, hbound⟩
    exact ⟨ho, bound, fun limit hlimit => hbound (limit + 1) (by omega)⟩

end Body

/-- A choice goes back to where it began before it tries to match nothing, as an option does. -/
lemma optional_eq_choice (attempt : Action (Option α)) (s : State) :
    (optional attempt s).map Option.join = choice [attempt, Run.succeed none] s := by
  simp only [choice, choiceFrom, optional]
  cases attempt s with
  | success | unfinished => rfl
  | failure f s' =>
    dsimp only
    split
    · rfl
    · rfl

/-- An option ends as the choice with an alternative that matches nothing, and that choice is what
the compiler writes for it. A repetition that has to match once ends as the first run of its body
does if that fails, and else just as the one that need not match: in the same way and in the same
state, or neither of them ends. The runs of the body one after the other tell how that one ends. -/
theorem spellings_agree (attempt : Action (Option α)) (body : Action β) (s : State) :
    (optional attempt s).map Option.join = choice [attempt, Run.succeed none] s ∧
    (∀ g quiet e span, (Expr.optional e span).compile g quiet =
      (do return .choice [← Compiler.nested (e.compile g quiet), .empty])) ∧
    (∀ invoke start (code : Code), (Code.choice [code, .empty]).action invoke start s =
      (optional (code.action invoke start) s).map Option.join) ∧
    (∀ o, Ends (oneOrMore body) s o ↔
      match body s with
      | .failure f s' => o = .failure f s'
      | _ => Ends (zeroOrMore body) s o) ∧
    ∀ o, Ends (zeroOrMore body) s o ↔ Iterates body s o := by
  refine ⟨optional_eq_choice attempt s, Expr.compile_optional, fun invoke start code => ?_,
    fun o => ?_, fun o => ends_zeroOrMore_iff⟩
  · simp only [Code.action, Code.alternativeActions]
    exact (optional_eq_choice (code.action invoke start) s).symm
  · cases hrun : body s with
    | failure f s' => exact ends_oneOrMore_of_failure hrun
    | success | unfinished => exact ends_oneOrMore_of_ne_failure (by simp [hrun])

/-- The second run of the body throws a label, which ends both repetitions. -/
theorem spellings_agree_label :
    let body : Action (Option Tree) := choice [literal "a", throwLabel "missing" 0]
    let s : State := .ofString "ab"
    let o : Outcome Failure State (List (Option Tree)) :=
      .failure (.labeled "missing" none ⟨0, 1⟩) { s with location := 1, failure := 1 }
    Ends (zeroOrMore body) s o ∧ Ends (oneOrMore body) s o := by
  intro body s o
  have hfirst : body s = .success (some (.piece "a" ⟨0, 1⟩)) (s.advance 1) := rfl
  have hsecond : body (s.advance 1) =
      .failure (.labeled "missing" none ⟨0, 1⟩) { s with location := 1, failure := 1 } := rfl
  have hrest : Iterates body (s.advance 1) o := .commits hsecond rfl
  have hruns : Iterates body s o := .moves hfirst (by decide) hrest
  obtain ⟨-, -, -, hone, hzero⟩ := spellings_agree body body s
  have hends : Ends (zeroOrMore body) s o := (hzero o).mpr hruns
  refine ⟨hends, (hone o).mpr ?_⟩
  rw [hfirst]
  exact hends

end Parse.Action

end LabeledPeg
