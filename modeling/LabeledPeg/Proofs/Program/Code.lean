import LabeledPeg.Program.Code

/-!
# Induction over code

Induction over fragments of a parser, with one hypothesis for every step or alternative. What lies
in a procedure or a program inside a fragment is not run, and has no hypothesis.
-/

namespace LabeledPeg.Code

/-- Induction over a fragment and the lists below it. -/
@[elab_as_elim]
theorem inductionOn {motive : Code → Prop} (code : Code)
    (sequence : ∀ steps, (∀ c ∈ steps, motive c) → motive (.sequence steps))
    (choice : ∀ alternatives, (∀ c ∈ alternatives, motive c) → motive (.choice alternatives))
    (empty : motive .empty)
    (repetition : ∀ kind body, motive body → motive (.repetition kind body))
    (lookahead : ∀ kind body, motive body → motive (.lookahead kind body))
    (labeled : ∀ body, motive body → motive (.labeled body))
    (throw : ∀ label site, motive (.throw label site))
    (call : ∀ rule site, motive (.call rule site))
    (builtin : ∀ rule site, motive (.builtin rule site))
    (literal : ∀ value site, motive (.literal value site))
    (range : ∀ lo hi site, motive (.range lo hi site))
    (any : ∀ site, motive (.any site))
    (procedure : ∀ name body, motive (.procedure name body))
    (program : ∀ procedures, motive (.program procedures)) : motive code := by
  induction hn : sizeOf code using Nat.strongRecOn generalizing code with
  | _ n ih =>
    subst hn
    have hbody : ∀ body : Code, sizeOf body < sizeOf code → motive body :=
      fun body h => ih _ h body rfl
    cases code with
    | sequence steps =>
      refine sequence steps fun c hc => hbody c ?_
      have := List.sizeOf_lt_of_mem hc
      simp only [Code.sequence.sizeOf_spec]
      omega
    | choice alternatives =>
      refine choice alternatives fun c hc => hbody c ?_
      have := List.sizeOf_lt_of_mem hc
      simp only [Code.choice.sizeOf_spec]
      omega
    | empty => exact empty
    | repetition kind body =>
      refine repetition kind body (hbody body ?_)
      simp only [Code.repetition.sizeOf_spec]
      omega
    | lookahead kind body =>
      refine lookahead kind body (hbody body ?_)
      simp only [Code.lookahead.sizeOf_spec]
      omega
    | labeled body => exact labeled body (hbody body (by simp))
    | throw label site => exact throw label site
    | call rule site => exact call rule site
    | builtin rule site => exact builtin rule site
    | literal value site => exact literal value site
    | range lo hi site => exact range lo hi site
    | any site => exact any site
    | procedure name body => exact procedure name body
    | program procedures => exact program procedures

end LabeledPeg.Code
