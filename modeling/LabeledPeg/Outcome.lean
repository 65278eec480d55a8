/-!
# Bounded runs

A run works on a state, may fail, and may be cut off, by the bound on its depth or where there is no
state to go on from. A run that fails still leaves a state, because what comes after a failure depends
on it.
-/

namespace LabeledPeg

/-- How a run on states `σ` ends: with a value, with an error, or cut off. -/
inductive Outcome (ε σ α : Type) where
  | success (value : α) (state : σ)
  | failure (error : ε) (state : σ)
  | unfinished

namespace Outcome

variable {ε σ α β : Type}

/-- Changes the value of a success. -/
def map (f : α → β) : Outcome ε σ α → Outcome ε σ β
  | success value state => success (f value) state
  | failure error state => failure error state
  | unfinished => unfinished

/-- Goes on from a success. -/
def bind (o : Outcome ε σ α) (next : α → σ → Outcome ε σ β) : Outcome ε σ β :=
  match o with
  | success value state => next value state
  | failure error state => failure error state
  | unfinished => unfinished

/-- Changes the state that a finished run leaves. -/
def mapState (f : σ → σ) : Outcome ε σ α → Outcome ε σ α
  | success value state => success value (f state)
  | failure error state => failure error (f state)
  | unfinished => unfinished

/-- Changes the state that a finished run leaves; the run is cut off where `f` has no state for it. -/
def filterMapState (f : σ → Option σ) : Outcome ε σ α → Outcome ε σ α
  | success value state => (f state).elim unfinished (success value)
  | failure error state => (f state).elim unfinished (failure error)
  | unfinished => unfinished

/-- The state that a finished run leaves. -/
def state? : Outcome ε σ α → Option σ
  | success _ state | failure _ state => some state
  | unfinished => none

/-- The value or error of a finished run. -/
def result? : Outcome ε σ α → Option (Except ε α)
  | success value _ => some (.ok value)
  | failure error _ => some (.error error)
  | unfinished => none

@[simp] theorem map_success (f : α → β) (value : α) (state : σ) :
    (success value state : Outcome ε σ α).map f = success (f value) state := rfl

@[simp] theorem map_failure (f : α → β) (error : ε) (state : σ) :
    (failure error state : Outcome ε σ α).map f = failure error state := rfl

@[simp] theorem map_unfinished (f : α → β) :
    (unfinished : Outcome ε σ α).map f = unfinished := rfl

@[simp] theorem bind_success (value : α) (state : σ) (next : α → σ → Outcome ε σ β) :
    (success value state).bind next = next value state := rfl

@[simp] theorem bind_failure (error : ε) (state : σ) (next : α → σ → Outcome ε σ β) :
    (failure error state).bind next = failure error state := rfl

@[simp] theorem bind_unfinished (next : α → σ → Outcome ε σ β) :
    (unfinished : Outcome ε σ α).bind next = unfinished := rfl

end Outcome

/-- A computation on states `σ` with values `α` and errors `ε`. -/
def Run (ε σ α : Type) : Type := σ → Outcome ε σ α

namespace Run

variable {ε σ α β : Type}

/-- Ends with a value and leaves the state alone. -/
def succeed (value : α) : Run ε σ α := fun s => .success value s

/-- Ends with an error and leaves the state alone. -/
def fail (error : ε) : Run ε σ α := fun s => .failure error s

/-- Is cut off at once. -/
def cutOff : Run ε σ α := fun _ => .unfinished

/-- Runs `next` on the value of `first`, from the state that `first` leaves. -/
def andThen (first : Run ε σ α) (next : α → Run ε σ β) : Run ε σ β :=
  fun s => (first s).bind next

instance : Monad (Run ε σ) where
  pure := succeed
  bind := andThen

/-- The current state. -/
def current : Run ε σ σ := fun s => .success s s

/-- Changes the state. -/
def update (f : σ → σ) : Run ε σ Unit := fun s => .success () (f s)

/-- Ends as a computation without state does. -/
def ofExcept : Except ε α → Run ε σ α
  | .ok value => succeed value
  | .error error => fail error

@[simp] theorem pure_apply (value : α) (s : σ) :
    (pure value : Run ε σ α) s = .success value s := rfl

@[simp] theorem bind_apply (first : Run ε σ α) (next : α → Run ε σ β) (s : σ) :
    (first >>= next) s = (first s).bind next := rfl

end Run

end LabeledPeg
