import LabeledPeg.Outcome
import Mathlib.Tactic.Lemma

/-!
# How runs end

A run that is made of others succeeds exactly if all of them do, one after the other, fails if one
of them does, and is cut off only if one of them is. What all of them keep true of the states is
true whether the run succeeds or fails.
-/

namespace LabeledPeg

variable {ε σ α β : Type}

namespace Outcome

variable {o : Outcome ε σ α} {s' : σ} {b : β}

theorem bind_eq_success_iff {next : α → σ → Outcome ε σ β} :
    o.bind next = .success b s' ↔ ∃ a s, o = .success a s ∧ next a s = .success b s' := by
  constructor
  · intro h
    cases o with
    | success a s => exact ⟨a, s, rfl, h⟩
    | failure e s => cases h
    | unfinished => cases h
  · rintro ⟨a, s, rfl, h⟩
    exact h

theorem bind_eq_failure_iff {next : α → σ → Outcome ε σ β} {e : ε} :
    o.bind next = .failure e s' ↔
      o = .failure e s' ∨ ∃ a s, o = .success a s ∧ next a s = .failure e s' := by
  constructor
  · intro h
    cases o with
    | success a s => exact .inr ⟨a, s, rfl, h⟩
    | failure e' s =>
      obtain ⟨rfl, rfl⟩ := Outcome.failure.inj h
      exact .inl rfl
    | unfinished => cases h
  · rintro (rfl | ⟨a, s, rfl, h⟩)
    · rfl
    · exact h

theorem map_eq_success_iff {f : α → β} :
    o.map f = .success b s' ↔ ∃ a, o = .success a s' ∧ f a = b := by
  constructor
  · intro h
    cases o with
    | success a s =>
      obtain ⟨rfl, rfl⟩ := Outcome.success.inj h
      exact ⟨a, rfl, rfl⟩
    | failure e s => cases h
    | unfinished => cases h
  · rintro ⟨a, rfl, rfl⟩
    rfl

theorem mapState_eq_success_iff {f : σ → σ} {a : α} :
    o.mapState f = .success a s' ↔ ∃ s, o = .success a s ∧ f s = s' := by
  constructor
  · intro h
    cases o with
    | success b s =>
      obtain ⟨rfl, rfl⟩ := Outcome.success.inj h
      exact ⟨s, rfl, rfl⟩
    | failure e s => cases h
    | unfinished => cases h
  · rintro ⟨s, rfl, rfl⟩
    rfl

theorem filterMapState_eq_success_iff {f : σ → Option σ} {a : α} :
    o.filterMapState f = .success a s' ↔ ∃ s, o = .success a s ∧ f s = some s' := by
  constructor
  · intro h
    cases o with
    | success b s =>
      cases hf : f s with
      | none => simp [filterMapState, hf] at h
      | some d =>
        simp only [filterMapState, hf, Option.elim_some, success.injEq] at h
        obtain ⟨rfl, rfl⟩ := h
        exact ⟨s, rfl, hf⟩
    | failure e s => cases hf : f s <;> simp [filterMapState, hf] at h
    | unfinished => cases h
  · rintro ⟨s, rfl, hf⟩
    simp [filterMapState, hf]

theorem result?_eq_ok_iff {a : α} : o.result? = some (.ok a) ↔ ∃ s, o = .success a s := by
  cases o with
  | success a' s => simp [result?]
  | failure e s => simp [result?]
  | unfinished => simp [result?]

end Outcome

namespace Run

variable {s s' : σ}

theorem bind_of_success {x : Run ε σ α} {f : α → Run ε σ β} {a : α} (h : x s = .success a s') :
    (x >>= f) s = f a s' := by
  rw [bind_apply, h]
  rfl

theorem bind_of_failure {x : Run ε σ α} {f : α → Run ε σ β} {e : ε} (h : x s = .failure e s') :
    (x >>= f) s = .failure e s' := by
  rw [bind_apply, h]
  rfl

theorem bind_of_unfinished {x : Run ε σ α} {f : α → Run ε σ β} (h : x s = .unfinished) :
    (x >>= f) s = .unfinished := by
  rw [bind_apply, h]
  rfl

theorem bind_eq_success_iff {x : Run ε σ α} {f : α → Run ε σ β} {b : β} :
    (x >>= f) s = .success b s' ↔ ∃ a s₁, x s = .success a s₁ ∧ f a s₁ = .success b s' :=
  Outcome.bind_eq_success_iff

theorem ofExcept_eq_success_iff {x : Except ε α} {a : α} :
    (ofExcept x : Run ε σ α) s = .success a s' ↔ x = .ok a ∧ s' = s := by
  cases x <;> simp [ofExcept, succeed, fail, eq_comm]

theorem bind_eq_failure_iff {x : Run ε σ α} {f : α → Run ε σ β} {e : ε} :
    (x >>= f) s = .failure e s' ↔
      x s = .failure e s' ∨ ∃ a s₁, x s = .success a s₁ ∧ f a s₁ = .failure e s' :=
  Outcome.bind_eq_failure_iff

theorem ofExcept_eq_failure_iff {x : Except ε α} {e : ε} :
    (ofExcept x : Run ε σ α) s = .failure e s' ↔ x = .error e ∧ s' = s := by
  cases x <;> simp [ofExcept, succeed, fail, eq_comm]

theorem result?_ofExcept (r : Except ε α) (s : σ) : (ofExcept r s).result? = some r := by
  cases r <;> rfl

theorem state?_ofExcept (r : Except ε α) (s : σ) : (ofExcept r s).state? = some s := by
  cases r <;> rfl

/-- Whether a computation is never cut off. -/
def Finishes (x : Run ε σ α) : Prop := ∀ s, x s ≠ .unfinished

lemma finishes_pure {value : α} : Finishes (pure value : Run ε σ α) := fun _ h => nomatch h

lemma finishes_fail {e : ε} : Finishes (fail e : Run ε σ α) := fun _ h => nomatch h

lemma finishes_current : Finishes (current : Run ε σ σ) := fun _ h => nomatch h

lemma finishes_update {f : σ → σ} : Finishes (update f : Run ε σ Unit) := fun _ h => nomatch h

lemma finishes_ofExcept {x : Except ε α} : Finishes (ofExcept x : Run ε σ α) := by
  cases x with
  | ok a => exact finishes_pure
  | error e => exact finishes_fail

lemma Finishes.bind {x : Run ε σ α} {f : α → Run ε σ β} (h : Finishes x)
    (hf : ∀ a, Finishes (f a)) : Finishes (x >>= f) := by
  intro s hs
  rw [bind_apply] at hs
  cases hx : x s with
  | success a s₁ =>
    rw [hx] at hs
    exact hf a s₁ hs
  | failure e s₁ =>
    rw [hx] at hs
    cases hs
  | unfinished => exact h s hx

lemma finishes_ofExcept_bind {x : Except ε α} {f : α → Run ε σ β}
    (hf : ∀ a, x = .ok a → Finishes (f a)) : Finishes (ofExcept x >>= f) := by
  intro s hs
  cases x with
  | error e => cases hs
  | ok a => exact hf a rfl s hs

end Run

/-- How a run ends that keeps what is true of the states: with a value of one kind, with an error of
another, or cut off. -/
inductive Outcome.Keeps (keeps : σ → Prop) (returns : α → Prop) (reports : ε → Prop) :
    Outcome ε σ α → Prop
  | success {a : α} {s : σ} (ha : returns a) (hs : keeps s) :
    Keeps keeps returns reports (.success a s)
  | failure {e : ε} {s : σ} (he : reports e) (hs : keeps s) :
    Keeps keeps returns reports (.failure e s)
  | unfinished : Keeps keeps returns reports .unfinished

namespace Outcome.Keeps

variable {keeps : σ → Prop} {returns : α → Prop} {reports : ε → Prop} {o : Outcome ε σ α}

lemma reports_of_result? (h : o.Keeps keeps returns reports) {e : ε}
    (he : o.result? = some (.error e)) : reports e := by
  cases h with
  | success ha hs => cases he
  | failure hreports hs =>
    obtain rfl := Except.error.inj (Option.some.inj he)
    exact hreports
  | unfinished => cases he

lemma keeps_of_state? (h : o.Keeps keeps returns reports) {s : σ} (hs : o.state? = some s) :
    keeps s := by
  cases h with
  | success ha hkeeps => exact Option.some.inj hs ▸ hkeeps
  | failure he hkeeps => exact Option.some.inj hs ▸ hkeeps
  | unfinished => cases hs

end Outcome.Keeps

namespace Run

/-- Whether a computation keeps what is true of the states, and ends with a value of one kind or an
error of another, if it ends. -/
def Ensures (x : Run ε σ α) (keeps : σ → Prop) (returns : α → Prop) (reports : ε → Prop) : Prop :=
  ∀ s, keeps s → (x s).Keeps keeps returns reports

variable {keeps : σ → Prop} {returns : α → Prop} {reports : ε → Prop}

lemma ensures_pure {a : α} (h : returns a) :
    (pure a : Run ε σ α).Ensures keeps returns reports := fun _ hs => .success h hs

lemma ensures_fail {e : ε} (h : reports e) :
    (fail e : Run ε σ α).Ensures keeps returns reports := fun _ hs => .failure h hs

lemma ensures_cutOff : (cutOff : Run ε σ α).Ensures keeps returns reports := fun _ _ => .unfinished

lemma ensures_ofExcept {x : Except ε α} (hok : ∀ a, x = .ok a → returns a)
    (herror : ∀ e, x = .error e → reports e) :
    (ofExcept x : Run ε σ α).Ensures keeps returns reports := by
  cases x with
  | ok a => exact ensures_pure (hok a rfl)
  | error e => exact ensures_fail (herror e rfl)

lemma ensures_current : (current : Run ε σ σ).Ensures keeps keeps reports :=
  fun _ hs => .success hs hs

lemma ensures_update {f : σ → σ} (h : ∀ s, keeps s → keeps (f s)) :
    (update f : Run ε σ Unit).Ensures keeps (fun _ => True) reports :=
  fun s hs => .success trivial (h s hs)

lemma Ensures.bind {x : Run ε σ α} {f : α → Run ε σ β} {returns' : β → Prop}
    (h : x.Ensures keeps returns reports)
    (hf : ∀ a, returns a → (f a).Ensures keeps returns' reports) :
    (x >>= f).Ensures keeps returns' reports := by
  intro s hs
  have hx := h s hs
  rw [bind_apply]
  generalize x s = o at hx ⊢
  cases hx with
  | success ha hs' => exact hf _ ha _ hs'
  | failure he hs' => exact .failure he hs'
  | unfinished => exact .unfinished

end Run

end LabeledPeg
