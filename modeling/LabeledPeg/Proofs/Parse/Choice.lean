import LabeledPeg.Proofs.Parse.Bookkeeping
import Mathlib.Data.List.Induction

/-!
# What a choice selects

A choice is over with the first alternative that matches or fails with a commitment. If there is none,
it fails where it began, with the failure that got farthest, and of several that got equally far with
the last one. This holds of any alternatives that leave the input and the policy alone.
-/

namespace LabeledPeg.Parse

/-- What an alternative of a choice has to keep. -/
structure State.Keeps (s s' : State) : Prop where
  input : s'.input = s.input
  policy : s'.policy = s.policy
  within : s'.location ≤ s'.length

/-- The way back to where a choice began ends there. -/
lemma State.Keeps.location_goto {s s' : State} (h : s.Keeps s') (hs : s.location ≤ s.length) :
    (s'.goto s.location).location = s.location := by
  simp only [State.goto, h.input]
  exact min_eq_left hs

namespace Action

variable {α : Type} {alternatives others : List (Action α)} {start : Nat} {s t : State}
  {failures : List Failure} {f g : Failure}

/-- Whether a step, from a location within the input, keeps what an alternative has to keep. -/
def Keeps (a : Action α) : Prop :=
  ∀ s s', s.location ≤ s.length → (a s).state? = some s' → s.Keeps s'

lemma Advances.keeps {a : Action α} (h : a.Advances) : a.Keeps := by
  intro s s' hs hrun
  have hadvanced := h s s' hs hrun
  exact ⟨hadvanced.input, hadvanced.policy, hadvanced.within⟩

/-- Whether a choice is over with an outcome: with any but a failure that does not commit. -/
def IsFinal (o : Outcome Failure State α) : Prop := ∀ f s', o = .failure f s' → s'.commits f = true

/-- Whether alternatives are tried one after the other, each from the location `start`, and given up
with the failures listed, none of which commits. -/
inductive Tries (start : Nat) : List (Action α) → List Failure → State → State → Prop
  | nil {s : State} (hstart : s.location = start) : Tries start [] [] s s
  | cons {a : Action α} {alternatives : List (Action α)} {f : Failure} {failures : List Failure}
    {s s' t : State} (hstart : s.location = start) (h : a s = .failure f s')
    (hf : s'.commits f = false) (hrest : Tries start alternatives failures (s'.goto start) t) :
    Tries start (a :: alternatives) (f :: failures) s t

lemma Tries.location_eq (h : Tries start alternatives failures s t) : t.location = start := by
  induction h with
  | nil hstart => exact hstart
  | cons _ _ _ _ ih => exact ih

/-- Whether a failure is one of those listed that got farthest, the last one of them. -/
def IsFarthest (failures : List Failure) (f : Failure) : Prop :=
  ∃ before after, failures = before ++ f :: after ∧
    (∀ g ∈ before, g.position ≤ f.position) ∧ ∀ g ∈ after, g.position < f.position

/-- The failure to be reported of those listed and one before them. -/
def farthestFrom (earlier? : Option Failure) (failures : List Failure) : Option Failure :=
  failures.foldl (fun earlier? f => some (farther earlier? f)) earlier?

lemma isFarthest_farther (h : IsFarthest failures f) :
    IsFarthest (failures ++ [g]) (farther (some f) g) := by
  obtain ⟨before, after, rfl, hbefore, hafter⟩ := h
  unfold farther
  dsimp only
  by_cases hg : g.position < f.position
  · rw [if_pos hg]
    refine ⟨before, after ++ [g], by simp, hbefore, ?_⟩
    exact List.forall_mem_append.mpr ⟨hafter, List.forall_mem_singleton.mpr hg⟩
  · rw [if_neg hg]
    -- the new failure got as far as all others
    have hle : f.position ≤ g.position := Nat.le_of_not_lt hg
    refine ⟨before ++ f :: after, [], rfl, ?_, List.forall_mem_nil _⟩
    refine List.forall_mem_append.mpr ⟨fun other hother => (hbefore other hother).trans hle,
      List.forall_mem_cons.mpr ⟨hle, fun other hother => ?_⟩⟩
    exact (hafter other hother).le.trans hle

lemma isFarthest_farthestFrom (hne : failures ≠ []) :
    ∃ f, farthestFrom none failures = some f ∧ IsFarthest failures f := by
  induction failures using List.reverseRecOn with
  | nil => exact absurd rfl hne
  | append_singleton failures g ih =>
    have hlast : farthestFrom none (failures ++ [g]) =
        some (farther (farthestFrom none failures) g) := by
      unfold farthestFrom
      rw [List.foldl_append, List.foldl_cons, List.foldl_nil]
    refine ⟨_, hlast, ?_⟩
    by_cases hnil : failures = []
    · subst hnil
      exact ⟨[], [], rfl, List.forall_mem_nil _, List.forall_mem_nil _⟩
    · obtain ⟨f, hf, hfarthest⟩ := ih hnil
      rw [hf]
      exact isFarthest_farther hfarthest

/-- A choice goes on behind the alternatives that are given up. -/
lemma choiceFrom_of_tries {earlier? : Option Failure}
    (h : Tries start alternatives failures s t) : choiceFrom start earlier? (alternatives ++ others) s =
      choiceFrom start (farthestFrom earlier? failures) others t := by
  induction h generalizing earlier? with
  | nil => rfl
  | cons _ hrun hf _ ih =>
    rw [List.cons_append, choiceFrom]
    simp only [hrun, hf, Bool.false_eq_true, if_false]
    exact ih

lemma choiceFrom_of_isFinal {a : Action α} {earlier? : Option Failure} (h : IsFinal (a s)) :
    choiceFrom start earlier? (a :: others) s = a s := by
  simp only [choiceFrom]
  cases hrun : a s with
  | failure f s' => simp only [h f s' hrun, if_true]
  | success | unfinished => rfl

/-- Some alternative ends the choice, or all are given up. -/
lemma exists_tries (h : ∀ a ∈ alternatives, a.Keeps) (hs : s.location ≤ s.length)
    (hstart : s.location = start) :
    (∃ earlier a later failures t, alternatives = earlier ++ a :: later ∧
      Tries start earlier failures s t ∧ IsFinal (a t)) ∨
    ∃ failures t, Tries start alternatives failures s t := by
  induction alternatives generalizing s with
  | nil => exact .inr ⟨[], s, .nil hstart⟩
  | cons a alternatives ih =>
    by_cases hfinal : IsFinal (a s)
    · exact .inl ⟨[], a, alternatives, [], s, rfl, .nil hstart, hfinal⟩
    · obtain ⟨f, s', hrun, hf⟩ : ∃ f s', a s = .failure f s' ∧ s'.commits f = false := by
        simpa [IsFinal] using hfinal
      have hkeeps : s.Keeps s' := h a List.mem_cons_self s s' hs (by rw [hrun]; rfl)
      have hback : (s'.goto start).location = start := hstart ▸ hkeeps.location_goto hs
      have hwithin : (s'.goto start).location ≤ (s'.goto start).length := min_le_right _ _
      obtain ⟨earlier, b, later, failures, t, rfl, htries, hb⟩ | ⟨failures, t, htries⟩ :=
        ih (fun b hb => h b (List.mem_cons_of_mem a hb)) hwithin hback
      · exact .inl ⟨a :: earlier, b, later, f :: failures, t, rfl, .cons hstart hrun hf htries, hb⟩
      · exact .inr ⟨f :: failures, t, .cons hstart hrun hf htries⟩

/-- A choice ends as the first alternative that matches or fails with a commitment, tried from where
the choice began. If all are given up, it fails there with the last one of the failures that got
farthest, and notes that place; without alternatives it fails, too. One of these is always so. -/
theorem choice_selects (h : ∀ a ∈ alternatives, a.Keeps) (hs : s.location ≤ s.length) :
    (∀ earlier a later failures t, alternatives = earlier ++ a :: later →
      Tries s.location earlier failures s t → IsFinal (a t) → choice alternatives s = a t) ∧
    (∀ failures t, Tries s.location alternatives failures s t → t.location = s.location ∧
      ∃ f, choice alternatives s = .failure f { t with failure := f.position } ∧
        (alternatives ≠ [] → IsFarthest failures f) ∧
        (alternatives = [] → f = .predicate "no alternatives" (.point s.location))) ∧
    ((∃ earlier a later failures t, alternatives = earlier ++ a :: later ∧
      Tries s.location earlier failures s t ∧ IsFinal (a t)) ∨
    ∃ failures t, Tries s.location alternatives failures s t) := by
  refine ⟨?_, fun failures t htries => ⟨htries.location_eq, ?_⟩, exists_tries h hs rfl⟩
  · rintro earlier a later failures t rfl htries hfinal
    exact (choiceFrom_of_tries htries).trans (choiceFrom_of_isFinal hfinal)
  · have hrun : choice alternatives s =
        choiceFrom s.location (farthestFrom none failures) [] t := by
      have hall : choiceFrom s.location none (alternatives ++ []) s = _ := choiceFrom_of_tries htries
      rwa [List.append_nil] at hall
    cases htries with
    | nil => exact ⟨_, hrun, fun hne => absurd rfl hne, fun _ => rfl⟩
    | cons =>
      obtain ⟨f, hf, hfarthest⟩ := isFarthest_farthestFrom (List.cons_ne_nil _ _)
      rw [hf] at hrun
      exact ⟨f, hrun, fun _ => hfarthest, fun hnil => absurd hnil (List.cons_ne_nil _ _)⟩

/-- Two failures get equally far behind one that gets less far, and a label ends the choice before
an alternative that matches. The latest failure before was an old one. -/
theorem choice_selects_abx :
    let s : State := ⟨#['c', 'a', 'b', 'x'], 1, 4, [], .commit⟩
    (∃ f, choice [literal "abc", literal "abz", literal "ay", literal "z"] s =
        .failure f { s with failure := f.position } ∧
      IsFarthest [.mismatch "'abc'" 'x' (.point 3), .mismatch "'abz'" 'x' (.point 3),
        .mismatch "'ay'" 'b' (.point 2), .mismatch "'z'" 'a' (.point 1)] f) ∧
    choice [literal "ac", traced "S" (throwLabel "missing" 1), literal "a"] s =
      .failure (.labeled "missing" (some "S") ⟨1, 2⟩) { s with failure := 2 } := by
  intro s
  have hliteral : ∀ value, (literal value).Keeps := fun value => (advances_literal value).keeps
  have hthrow : (traced "S" (throwLabel "missing" 1 : Action (Option Tree))).Keeps :=
    ((advances_throwLabel "missing" 1).traced "S").keeps
  have hwithin : s.location ≤ s.length := by decide
  have hall : Tries 1 [literal "abc", literal "abz", literal "ay", literal "z"]
      [.mismatch "'abc'" 'x' (.point 3), .mismatch "'abz'" 'x' (.point 3),
        .mismatch "'ay'" 'b' (.point 2), .mismatch "'z'" 'a' (.point 1)] s { s with failure := 1 } :=
    .cons rfl rfl rfl (.cons rfl rfl rfl (.cons rfl rfl rfl (.cons rfl rfl rfl (.nil rfl))))
  have hfirst : Tries 1 [literal "ac"] [.mismatch "'ac'" 'b' (.point 2)] s { s with failure := 2 } :=
    .cons rfl rfl rfl (.nil rfl)
  have hfarthest := (choice_selects (by simp [hliteral]) hwithin).2.1 _ _ hall
  obtain ⟨-, f, hrun, hf, -⟩ := hfarthest
  refine ⟨⟨f, hrun, hf (List.cons_ne_nil _ _)⟩, ?_⟩
  have hcommit : IsFinal (traced "S" (throwLabel "missing" 1 : Action (Option Tree))
      { s with failure := 2 }) := by
    rintro _ _ h
    obtain ⟨rfl, rfl⟩ := Outcome.failure.inj h
    rfl
  exact (choice_selects (by simp [hliteral, hthrow]) hwithin).1 [literal "ac"]
    (traced "S" (throwLabel "missing" 1)) [literal "a"] _ { s with failure := 2 } rfl hfirst hcommit

end Action

end LabeledPeg.Parse
