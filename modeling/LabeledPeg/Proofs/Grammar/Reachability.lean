import LabeledPeg.Grammar.Reachability
import Mathlib.Order.Monotone.Basic
import Mathlib.Data.List.Basic

/-!
# Reachability is the least closure

The rounds of the closure stop growing by the time there were as many as there are rules, so that
the reachable names are the least set that holds the defined roots and all that their bodies refer
to.
-/

namespace LabeledPeg.Grammar

/-- The names that can be reached from `roots` by going from a rule to the rules that its body
refers to. -/
inductive Reaches (g : Grammar) (roots : List String) : String → Prop where
  | root {name : String} (hroot : name ∈ roots) (hdefined : name ∈ g.names) : Reaches g roots name
  | step {d : Definition} {r : Reference} (hreaches : Reaches g roots d.name)
      (hd : d ∈ g.definitions) (hr : r ∈ d.body.references) (hdefined : r.name ∈ g.names) :
      Reaches g roots r.name

variable {g : Grammar}

lemma expandBy_succ (rounds : Nat) (found : List String) :
    g.expandBy (rounds + 1) found = g.expand (g.expandBy rounds found) := by
  induction rounds generalizing found with
  | zero => rfl
  | succ rounds ih => exact ih (g.expand found)

/-- Whether a list of names is in the order of the definitions. -/
def Ordered (g : Grammar) (found : List String) : Prop := g.names.filter found.contains = found

lemma ordered_filter (p : String → Bool) : g.Ordered (g.names.filter p) := by
  unfold Ordered
  apply List.filter_congr
  intro name hname
  simp [hname]

lemma ordered_expandBy (rounds : Nat) {found : List String} (h : g.Ordered found) :
    g.Ordered (g.expandBy rounds found) := by
  cases rounds with
  | zero => exact h
  | succ rounds =>
    rw [expandBy_succ]
    exact ordered_filter _

lemma sublist_expand {found : List String} (h : g.Ordered found) :
    found.Sublist (g.expand found) := by
  conv_lhs => rw [← h]
  unfold expand
  apply List.monotone_filter_right
  intro name hname
  have hmem : name ∈ found := by simpa using hname
  simp [hmem]

/-- After as many rounds as there are definitions another round adds nothing. -/
lemma expand_expandBy_length {found : List String} (h : g.Ordered found) :
    g.expand (g.expandBy g.definitions.length found) = g.expandBy g.definitions.length found := by
  have hsub : ∀ n, (g.expandBy n found).Sublist (g.expandBy (n + 1) found) := by
    intro n
    rw [expandBy_succ]
    exact sublist_expand (ordered_expandBy n h)
  have hmono : Monotone fun n => (g.expandBy n found).length :=
    monotone_nat_of_le_succ fun n => (hsub n).length_le
  have hbound : ∀ n, (g.expandBy n found).length ≤ g.definitions.length := by
    intro n
    have hle := List.length_filter_le (g.expandBy n found).contains g.names
    rw [ordered_expandBy n h] at hle
    simpa [names] using hle
  have hstop : ∀ n, (g.expandBy n found).length = (g.expandBy (n + 1) found).length →
      (g.expandBy (n + 1) found).length = (g.expandBy (n + 1 + 1) found).length := by
    intro n hn
    have heq := (hsub n).eq_of_length hn
    rw [expandBy_succ (n + 1), ← heq, ← expandBy_succ, ← heq]
  have hlength := Nat.stabilises_of_monotone hmono hbound hstop
    (Nat.le_succ g.definitions.length)
  rw [← expandBy_succ]
  exact ((hsub _).eq_of_length hlength.symm).symm

lemma reaches_of_mem_expandBy {roots found : List String} {rounds : Nat}
    (hfound : ∀ name ∈ found, g.Reaches roots name) :
    ∀ name ∈ g.expandBy rounds found, g.Reaches roots name := by
  induction rounds generalizing found with
  | zero => exact hfound
  | succ rounds ih =>
    apply ih
    intro name hname
    obtain ⟨hdefined, hin | ⟨d, hd, hdin, r, hr, rfl⟩⟩ := mem_expand.mp hname
    · exact hfound name hin
    · exact .step (hfound d.name hdin) hd hr hdefined

/-- The closure by rounds finds exactly the names that can be reached. -/
theorem mem_reachable_iff {roots : List String} {name : String} :
    name ∈ g.reachable roots ↔ g.Reaches roots name := by
  have hordered : g.Ordered (g.names.filter roots.contains) := ordered_filter _
  constructor
  · apply reaches_of_mem_expandBy
    intro name hname
    simp only [List.mem_filter, List.contains_eq_mem, decide_eq_true_eq] at hname
    exact .root hname.2 hname.1
  · intro h
    unfold reachable
    have hclosed := expand_expandBy_length hordered
    induction h with
    | root hroot hdefined =>
      have hstart : ∀ n, ∀ name ∈ g.names.filter roots.contains,
          name ∈ g.expandBy n (g.names.filter roots.contains) := by
        intro n
        induction n with
        | zero => exact fun _ h => h
        | succ n ih =>
          intro name hname
          rw [expandBy_succ]
          exact (sublist_expand (ordered_expandBy n hordered)).subset (ih name hname)
      exact hstart _ _ (by simp [hroot, hdefined])
    | step hreaches hd hr hdefined ih =>
      rw [← hclosed]
      exact mem_expand.mpr ⟨hdefined, .inr ⟨_, hd, ih, _, hr, rfl⟩⟩

end LabeledPeg.Grammar
