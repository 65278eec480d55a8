import LabeledPeg.Proofs.Parse.Recognizer
import Mathlib.Data.Finset.Prod
import Mathlib.Order.Monotone.Basic

/-!
# How deep rules nest

A greater depth settles how a rule ends at more places and changes nothing that is settled. There
are only so many pairs of a rule and a place, and a depth that settles no new pair is the last one
that could have. So the depth at which a parser runs is enough for every match that ends at all.
-/

namespace LabeledPeg

open Parse

namespace Recognizer

/-- Whether every match ends within the input and not before it began. -/
def Bounded (size : Nat) (r : Recognizer) : Prop :=
  ∀ i ≤ size, ∀ j, r i = some (.matched j) → i ≤ j ∧ j ≤ size

/-- Whether one recognizer says whatever another one says within the input. -/
def Below (size : Nat) (r r' : Recognizer) : Prop :=
  ∀ i ≤ size, ∀ v, r i = some v → r' i = some v

variable {size : Nat} {r r' : Recognizer}

lemma Below.refl (r : Recognizer) : r.Below size r := fun _ _ _ h => h

lemma Below.choice {rs : List (Recognizer × Recognizer)} (h : ∀ p ∈ rs, p.1.Below size p.2) :
    Below size (choice (rs.map Prod.fst)) (choice (rs.map Prod.snd)) := by
  induction rs with
  | nil => exact .refl _
  | cons p rs ih =>
    intro i hi v hv
    simp only [List.map_cons, Recognizer.choice] at hv ⊢
    cases hp : p.1 i with
    | none => simp [hp] at hv
    | some w =>
      rw [h p (by simp) i hi w hp]
      rw [hp] at hv
      cases w with
      | failed => exact ih (fun q hq => h q (by simp [hq])) i hi v hv
      | matched j => exact hv
      | thrown label => exact hv

lemma Below.steps {rs : List (Recognizer × Recognizer)} (h : ∀ p ∈ rs, p.1.Below size p.2)
    (hbounded : ∀ p ∈ rs, p.1.Bounded size) :
    Below size (steps (rs.map Prod.fst)) (steps (rs.map Prod.snd)) := by
  induction rs with
  | nil => exact .refl _
  | cons p rs ih =>
    intro i hi v hv
    simp only [List.map_cons, Recognizer.steps] at hv ⊢
    cases hp : p.1 i with
    | none => simp [hp] at hv
    | some w =>
      rw [h p (by simp) i hi w hp]
      rw [hp] at hv
      cases w with
      | matched j =>
        have hj := (hbounded p (by simp) i hi j hp).2
        exact ih (fun q hq => h q (by simp [hq])) (fun q hq => hbounded q (by simp [hq])) j hj v hv
      | failed => exact hv
      | thrown label => exact hv

lemma Below.zeroOrMore (h : r.Below size r') (hbounded : r.Bounded size) (limit : Nat) :
    (r.zeroOrMore limit).Below size (r'.zeroOrMore limit) := by
  induction limit with
  | zero => exact .refl _
  | succ limit ih =>
    intro i hi v hv
    simp only [Recognizer.zeroOrMore] at hv ⊢
    cases hr : r i with
    | none => simp [hr] at hv
    | some w =>
      rw [h i hi w hr]
      rw [hr] at hv
      cases w with
      | matched j =>
        by_cases hj : j = i
        · simpa [hj] using hv
        · simp only [if_neg hj] at hv ⊢
          exact ih j (hbounded i hi j hr).2 v hv
      | failed => exact hv
      | thrown label => exact hv

lemma Below.oneOrMore (h : r.Below size r') (hbounded : r.Bounded size) (limit : Nat) :
    (r.oneOrMore limit).Below size (r'.oneOrMore limit) := by
  intro i hi v hv
  simp only [Recognizer.oneOrMore] at hv ⊢
  cases hr : r i with
  | none => simp [hr] at hv
  | some w =>
    rw [h i hi w hr]
    rw [hr] at hv
    cases w with
    | matched j =>
      by_cases hj : j = i
      · simpa [hj] using hv
      · simp only [if_neg hj] at hv ⊢
        exact h.zeroOrMore hbounded limit j (hbounded i hi j hr).2 v hv
    | failed => exact hv
    | thrown label => exact hv

lemma Below.lookahead (h : r.Below size r') : r.lookahead.Below size r'.lookahead := by
  intro i hi v hv
  unfold Recognizer.lookahead at hv ⊢
  cases hr : r i with
  | none => simp [hr] at hv
  | some w => rwa [h i hi w hr, ← hr]

lemma Below.notAhead (h : r.Below size r') : r.notAhead.Below size r'.notAhead := by
  intro i hi v hv
  unfold Recognizer.notAhead at hv ⊢
  cases hr : r i with
  | none => simp [hr] at hv
  | some w => rwa [h i hi w hr, ← hr]

end Recognizer

variable {input : Array Char} {policy : LabelPolicy}

lemma Parse.Action.Recognizes.bounded {α : Type} {a : Action α} {r : Recognizer}
    (h : a.Recognizes input policy r) (ha : a.Advances) : r.Bounded input.size := by
  intro i hi j hj
  let s : State := ⟨input, i, 0, [], policy⟩
  have hverdict : (a s).verdict? = some (.matched j) := (h s ⟨rfl, rfl, hi⟩).trans hj
  cases hrun : a s with
  | success value s' =>
    simp only [hrun, Outcome.verdict?, Option.some.injEq, Verdict.matched.injEq] at hverdict
    have hs' := ha.success hi hrun
    exact hverdict ▸ ⟨hs'.start_le, hs'.le_length⟩
  | failure f s' =>
    simp only [hrun, Outcome.verdict?, Option.some.injEq] at hverdict
    exact absurd hverdict (s'.verdictOf_ne_matched f j)
  | unfinished => simp [hrun, Outcome.verdict?] at hverdict

lemma Code.below_recognizer {ask ask' : String → Recognizer}
    (h : ∀ name, (ask name).Below input.size (ask' name))
    (hbounded : ∀ c : Code, (c.recognizer input policy ask).Bounded input.size) (code : Code) :
    (code.recognizer input policy ask).Below input.size (code.recognizer input policy ask') := by
  induction code using inductionOn with
  | sequence steps ih =>
    let pairs := steps.map fun c =>
      (c.recognizer input policy ask, c.recognizer input policy ask')
    have hpairs : ∀ p ∈ pairs, p.1.Below input.size p.2 := by
      intro p hp
      obtain ⟨c, hc, rfl⟩ := List.mem_map.mp hp
      exact ih c hc
    have hfirst : ∀ p ∈ pairs, p.1.Bounded input.size := by
      intro p hp
      obtain ⟨c, hc, rfl⟩ := List.mem_map.mp hp
      exact hbounded c
    have hsteps := Recognizer.Below.steps hpairs hfirst
    simp only [pairs, List.map_map] at hsteps
    simp only [recognizer, recognizers_eq_map]
    exact hsteps
  | choice alternatives ih =>
    let pairs := alternatives.map fun c =>
      (c.recognizer input policy ask, c.recognizer input policy ask')
    have hpairs : ∀ p ∈ pairs, p.1.Below input.size p.2 := by
      intro p hp
      obtain ⟨c, hc, rfl⟩ := List.mem_map.mp hp
      exact ih c hc
    have hchoice := Recognizer.Below.choice hpairs
    simp only [pairs, List.map_map] at hchoice
    simp only [recognizer, recognizers_eq_map]
    exact hchoice
  | repetition kind body ih =>
    cases kind <;> simp only [recognizer]
    · exact fun i hi v hv => ih.zeroOrMore (hbounded body) (input.size - i + 1) i hi v hv
    · exact fun i hi v hv => ih.oneOrMore (hbounded body) (input.size - i + 1) i hi v hv
  | lookahead kind body ih =>
    cases kind <;> simp only [recognizer]
    · exact ih.lookahead
    · exact ih.notAhead
  | labeled body ih => simpa only [recognizer] using ih
  | call rule site => simpa only [recognizer] using h rule
  | builtin rule site =>
    cases rule <;> simp only [recognizer] <;> exact .refl _
  | empty | throw | literal | range | any | procedure | program =>
    simp only [recognizer]
    exact .refl _

namespace Program

variable (p : Program)

lemma bounded_recognizer (depth : Nat) (code : Code) :
    (code.recognizer input policy (p.ruleRecognizer input policy depth)).Bounded input.size :=
  (code.recognizes_action (p.advances_ruleAction depth) (p.recognizes_ruleAction depth) 0).bounded
    (code.advances_action (p.advances_ruleAction depth) 0)

/-- One more round keeps what is between two depths. -/
lemma below_ruleRecognizer_succ {m n : Nat} (h : ∀ name,
    (p.ruleRecognizer input policy m name).Below input.size (p.ruleRecognizer input policy n name))
    (name : String) : (p.ruleRecognizer input policy (m + 1) name).Below input.size
      (p.ruleRecognizer input policy (n + 1) name) := by
  simp only [ruleRecognizer]
  cases p.body? name with
  | some body => exact body.below_recognizer h (p.bounded_recognizer m)
  | none => exact .refl _

/-- A greater depth changes nothing that is settled. -/
lemma below_ruleRecognizer {m n : Nat} (hmn : m ≤ n) (name : String) :
    (p.ruleRecognizer input policy m name).Below input.size
      (p.ruleRecognizer input policy n name) := by
  induction m generalizing n name with
  | zero =>
    intro i hi v hv
    simp [ruleRecognizer] at hv
  | succ m ih =>
    obtain ⟨n, rfl⟩ : ∃ k, n = k + 1 := ⟨n - 1, by omega⟩
    exact p.below_ruleRecognizer_succ (fun name => ih (by omega) name) name

/-- The rules and places at which a depth settles how the match ends. -/
def settled (input : Array Char) (policy : LabelPolicy) (depth : Nat) : Finset (String × Nat) :=
  (p.names.toFinset ×ˢ Finset.range (input.size + 1)).filter fun (name, i) =>
    (p.ruleRecognizer input policy depth name i).isSome

lemma settled_mono {m n : Nat} (hmn : m ≤ n) :
    p.settled input policy m ⊆ p.settled input policy n := by
  intro ⟨name, i⟩ h
  simp only [settled, Finset.mem_filter, Finset.mem_product, Finset.mem_range,
    Option.isSome_iff_exists] at h ⊢
  obtain ⟨hin, v, hv⟩ := h
  exact ⟨hin, v, p.below_ruleRecognizer hmn name i (by omega) v hv⟩

/-- A depth that settles nothing new says no more than a smaller one. -/
lemma below_of_settled_subset {m n : Nat} (hmn : m ≤ n)
    (h : p.settled input policy n ⊆ p.settled input policy m) (name : String) :
    (p.ruleRecognizer input policy n name).Below input.size
      (p.ruleRecognizer input policy m name) := by
  intro i hi v hv
  have hname : name ∈ p.names := by
    cases n with
    | zero => simp [ruleRecognizer] at hv
    | succ n =>
      cases hbody : p.body? name with
      | none => simp [ruleRecognizer, hbody] at hv
      | some body =>
        obtain ⟨q, hq, -⟩ := Option.map_eq_some_iff.mp hbody
        have hqname : q.name = name := by simpa using List.find?_some hq
        exact hqname ▸ List.mem_map_of_mem (List.mem_of_find?_eq_some hq)
  have hsettled : (name, i) ∈ p.settled input policy n := by
    simp only [settled, Finset.mem_filter, Finset.mem_product, List.mem_toFinset, Finset.mem_range]
    exact ⟨⟨hname, by omega⟩, by simp [hv]⟩
  have hbefore := (Finset.mem_filter.mp (h hsettled)).2
  obtain ⟨w, hw⟩ := Option.isSome_iff_exists.mp hbefore
  have hwv := p.below_ruleRecognizer hmn name i hi w hw
  rw [hv] at hwv
  rw [hw, hwv]

/-- The depth at which a parser runs settles every match that ends. -/
theorem ruleRecognizer_eq_of_le {depth : Nat} {name : String} {i : Nat} (hi : i ≤ input.size)
    (hdepth : p.procedures.length * (input.size + 1) ≤ depth) :
    p.ruleRecognizer input policy depth name i =
      p.ruleRecognizer input policy (p.procedures.length * (input.size + 1)) name i := by
  -- the settled pairs of a rule and a place only grow, and there are no more than the bound
  have hmono : Monotone fun n => (p.settled input policy n).card :=
    fun m n hmn => Finset.card_le_card (p.settled_mono hmn)
  have hbound : ∀ n, (p.settled input policy n).card ≤ p.procedures.length * (input.size + 1) := by
    intro n
    calc (p.settled input policy n).card
        ≤ (p.names.toFinset ×ˢ Finset.range (input.size + 1)).card :=
          Finset.card_le_card (Finset.filter_subset _ _)
      _ = p.names.toFinset.card * (input.size + 1) := by
          rw [Finset.card_product, Finset.card_range]
      _ ≤ p.procedures.length * (input.size + 1) := by
          refine Nat.mul_le_mul_right _ ((List.toFinset_card_le _).trans ?_)
          simp [names]
  have hsubset : ∀ {m n}, m ≤ n → (p.settled input policy m).card = (p.settled input policy n).card →
      p.settled input policy n ⊆ p.settled input policy m := by
    intro m n hmn hcard
    exact (Finset.eq_of_subset_of_card_le (p.settled_mono hmn) hcard.ge).ge
  -- once a round settles nothing new, the rounds after it work from the same answers
  have hstop : ∀ n, (p.settled input policy n).card = (p.settled input policy (n + 1)).card →
      (p.settled input policy (n + 1)).card = (p.settled input policy (n + 1 + 1)).card := by
    intro n hn
    have hback := p.below_of_settled_subset (Nat.le_succ n) (hsubset (Nat.le_succ n) hn)
    have hnext := p.below_ruleRecognizer_succ hback
    refine le_antisymm (hmono (Nat.le_succ (n + 1))) (Finset.card_le_card ?_)
    intro ⟨name, i⟩ h
    simp only [settled, Finset.mem_filter, Finset.mem_product, Finset.mem_range,
      Option.isSome_iff_exists] at h ⊢
    obtain ⟨hin, v, hv⟩ := h
    exact ⟨hin, v, hnext name i (by omega) v hv⟩
  have hcard := Nat.stabilises_of_monotone hmono hbound hstop hdepth
  have hback := p.below_of_settled_subset hdepth (hsubset hdepth hcard.symm) name i hi
  cases hv : p.ruleRecognizer input policy depth name i with
  | some v => exact (hback v hv).symm
  | none =>
    cases hw : p.ruleRecognizer input policy (p.procedures.length * (input.size + 1)) name i with
    | none => rfl
    | some w =>
      have hforth := p.below_ruleRecognizer hdepth name i hi w hw
      rw [hv] at hforth
      cases hforth

/-- A parser ends in some way exactly if some depth settles that. -/
theorem parse_verdict?_eq_some_iff {name : String} {s : State} (hs : s.On input policy)
    {v : Verdict} : (p.parse name s).verdict? = some v ↔
      ∃ depth, p.ruleRecognizer input policy depth name s.location = some v := by
  have hparse : (p.parse name s).verdict? =
      p.ruleRecognizer input policy (p.procedures.length * (input.size + 1)) name s.location := by
    unfold parse
    rw [State.length, hs.input_eq]
    exact p.recognizes_ruleAction _ name s hs
  rw [hparse]
  constructor
  · exact fun h => ⟨_, h⟩
  · rintro ⟨depth, h⟩
    have hmax := p.below_ruleRecognizer
      (le_max_left depth (p.procedures.length * (input.size + 1))) name s.location hs.within v h
    rwa [p.ruleRecognizer_eq_of_le hs.within (le_max_right _ _)] at hmax

end Program

end LabeledPeg
