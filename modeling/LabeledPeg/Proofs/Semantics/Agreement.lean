import LabeledPeg.Proofs.Semantics.Phrase

/-!
# Parsers do what their grammar means

The recognizer of a phrase says at some depth how its match ends exactly if the semantics derives
that. The depth at which a parser runs settles everything that any depth does, so the parser of an
assembled grammar ends exactly if the semantics derives an outcome, and ends as the semantics says.
-/

namespace LabeledPeg

open Parse

variable {g : Grammar} {input : Array Char} {policy : LabelPolicy}

/-- Whether a phrase ends in a way at a place, as some depth settles. -/
def Phrase.Settles (g : Grammar) (input : Array Char) (policy : LabelPolicy) (φ : Phrase) (i : Nat)
    (v : Verdict) : Prop :=
  ∃ depth, φ.recognizer g input policy depth i = some v

namespace Phrase.Settles

variable {φ ψ χ : Phrase} {i j : Nat} {v w : Verdict}

/-- What is settled at a depth stays so at any greater one. -/
lemma eventually (h : φ.Settles g input policy i v) (hi : i ≤ input.size) :
    ∃ depth, ∀ n, depth ≤ n → φ.recognizer g input policy n i = some v := by
  obtain ⟨depth, hdepth⟩ := h
  exact ⟨depth, fun n hn => φ.below_recognizer hn i hi v hdepth⟩

lemma stop_le (h : φ.Settles g input policy i (.matched j)) (hi : i ≤ input.size) :
    i ≤ j ∧ j ≤ input.size := by
  obtain ⟨depth, hdepth⟩ := h
  exact φ.bounded_recognizer depth i hi j hdepth

/-- A phrase whose end follows from that of one part. -/
lemma of_one (h : φ.Settles g input policy i v)
    (heq : ∀ n, φ.recognizer g input policy n i = some v →
      χ.recognizer g input policy n i = some w) : χ.Settles g input policy i w := by
  obtain ⟨depth, hdepth⟩ := h
  exact ⟨depth, heq depth hdepth⟩

/-- A phrase whose end follows from those of two parts. -/
lemma of_two {i' : Nat} {v' : Verdict} (hi : i ≤ input.size) (hi' : i' ≤ input.size)
    (h : φ.Settles g input policy i v) (h' : ψ.Settles g input policy i' v')
    (heq : ∀ n, φ.recognizer g input policy n i = some v →
      ψ.recognizer g input policy n i' = some v' → χ.recognizer g input policy n i = some w) :
    χ.Settles g input policy i w := by
  obtain ⟨m, hm⟩ := h.eventually hi
  obtain ⟨m', hm'⟩ := h'.eventually hi'
  exact ⟨max m m', heq _ (hm _ (le_max_left m m')) (hm' _ (le_max_right m m'))⟩

end Phrase.Settles

/-- Where the stretch of accepted characters from a place on ends. -/
lemma countWhile_eq_iff {accepts : Char → Bool} {i j : Nat} (hi : i ≤ input.size) :
    i + Action.countWhile accepts input (input.size - i) i = j ↔
      i ≤ j ∧ (∀ k, i ≤ k → k < j → ∃ c ∈ input[k]?, accepts c = true) ∧
        ∀ c ∈ input[j]?, accepts c = false := by
  induction hlimit : input.size - i generalizing i with
  | zero =>
    have hnone : input[i]? = none := Array.getElem?_eq_none (by omega)
    simp only [Action.countWhile, Nat.add_zero]
    constructor
    · rintro rfl
      exact ⟨le_refl i, fun k hk hki => by omega, by simp [hnone]⟩
    · rintro ⟨hij, hin, -⟩
      rcases hij.eq_or_lt with rfl | hlt
      · rfl
      · obtain ⟨c, hc, -⟩ := hin i (le_refl i) hlt
        simp [hnone] at hc
  | succ limit ih =>
    have hsome : input[i]? = some input[i] := Array.getElem?_eq_getElem (by omega)
    cases haccepts : accepts input[i] with
    | true =>
      have hrest := ih (i := i + 1) (by omega) (by omega)
      simp only [Action.countWhile, hsome, Option.any_some, haccepts, if_true]
      rw [← Nat.add_assoc, Nat.add_right_comm, hrest]
      constructor
      · rintro ⟨hij, hin, hout⟩
        refine ⟨by omega, fun k hk hkj => ?_, hout⟩
        rcases hk.eq_or_lt with rfl | hlt
        · exact ⟨_, hsome, haccepts⟩
        · exact hin k hlt hkj
      · rintro ⟨hij, hin, hout⟩
        refine ⟨?_, fun k hk hkj => hin k (by omega) hkj, hout⟩
        rcases hij.eq_or_lt with rfl | hlt
        · simpa [haccepts] using hout _ hsome
        · exact hlt
    | false =>
      simp only [Action.countWhile, hsome, Option.any_some, haccepts, Bool.false_eq_true, if_false,
        Nat.add_zero]
      constructor
      · rintro rfl
        refine ⟨le_refl i, fun k hk hki => by omega, ?_⟩
        simpa [hsome] using haccepts
      · rintro ⟨hij, hin, -⟩
        rcases hij.eq_or_lt with rfl | hlt
        · rfl
        · obtain ⟨c, hc, htrue⟩ := hin i (le_refl i) hlt
          obtain rfl : input[i] = c := by simpa [hsome] using hc
          simp [haccepts] at htrue

/-- Whatever the semantics derives is settled at some depth. -/
theorem settles_of_matches {φ : Phrase} {i : Nat} {v : Verdict} (h : g.Matches input policy φ i v)
    (hi : i ≤ input.size) : φ.Settles g input policy i v := by
  induction h with
  | any h => exact ⟨0, by simp [recognizer_any, Recognizer.character, h]⟩
  | anyFailed h => exact ⟨0, by simp [recognizer_any, Recognizer.character, h]⟩
  | range h hc => exact ⟨0, by simp [recognizer_range, Recognizer.character, h, hc]⟩
  | rangeFailed h =>
    refine ⟨0, ?_⟩
    rw [recognizer_range, Recognizer.character, if_neg]
    simpa [Option.any_eq_true] using h
  | literal h => exact ⟨0, by simp [recognizer_literal, Recognizer.literal, h]⟩
  | literalFailed h => exact ⟨0, by simp [recognizer_literal, Recognizer.literal, h]⟩
  | charClass _ ih => exact (ih hi).of_one fun n hn => by rw [recognizer_charClass, hn]
  | @rule spaced inner d span i v hd hinner _ ih =>
    have hquiet : (!g.quietRules.contains d.name) = inner := by
      rw [Bool.eq_iff_iff, hinner, Grammar.TakesSpacing, ← Grammar.mem_reachable_iff]
      simp [Grammar.quietRules]
    obtain ⟨depth, hdepth⟩ := ih hi
    exact ⟨depth + 1, by rw [recognizer_rule hd, hquiet, hdepth]⟩
  | @spacing spaced span i j hundefined hij hin hout =>
    have hstop := (countWhile_eq_iff hi).mpr ⟨hij, hin, hout⟩
    refine ⟨0, ?_⟩
    rw [show spacingName = Builtin.spacing.name from rfl, recognizer_builtin hundefined]
    simp only [Code.recognizer, Recognizer.spacing, hstop]
  | endOfInput hundefined h =>
    refine ⟨0, ?_⟩
    rw [show endName = Builtin.eof.name from rfl, recognizer_builtin hundefined]
    simp [Code.recognizer, Recognizer.notAhead, Recognizer.character, h]
  | endOfInputFailed hundefined h =>
    refine ⟨0, ?_⟩
    rw [show endName = Builtin.eof.name from rfl, recognizer_builtin hundefined]
    simp [Code.recognizer, Recognizer.notAhead, Recognizer.character, h]
  | sequence _ ih => exact (ih hi).of_one fun n hn => by rw [recognizer_sequence, hn]
  | noItem => exact ⟨0, recognizer_items_nil⟩
  | item _ _ ih ihrest =>
    have hj := ((ih hi).stop_le hi).2
    exact (ih hi).of_two hi hj (ihrest hj) fun n hn hrest => by
      simp only [recognizer_items_cons, hn, hrest]
  | itemFailed _ ih => exact (ih hi).of_one fun n hn => by simp only [recognizer_items_cons, hn]
  | itemThrown _ ih => exact (ih hi).of_one fun n hn => by simp only [recognizer_items_cons, hn]
  | choice _ ih => exact (ih hi).of_one fun n hn => by rw [recognizer_choice, hn]
  | noAlternative => exact ⟨0, recognizer_alternatives_nil⟩
  | alternative _ ih =>
    exact (ih hi).of_one fun n hn => by simp only [recognizer_alternatives_cons, hn]
  | alternativeFailed _ _ ih ihrest =>
    exact (ih hi).of_two hi hi (ihrest hi) fun n hn hrest => by
      simp only [recognizer_alternatives_cons, hn, hrest]
  | alternativeThrown _ ih =>
    exact (ih hi).of_one fun n hn => by simp only [recognizer_alternatives_cons, hn]
  | optional _ ih => exact (ih hi).of_one fun n hn => by simp only [recognizer_optional, hn]
  | optionalFailed _ ih => exact (ih hi).of_one fun n hn => by simp only [recognizer_optional, hn]
  | optionalThrown _ ih => exact (ih hi).of_one fun n hn => by simp only [recognizer_optional, hn]
  | zeroOrMore _ ih => exact (ih hi).of_one fun n hn => by rw [recognizer_zeroOrMore, hn]
  | oneOrMore _ hij _ ih ihrest =>
    have hj := ((ih hi).stop_le hi).2
    exact (ih hi).of_two hi hj (ihrest hj) fun n hn hrest => by
      simp only [recognizer_oneOrMore hi, hn, if_neg hij.ne', hrest]
  | oneOrMoreStopped _ ih =>
    exact (ih hi).of_one fun n hn => by simp only [recognizer_oneOrMore hi, hn, if_true]
  | oneOrMoreFailed _ ih =>
    exact (ih hi).of_one fun n hn => by simp only [recognizer_oneOrMore hi, hn]
  | oneOrMoreThrown _ ih =>
    exact (ih hi).of_one fun n hn => by simp only [recognizer_oneOrMore hi, hn]
  | again _ hij _ ih ihrest =>
    have hj := ((ih hi).stop_le hi).2
    exact (ih hi).of_two hi hj (ihrest hj) fun n hn hrest => by
      rw [recognizer_repeated hi]
      simp only [hn, if_neg hij.ne', hrest]
  | againStopped _ ih =>
    exact (ih hi).of_one fun n hn => by
      rw [recognizer_repeated hi]
      simp only [hn, if_true]
  | againFailed _ ih =>
    exact (ih hi).of_one fun n hn => by
      rw [recognizer_repeated hi]
      simp only [hn]
  | againThrown _ ih =>
    exact (ih hi).of_one fun n hn => by
      rw [recognizer_repeated hi]
      simp only [hn]
  | andPredicate _ ih => exact (ih hi).of_one fun n hn => by simp only [recognizer_andPredicate, hn]
  | andPredicateFailed _ ih =>
    exact (ih hi).of_one fun n hn => by simp only [recognizer_andPredicate, hn]
  | andPredicateThrown _ ih =>
    exact (ih hi).of_one fun n hn => by simp only [recognizer_andPredicate, hn]
  | notPredicate _ ih => exact (ih hi).of_one fun n hn => by simp only [recognizer_notPredicate, hn]
  | notPredicateFailed _ ih =>
    exact (ih hi).of_one fun n hn => by simp only [recognizer_notPredicate, hn]
  | notPredicateThrown _ ih =>
    exact (ih hi).of_one fun n hn => by simp only [recognizer_notPredicate, hn]
  | lexical _ ih => exact (ih hi).of_one fun n hn => by rw [recognizer_lexical, hn]
  | labeled _ ih => exact (ih hi).of_one fun n hn => by simp only [recognizer_labeled, hn]
  | labeledFailed _ ih => exact (ih hi).of_one fun n hn => by simp only [recognizer_labeled, hn]
  | labeledThrown _ ih => exact (ih hi).of_one fun n hn => by simp only [recognizer_labeled, hn]

/-- A match ends in one way at most. -/
theorem matches_unique {φ : Phrase} {i : Nat} {v w : Verdict} (hi : i ≤ input.size)
    (hv : g.Matches input policy φ i v) (hw : g.Matches input policy φ i w) : v = w := by
  obtain ⟨m, hm⟩ := (settles_of_matches hv hi).eventually hi
  obtain ⟨n, hn⟩ := (settles_of_matches hw hi).eventually hi
  exact Option.some.inj ((hm _ (le_max_left m n)).symm.trans (hn _ (le_max_right m n)))

/-- Whether the semantics derives everything that a depth settles of a phrase. -/
def Phrase.Sound (g : Grammar) (input : Array Char) (policy : LabelPolicy) (depth : Nat)
    (φ : Phrase) : Prop :=
  ∀ i ≤ input.size, ∀ v, φ.recognizer g input policy depth i = some v → g.Matches input policy φ i v

section Soundness

variable {depth : Nat} {spaced : Bool} {es : List Expr} {body : Expr} {span : Span}

lemma sound_items (h : ∀ e ∈ es, (Phrase.expr spaced e).Sound g input policy depth) :
    (Phrase.items spaced es).Sound g input policy depth := by
  induction es with
  | nil =>
    intro i hi v hv
    obtain rfl : .matched i = v := by simpa [recognizer_items_nil] using hv
    exact .noItem
  | cons e es ih =>
    intro i hi v hv
    have hfirst := h e (by simp) i hi
    rw [recognizer_items_cons] at hv
    cases he : (Phrase.expr spaced e).recognizer g input policy depth i with
    | none => simp [he] at hv
    | some w =>
      cases w with
      | matched j =>
        simp only [he] at hv
        have hj := ((Phrase.expr spaced e).bounded_recognizer depth i hi j he).2
        exact .item (hfirst _ he) (ih (fun e he => h e (by simp [he])) j hj v hv)
      | failed =>
        obtain rfl : .failed = v := by simpa [he] using hv
        exact .itemFailed (hfirst _ he)
      | thrown l =>
        obtain rfl : .thrown l = v := by simpa [he] using hv
        exact .itemThrown (hfirst _ he)

lemma sound_alternatives (h : ∀ e ∈ es, (Phrase.expr spaced e).Sound g input policy depth) :
    (Phrase.alternatives spaced es).Sound g input policy depth := by
  induction es with
  | nil =>
    intro i hi v hv
    obtain rfl : .failed = v := by simpa [recognizer_alternatives_nil] using hv
    exact .noAlternative
  | cons e es ih =>
    intro i hi v hv
    have hfirst := h e (by simp) i hi
    rw [recognizer_alternatives_cons] at hv
    cases he : (Phrase.expr spaced e).recognizer g input policy depth i with
    | none => simp [he] at hv
    | some w =>
      cases w with
      | matched j =>
        obtain rfl : .matched j = v := by simpa [he] using hv
        exact .alternative (hfirst _ he)
      | failed =>
        simp only [he] at hv
        exact .alternativeFailed (hfirst _ he) (ih (fun e he => h e (by simp [he])) i hi v hv)
      | thrown l =>
        obtain rfl : .thrown l = v := by simpa [he] using hv
        exact .alternativeThrown (hfirst _ he)

/-- Every turn of a repetition that goes on moves nearer to the end of the input. -/
lemma sound_repeated (h : (Phrase.expr spaced body).Sound g input policy depth) :
    (Phrase.repeated spaced body).Sound g input policy depth := by
  intro i hi v hv
  induction hleft : input.size - i using Nat.strongRecOn generalizing i with
  | _ left ih =>
    rw [recognizer_repeated hi] at hv
    cases hbody : (Phrase.expr spaced body).recognizer g input policy depth i with
    | none => simp [hbody] at hv
    | some w =>
      cases w with
      | matched j =>
        obtain ⟨hij, hj⟩ := (Phrase.expr spaced body).bounded_recognizer depth i hi j hbody
        -- a turn that consumes nothing is the last one; any other leaves less of the input
        by_cases hstay : j = i
        · subst hstay
          obtain rfl : .matched j = v := by simpa [hbody] using hv
          exact .againStopped (h j hi _ hbody)
        · simp only [hbody, if_neg hstay] at hv
          exact .again (h i hi _ hbody) (by omega) (ih _ (by omega) j hj hv rfl)
      | failed =>
        obtain rfl : .matched i = v := by simpa [hbody] using hv
        exact .againFailed (h i hi _ hbody)
      | thrown l =>
        obtain rfl : .thrown l = v := by simpa [hbody] using hv
        exact .againThrown (h i hi _ hbody)

lemma sound_spacing (hundefined : spacingName ∉ g.names) :
    (Phrase.expr spaced (.identifier spacingName span)).Sound g input policy depth := by
  intro i hi v hv
  rw [show spacingName = Builtin.spacing.name from rfl, recognizer_builtin hundefined] at hv
  obtain rfl : .matched (i + Action.countWhile Action.isSpacing input (input.size - i) i) = v := by
    simpa [Code.recognizer, Recognizer.spacing] using hv
  obtain ⟨hij, hin, hout⟩ := (countWhile_eq_iff hi).mp rfl
  exact .spacing hundefined hij hin hout

lemma sound_endOfInput (hundefined : endName ∉ g.names) :
    (Phrase.expr spaced (.identifier endName span)).Sound g input policy depth := by
  intro i hi v hv
  rw [show endName = Builtin.eof.name from rfl, recognizer_builtin hundefined] at hv
  simp only [Code.recognizer, Recognizer.notAhead, Recognizer.character] at hv
  cases hnext : input[i]? with
  | none =>
    obtain rfl : .matched i = v := by simpa [hnext] using hv
    exact .endOfInput hundefined hnext
  | some c =>
    obtain rfl : .failed = v := by simpa [hnext] using hv
    exact .endOfInputFailed hundefined hnext

/-- A name that means something is sound if the rules of the grammar are. -/
lemma sound_identifier {name : String} (hname : g.resolves name = true)
    (hrules : ∀ d ∈ g.definitions, ∀ spaced span,
      (Phrase.expr spaced (.identifier d.name span)).Sound g input policy depth) :
    (Phrase.expr spaced (.identifier name span)).Sound g input policy depth := by
  by_cases hdefined : name ∈ g.names
  · obtain ⟨d, hd, rfl⟩ := List.mem_map.mp hdefined
    exact hrules d hd spaced span
  · have hdefines : g.defines name = false := by
      rw [← Bool.not_eq_true, Grammar.defines_iff]
      exact hdefined
    have hbuiltin : name = spacingName ∨ name = endName := by
      simpa [Grammar.resolves, hdefines, isBuiltinName] using hname
    rcases hbuiltin with rfl | rfl
    · exact sound_spacing hdefined
    · exact sound_endOfInput hdefined

lemma sound_any : (Phrase.expr spaced (.any span)).Sound g input policy depth := by
  intro i hi v hv
  rw [recognizer_any, Recognizer.character] at hv
  cases hnext : input[i]? with
  | none =>
    obtain rfl : .failed = v := by simpa [hnext] using hv
    exact .anyFailed hnext
  | some c =>
    obtain rfl : .matched (i + 1) = v := by simpa [hnext] using hv
    exact .any hnext

lemma sound_range {lo hi : Char} :
    (Phrase.expr spaced (.range lo hi span)).Sound g input policy depth := by
  intro i _ v hv
  rw [recognizer_range, Recognizer.character] at hv
  by_cases hc : ∃ c, input[i]? = some c ∧ lo ≤ c ∧ c ≤ hi
  · obtain ⟨c, hnext, hin⟩ := hc
    obtain rfl : .matched (i + 1) = v := by simpa [hnext, hin] using hv
    exact .range hnext hin
  · rw [if_neg (by simpa [Option.any_eq_true] using hc)] at hv
    obtain rfl : .failed = v := by simpa using hv
    exact .rangeFailed fun c hnext hin => hc ⟨c, hnext, hin⟩

lemma sound_literal {value : String} :
    (Phrase.expr spaced (.literal value span)).Sound g input policy depth := by
  intro i _ v hv
  rw [recognizer_literal, Recognizer.literal] at hv
  by_cases h : value.toList <+: input.toList.drop i
  · obtain rfl : .matched (i + value.length) = v := by simpa [h] using hv
    exact .literal h
  · obtain rfl : .failed = v := by simpa [h] using hv
    exact .literalFailed h

lemma sound_optional (h : (Phrase.expr spaced body).Sound g input policy depth) :
    (Phrase.expr spaced (.optional body span)).Sound g input policy depth := by
  intro i hi v hv
  rw [recognizer_optional] at hv
  cases hbody : (Phrase.expr spaced body).recognizer g input policy depth i with
  | none => simp [hbody] at hv
  | some w =>
    cases w with
    | matched j =>
      obtain rfl : .matched j = v := by simpa [hbody] using hv
      exact .optional (h i hi _ hbody)
    | failed =>
      obtain rfl : .matched i = v := by simpa [hbody] using hv
      exact .optionalFailed (h i hi _ hbody)
    | thrown l =>
      obtain rfl : .thrown l = v := by simpa [hbody] using hv
      exact .optionalThrown (h i hi _ hbody)

lemma sound_zeroOrMore (h : (Phrase.expr spaced body).Sound g input policy depth) :
    (Phrase.expr spaced (.zeroOrMore body span)).Sound g input policy depth := by
  intro i hi v hv
  rw [recognizer_zeroOrMore] at hv
  exact .zeroOrMore (sound_repeated h i hi v hv)

lemma sound_oneOrMore (h : (Phrase.expr spaced body).Sound g input policy depth) :
    (Phrase.expr spaced (.oneOrMore body span)).Sound g input policy depth := by
  intro i hi v hv
  rw [recognizer_oneOrMore hi] at hv
  cases hbody : (Phrase.expr spaced body).recognizer g input policy depth i with
  | none => simp [hbody] at hv
  | some w =>
    cases w with
    | matched j =>
      obtain ⟨hij, hj⟩ := (Phrase.expr spaced body).bounded_recognizer depth i hi j hbody
      by_cases hstay : j = i
      · subst hstay
        obtain rfl : .matched j = v := by simpa [hbody] using hv
        exact .oneOrMoreStopped (h j hi _ hbody)
      · simp only [hbody, if_neg hstay] at hv
        exact .oneOrMore (h i hi _ hbody) (by omega) (sound_repeated h j hj v hv)
    | failed =>
      obtain rfl : .failed = v := by simpa [hbody] using hv
      exact .oneOrMoreFailed (h i hi _ hbody)
    | thrown l =>
      obtain rfl : .thrown l = v := by simpa [hbody] using hv
      exact .oneOrMoreThrown (h i hi _ hbody)

lemma sound_andPredicate (h : (Phrase.expr spaced body).Sound g input policy depth) :
    (Phrase.expr spaced (.andPredicate body span)).Sound g input policy depth := by
  intro i hi v hv
  rw [recognizer_andPredicate] at hv
  cases hbody : (Phrase.expr spaced body).recognizer g input policy depth i with
  | none => simp [hbody] at hv
  | some w =>
    cases w with
    | matched j =>
      obtain rfl : .matched i = v := by simpa [hbody] using hv
      exact .andPredicate (h i hi _ hbody)
    | failed =>
      obtain rfl : .failed = v := by simpa [hbody] using hv
      exact .andPredicateFailed (h i hi _ hbody)
    | thrown l =>
      obtain rfl : .thrown l = v := by simpa [hbody] using hv
      exact .andPredicateThrown (h i hi _ hbody)

lemma sound_notPredicate (h : (Phrase.expr spaced body).Sound g input policy depth) :
    (Phrase.expr spaced (.notPredicate body span)).Sound g input policy depth := by
  intro i hi v hv
  rw [recognizer_notPredicate] at hv
  cases hbody : (Phrase.expr spaced body).recognizer g input policy depth i with
  | none => simp [hbody] at hv
  | some w =>
    cases w with
    | matched j =>
      obtain rfl : .failed = v := by simpa [hbody] using hv
      exact .notPredicateFailed (h i hi _ hbody)
    | failed =>
      obtain rfl : .matched i = v := by simpa [hbody] using hv
      exact .notPredicate (h i hi _ hbody)
    | thrown l =>
      obtain rfl : .thrown l = v := by simpa [hbody] using hv
      exact .notPredicateThrown (h i hi _ hbody)

lemma sound_labeled {label : String} (h : (Phrase.expr spaced body).Sound g input policy depth) :
    (Phrase.expr spaced (.labeled label body span)).Sound g input policy depth := by
  intro i hi v hv
  rw [recognizer_labeled] at hv
  cases hbody : (Phrase.expr spaced body).recognizer g input policy depth i with
  | none => simp [hbody] at hv
  | some w =>
    cases w with
    | matched j =>
      obtain rfl : .matched j = v := by simpa [hbody] using hv
      exact .labeled (h i hi _ hbody)
    | failed =>
      obtain rfl : policy.raised label = v := by simpa [hbody] using hv
      exact .labeledFailed (h i hi _ hbody)
    | thrown l =>
      obtain rfl : .thrown l = v := by simpa [hbody] using hv
      exact .labeledThrown (h i hi _ hbody)

/-- An expression is sound if the rules of the grammar are. -/
theorem sound_expr {e : Expr} (he : e.Compiles g)
    (hrules : ∀ d ∈ g.definitions, ∀ spaced span,
      (Phrase.expr spaced (.identifier d.name span)).Sound g input policy depth) (spaced : Bool) :
    (Phrase.expr spaced e).Sound g input policy depth := by
  induction e using Expr.inductionOn generalizing spaced with
  | any span => exact sound_any
  | literal value span => exact sound_literal
  | range lo hi span => exact sound_range
  | identifier name span =>
    exact sound_identifier (he.resolved ⟨name, span⟩ (by simp [Expr.references])) hrules
  | charClass members span ih =>
    have hclass : (Expr.choice members span).Compiles g := ⟨he.plain, he.resolved, he.nonempty⟩
    intro i hi v hv
    rw [recognizer_charClass] at hv
    exact .charClass
      (sound_alternatives (fun e he => ih e he (hclass.of_choice.2 e he) spaced) i hi v hv)
  | choice alternatives span ih =>
    intro i hi v hv
    rw [recognizer_choice] at hv
    exact .choice
      (sound_alternatives (fun e hmem => ih e hmem (he.of_choice.2 e hmem) spaced) i hi v hv)
  | optional body span ih => exact sound_optional (ih ⟨he.plain, he.resolved, he.nonempty⟩ spaced)
  | zeroOrMore body span ih =>
    exact sound_zeroOrMore (ih ⟨he.plain, he.resolved, he.nonempty⟩ spaced)
  | oneOrMore body span ih => exact sound_oneOrMore (ih ⟨he.plain, he.resolved, he.nonempty⟩ spaced)
  | andPredicate body span ih =>
    exact sound_andPredicate (ih ⟨he.plain, he.resolved, he.nonempty⟩ spaced)
  | notPredicate body span ih =>
    exact sound_notPredicate (ih ⟨he.plain, he.resolved, he.nonempty⟩ spaced)
  | lexical body span ih =>
    intro i hi v hv
    rw [recognizer_lexical] at hv
    exact .lexical (ih ⟨he.plain, he.resolved, he.nonempty⟩ false i hi v hv)
  | labeled label body span ih =>
    exact sound_labeled (ih ⟨he.plain, he.resolved, he.nonempty⟩ spaced)
  | sequence items span ih =>
    intro i hi v hv
    rw [recognizer_sequence] at hv
    refine .sequence (sound_items (fun e hmem => ?_) i hi v hv)
    -- the items in between are references to the spacing rule, which always means something
    have hitem : e = spacingReference ∨ e ∈ items := by
      unfold spacedItems at hmem
      split at hmem
      · simp only [List.mem_flatMap, List.mem_cons, List.not_mem_nil, or_false] at hmem
        obtain ⟨item, hitem, rfl | rfl⟩ := hmem
        · exact .inl rfl
        · exact .inr hitem
      · exact .inr hmem
    rcases hitem with rfl | hitem
    · exact sound_identifier (by simp [Grammar.resolves, isBuiltinName]) hrules
    · exact ih e hitem (.of_mem he.plain he.resolved he.nonempty hitem) spaced
  | definition rule ih => simpa [Expr.isPlain] using he.plain
  | imported clause => simpa [Expr.isPlain] using he.plain
  | grammar imports definitions span ih => simpa [Expr.isPlain] using he.plain

/-- The semantics derives whatever a depth settles of a rule. -/
theorem sound_rule (hcompiles : ∀ d ∈ g.definitions, d.body.Compiles g) (depth : Nat) :
    ∀ d ∈ g.definitions, ∀ spaced span,
      (Phrase.expr spaced (.identifier d.name span)).Sound g input policy depth := by
  induction depth with
  | zero =>
    intro d hd spaced span i hi v hv
    rw [recognizer_call (List.mem_map_of_mem hd)] at hv
    cases hv
  | succ depth ih =>
    intro d hd spaced span i hi v hv
    rw [recognizer_rule hd] at hv
    refine .rule hd ?_ (sound_expr (hcompiles d hd) ih _ i hi v hv)
    rw [Grammar.TakesSpacing, ← Grammar.mem_reachable_iff]
    simp [Grammar.quietRules]

end Soundness

/-- How the parser of a rule ends is what the semantics derives. -/
theorem parse_verdict?_iff (hcompiles : ∀ d ∈ g.definitions, d.body.Compiles g) {rule : String}
    (hrule : rule ∈ g.names) {s : State} (hs : s.location ≤ s.length) {v : Verdict} :
    (g.program.parse rule s).verdict? = some v ↔
      g.RuleMatches s.input s.policy rule s.location v := by
  rw [g.program.parse_verdict?_eq_some_iff ⟨rfl, rfl, hs⟩]
  have hcall : ∀ depth, (Phrase.expr true (.identifier rule (.point 0))).recognizer g s.input
      s.policy depth = g.program.ruleRecognizer s.input s.policy depth rule :=
    fun depth => recognizer_call hrule
  constructor
  · rintro ⟨depth, hdepth⟩
    rw [← hcall] at hdepth
    obtain ⟨d, hd, rfl⟩ := List.mem_map.mp hrule
    exact sound_rule hcompiles depth d hd true (.point 0) s.location hs v hdepth
  · intro h
    obtain ⟨depth, hdepth⟩ := settles_of_matches h hs
    exact ⟨depth, hcall depth ▸ hdepth⟩

/-- The parser of an assembled grammar agrees with the semantics: at every place of every input, a
rule returns exactly if an outcome can be derived, and it matches, throws a label or fails exactly
as derived. -/
theorem Grammar.Assembled.parse_agrees (hg : g.Assembled) :
    ∃ p, g.compile = .ok p ∧ ∀ rule ∈ g.names, ∀ s : State, s.location ≤ s.length →
      (p.parse rule s ≠ .unfinished ↔
        ∃ v, g.RuleMatches s.input s.policy rule s.location v) ∧
      (∀ stop, (∃ tree? s', p.parse rule s = .success tree? s' ∧ s'.location = stop) ↔
        g.RuleMatches s.input s.policy rule s.location (.matched stop)) ∧
      (s.policy = .commit →
        (∀ label, (∃ f s', p.parse rule s = .failure f s' ∧ f.label? = some label) ↔
          g.RuleMatches s.input s.policy rule s.location (.thrown label)) ∧
        ((∃ f s', p.parse rule s = .failure f s' ∧ f.isLabeled = false) ↔
          g.RuleMatches s.input s.policy rule s.location .failed)) ∧
      (s.policy = .backtrack →
        ((∃ f s', p.parse rule s = .failure f s') ↔
          g.RuleMatches s.input s.policy rule s.location .failed)) := by
  obtain ⟨hplain, hvalid⟩ := hg.isPlain_and_validate
  have hcompiles : ∀ d ∈ g.definitions, d.body.Compiles g := by
    intro d hd
    obtain ⟨hresolved, hnonempty⟩ := (validate_eq_ok_iff.mp hvalid).2 d hd
    exact ⟨List.all_eq_true.mp hplain d hd, hresolved, hnonempty⟩
  refine ⟨g.program, hg.compile_eq, fun rule hrule s hs => ?_⟩
  simp only [← parse_verdict?_iff hcompiles hrule hs]
  cases hrun : g.program.parse rule s with
  | success tree? s' => simp [Outcome.verdict?]
  | unfinished => simp [Outcome.verdict?]
  | failure f s' =>
    have hpolicy : s'.policy = s.policy :=
      ((g.program.advances_ruleAction _ rule).failure hs hrun).policy
    have hverdict : (Outcome.failure (α := Option Tree) f s').verdict? =
        some (f.label?.elim .failed s.policy.raised) := by
      simp only [Outcome.verdict?, State.verdictOf, hpolicy]
    rw [hverdict]
    cases hlabel : f.label? <;> cases hcase : s.policy <;>
      simp [hlabel, LabelPolicy.raised, Failure.isLabeled]

theorem parse_agrees_countdown :
    countdown.RuleMatches (State.ofString "a b").input .commit "S" 0 (.matched 3) := by
  obtain ⟨p, hp, h⟩ := Grammar.Assembled.parse_agrees assembled_countdown
  obtain rfl : countdown.program = p :=
    Except.ok.inj (assembled_countdown.compile_eq.symm.trans hp)
  obtain ⟨-, hmatched, -⟩ := h "S" (by decide) (.ofString "a b") (Nat.zero_le _)
  exact (hmatched 3).mp ⟨_, _, rfl, rfl⟩

end LabeledPeg
