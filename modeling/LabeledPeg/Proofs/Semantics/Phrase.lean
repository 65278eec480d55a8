import LabeledPeg.Proofs.Parse.Depth
import LabeledPeg.Proofs.Program.Compile
import LabeledPeg.Proofs.Semantics.Matches

/-!
# Recognizers of phrases

A phrase is matched by its code. For every phrase its recognizer is given by those of its parts,
in the way in which the semantics derives its outcomes; where a rule is met, one more rule is inside
the others.
-/

namespace LabeledPeg

open Parse

namespace Phrase

/-- The code of a phrase. -/
def code (g : Grammar) : Phrase → Code
  | expr spaced e => e.code g spaced .nested
  | items spaced es => .sequence (Expr.codes g spaced es)
  | alternatives spaced es => .choice (Expr.codes g spaced es)
  | repeated spaced body => .repetition .zeroOrMore (body.code g spaced .nested)

end Phrase

section Names

variable {g : Grammar} {input : Array Char} {policy : LabelPolicy}

/-- The recognizer of a phrase, with at most `depth` rules inside one another. -/
def Phrase.recognizer (g : Grammar) (input : Array Char) (policy : LabelPolicy) (φ : Phrase)
    (depth : Nat) : Recognizer :=
  (φ.code g).recognizer input policy (g.program.ruleRecognizer input policy depth)

lemma Phrase.below_recognizer (φ : Phrase) {m n : Nat} (hmn : m ≤ n) :
    (φ.recognizer g input policy m).Below input.size (φ.recognizer g input policy n) :=
  (φ.code g).below_recognizer (g.program.below_ruleRecognizer hmn) (g.program.bounded_recognizer m)

lemma Phrase.bounded_recognizer (φ : Phrase) (depth : Nat) :
    (φ.recognizer g input policy depth).Bounded input.size :=
  g.program.bounded_recognizer depth (φ.code g)

lemma Grammar.body?_program {name : String} : g.program.body? name =
    (g.definition? name).map fun d => d.body.code g (!g.quietRules.contains d.name) .rule := by
  simp only [program, Program.body?, definition?, List.find?_map, Option.map_map]
  rfl

/-- Where a leaf stands makes no difference to how it ends. -/
lemma Expr.recognizer_code (ask : String → Recognizer) (e : Expr) (spaced : Bool)
    (here there : CallSite) : (e.code g spaced here).recognizer input policy ask =
      (e.code g spaced there).recognizer input policy ask := by
  have hchoice : ∀ (items : List Expr) (span : Span), (∀ e ∈ items, ∀ spaced,
      (e.code g spaced here).recognizer input policy ask =
        (e.code g spaced there).recognizer input policy ask) →
      ∀ spaced, ((choice items span).code g spaced here).recognizer input policy ask =
        ((choice items span).code g spaced there).recognizer input policy ask := by
    intro items span ih spaced
    match items with
    | [] => simp only [code]
    | [only] =>
      simp only [code]
      exact ih only (by simp) spaced
    | _ :: _ :: _ => simp only [code]
  induction e using inductionOn generalizing spaced with
  | charClass members span ih =>
    rw [code_charClass, code_charClass]
    exact hchoice members span ih spaced
  | choice alternatives span ih => exact hchoice alternatives span ih spaced
  | identifier name span =>
    simp only [code, Grammar.nameCode]
    split
    · simp only [Code.recognizer]
    · split
      · next b _ => cases b <;> simp only [Code.recognizer]
      · rfl
  | lexical body span ih =>
    simp only [code]
    exact ih false
  | _ => simp only [code, Code.recognizer]

lemma Expr.codes_spacedItems (gaps spaced : Bool) (items : List Expr) :
    codes g spaced (spacedItems gaps items) = g.stepCodes gaps (codes g spaced items) := by
  simp only [codes_eq_map, spacedItems, Grammar.stepCodes]
  cases gaps with
  | false => rfl
  | true =>
    simp only [if_true, List.map_flatMap, List.flatMap_map]
    rfl

end Names

/-- More turns than characters are left make no difference to a repetition. -/
lemma Recognizer.zeroOrMore_limit {r : Recognizer} {size : Nat} (h : r.Bounded size)
    {limit limit' i : Nat} (hi : i ≤ size) (hlimit : size - i < limit) (hlimit' : size - i < limit') :
    r.zeroOrMore limit i = r.zeroOrMore limit' i := by
  induction limit generalizing limit' i with
  | zero => omega
  | succ limit ih =>
    obtain ⟨limit', rfl⟩ : ∃ k, limit' = k + 1 := ⟨limit' - 1, by omega⟩
    simp only [zeroOrMore]
    cases hr : r i with
    | none => rfl
    | some v =>
      cases v with
      | matched j =>
        obtain ⟨hij, hj⟩ := h i hi j hr
        by_cases hstay : j = i
        · simp [hstay]
        · simp only [if_neg hstay]
          exact ih hj (by omega) (by omega)
      | failed => rfl
      | thrown label => rfl

section Equations

variable {g : Grammar} {input : Array Char} {policy : LabelPolicy} {spaced : Bool} {depth i : Nat}
  {e body : Expr} {es : List Expr} {span : Span}

/-!
### Recognizers of phrases
-/

lemma recognizer_items_nil :
    (Phrase.items spaced []).recognizer g input policy depth i = some (.matched i) := by
  simp only [Phrase.recognizer, Phrase.code, Expr.codes, Code.recognizer, Code.recognizers,
    Recognizer.steps]

lemma recognizer_items_cons : (Phrase.items spaced (e :: es)).recognizer g input policy depth i =
    match (Phrase.expr spaced e).recognizer g input policy depth i with
    | some (.matched j) => (Phrase.items spaced es).recognizer g input policy depth j
    | v? => v? := by
  rfl

lemma recognizer_alternatives_nil :
    (Phrase.alternatives spaced []).recognizer g input policy depth i = some .failed := by
  simp only [Phrase.recognizer, Phrase.code, Expr.codes, Code.recognizer, Code.recognizers,
    Recognizer.choice]

lemma recognizer_alternatives_cons :
    (Phrase.alternatives spaced (e :: es)).recognizer g input policy depth i =
      match (Phrase.expr spaced e).recognizer g input policy depth i with
      | some .failed => (Phrase.alternatives spaced es).recognizer g input policy depth i
      | v? => v? := by
  rfl

lemma recognizer_sequence : (Phrase.expr spaced (.sequence es span)).recognizer g input policy depth i =
    (Phrase.items spaced (spacedItems (spaced && !Expr.allSyntactic es) es)).recognizer
      g input policy depth i := by
  simp only [Phrase.recognizer, Phrase.code, Expr.code, Expr.codes_spacedItems]

lemma recognizer_choice : (Phrase.expr spaced (.choice es span)).recognizer g input policy depth i =
    (Phrase.alternatives spaced es).recognizer g input policy depth i := by
  match es with
  | [] => simp only [Phrase.recognizer, Phrase.code, Expr.code]
  | [only] =>
    rw [recognizer_alternatives_cons]
    simp only [Phrase.recognizer, Phrase.code, Expr.code, Expr.codes, Code.recognizer,
      Code.recognizers, Recognizer.choice]
    split <;> simp_all
  | _ :: _ :: _ => simp only [Phrase.recognizer, Phrase.code, Expr.code]

lemma recognizer_charClass :
    (Phrase.expr spaced (.charClass es span)).recognizer g input policy depth i =
      (Phrase.alternatives spaced es).recognizer g input policy depth i := by
  have hclass : (Phrase.expr spaced (.charClass es span)).recognizer g input policy depth =
      (Phrase.expr spaced (.choice es span)).recognizer g input policy depth := by
    simp only [Phrase.recognizer, Phrase.code, Expr.code_charClass]
  rw [hclass, recognizer_choice]

lemma recognizer_optional :
    (Phrase.expr spaced (.optional body span)).recognizer g input policy depth i =
      match (Phrase.expr spaced body).recognizer g input policy depth i with
      | some .failed => some (.matched i)
      | v? => v? := by
  rfl

lemma recognizer_zeroOrMore :
    (Phrase.expr spaced (.zeroOrMore body span)).recognizer g input policy depth i =
      (Phrase.repeated spaced body).recognizer g input policy depth i := by
  simp only [Phrase.recognizer, Phrase.code, Expr.code]

/-- The recognizer of a repetition, with as many turns as one likes. -/
lemma zeroOrMore_recognizer (hi : i ≤ input.size) {limit : Nat} (hlimit : input.size - i < limit) :
    ((Phrase.expr spaced body).recognizer g input policy depth).zeroOrMore limit i =
      (Phrase.repeated spaced body).recognizer g input policy depth i := by
  simp only [Phrase.recognizer, Phrase.code, Code.recognizer]
  exact Recognizer.zeroOrMore_limit (g.program.bounded_recognizer depth _) hi hlimit (by omega)

lemma recognizer_repeated (hi : i ≤ input.size) :
    (Phrase.repeated spaced body).recognizer g input policy depth i =
      match (Phrase.expr spaced body).recognizer g input policy depth i with
      | some (.matched j) =>
        if j = i then some (.matched i)
        else (Phrase.repeated spaced body).recognizer g input policy depth j
      | some .failed => some (.matched i)
      | v? => v? := by
  rw [← zeroOrMore_recognizer hi (Nat.lt_succ_self _), Recognizer.zeroOrMore]
  cases hbody : (Phrase.expr spaced body).recognizer g input policy depth i with
  | none => rfl
  | some v =>
    cases v with
    | matched j =>
      obtain ⟨hij, hj⟩ := (Phrase.expr spaced body).bounded_recognizer depth i hi j hbody
      by_cases hstay : j = i
      · simp [hstay]
      · simp only [if_neg hstay]
        exact zeroOrMore_recognizer hj (by omega)
    | failed => rfl
    | thrown label => rfl

lemma recognizer_oneOrMore (hi : i ≤ input.size) :
    (Phrase.expr spaced (.oneOrMore body span)).recognizer g input policy depth i =
      match (Phrase.expr spaced body).recognizer g input policy depth i with
      | some (.matched j) =>
        if j = i then some (.matched i)
        else (Phrase.repeated spaced body).recognizer g input policy depth j
      | v? => v? := by
  have hunfold : (Phrase.expr spaced (.oneOrMore body span)).recognizer g input policy depth i =
      ((Phrase.expr spaced body).recognizer g input policy depth).oneOrMore (input.size - i + 1) i := by
    simp only [Phrase.recognizer, Phrase.code, Expr.code, Code.recognizer]
  rw [hunfold, Recognizer.oneOrMore]
  cases hbody : (Phrase.expr spaced body).recognizer g input policy depth i with
  | none => rfl
  | some v =>
    cases v with
    | matched j =>
      obtain ⟨hij, hj⟩ := (Phrase.expr spaced body).bounded_recognizer depth i hi j hbody
      by_cases hstay : j = i
      · simp [hstay]
      · simp only [if_neg hstay]
        exact zeroOrMore_recognizer hj (by omega)
    | failed => rfl
    | thrown label => rfl

lemma recognizer_andPredicate :
    (Phrase.expr spaced (.andPredicate body span)).recognizer g input policy depth i =
      match (Phrase.expr spaced body).recognizer g input policy depth i with
      | some (.matched _) => some (.matched i)
      | v? => v? := by
  rfl

lemma recognizer_notPredicate :
    (Phrase.expr spaced (.notPredicate body span)).recognizer g input policy depth i =
      match (Phrase.expr spaced body).recognizer g input policy depth i with
      | some (.matched _) => some .failed
      | some .failed => some (.matched i)
      | v? => v? := by
  rfl

lemma recognizer_lexical :
    (Phrase.expr spaced (.lexical body span)).recognizer g input policy depth i =
      (Phrase.expr false body).recognizer g input policy depth i := by
  simp only [Phrase.recognizer, Phrase.code, Expr.code]

lemma recognizer_labeled {label : String} :
    (Phrase.expr spaced (.labeled label body span)).recognizer g input policy depth i =
      match (Phrase.expr spaced body).recognizer g input policy depth i with
      | some .failed => some (policy.raised label)
      | v? => v? := by
  simp only [Phrase.recognizer, Phrase.code, Expr.code, Code.recognizer, Code.recognizers,
    Recognizer.choice]
  cases policy <;> rfl

lemma recognizer_call {name : String} (hdefined : name ∈ g.names) :
    (Phrase.expr spaced (.identifier name span)).recognizer g input policy depth =
      g.program.ruleRecognizer input policy depth name := by
  have hdefines : g.defines name = true := Grammar.defines_iff.mpr hdefined
  simp only [Phrase.recognizer, Phrase.code, Expr.code, Grammar.nameCode, hdefines, if_true,
    Code.recognizer]

lemma recognizer_rule {d : Definition} (hd : d ∈ g.definitions) :
    (Phrase.expr spaced (.identifier d.name span)).recognizer g input policy (depth + 1) =
      (Phrase.expr (!g.quietRules.contains d.name) d.body).recognizer g input policy depth := by
  have hdefinition : g.definition? d.name = some d := Grammar.definition?_eq_some_iff.mpr ⟨hd, rfl⟩
  rw [recognizer_call (List.mem_map_of_mem hd)]
  simp only [Program.ruleRecognizer, Grammar.body?_program, hdefinition, Option.map_some]
  rw [Expr.recognizer_code]
  rfl

lemma recognizer_builtin {b : Builtin} (hundefined : b.name ∉ g.names) :
    (Phrase.expr spaced (.identifier b.name span)).recognizer g input policy depth i =
      (Code.builtin b .nested).recognizer input policy
        (g.program.ruleRecognizer input policy depth) i := by
  have hdefines : g.defines b.name = false := by
    rw [← Bool.not_eq_true, Grammar.defines_iff]
    exact hundefined
  simp only [Phrase.recognizer, Phrase.code, Expr.code, Grammar.nameCode, hdefines,
    Bool.false_eq_true, if_false, Builtin.ofName?_name]

lemma recognizer_any : (Phrase.expr spaced (.any span)).recognizer g input policy depth =
    Recognizer.character input fun _ => true := by
  simp only [Phrase.recognizer, Phrase.code, Expr.code, Code.recognizer]

lemma recognizer_range {lo hi : Char} :
    (Phrase.expr spaced (.range lo hi span)).recognizer g input policy depth =
      Recognizer.character input fun c => decide (lo ≤ c ∧ c ≤ hi) := by
  simp only [Phrase.recognizer, Phrase.code, Expr.code, Code.recognizer]

lemma recognizer_literal {value : String} :
    (Phrase.expr spaced (.literal value span)).recognizer g input policy depth =
      Recognizer.literal input value := by
  simp only [Phrase.recognizer, Phrase.code, Expr.code, Code.recognizer]

end Equations

end LabeledPeg
