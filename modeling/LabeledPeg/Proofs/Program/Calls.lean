import LabeledPeg.Proofs.Grammar.Normal
import LabeledPeg.Proofs.Parse.Stable
import LabeledPeg.Proofs.Program.Compile

/-!
# What a fragment calls

A fragment does what it does because of the rules that it calls, and no others. Two programs that
give a set of rules the same bodies, which call rules of the set only, match every rule of the set
in the same way. The code of an expression calls the rules that it refers to, and the spacing rule,
and depends on the grammar only in which of these names it defines.
-/

namespace LabeledPeg

open Parse

/-- Whether a fragment calls a rule, directly. -/
inductive Code.Calls (rule : String) : Code → Prop
  | call {site : CallSite} : Calls rule (.call rule site)
  | sequence {steps : List Code} {c : Code} (hc : c ∈ steps) (h : Calls rule c) :
    Calls rule (.sequence steps)
  | choice {alternatives : List Code} {c : Code} (hc : c ∈ alternatives) (h : Calls rule c) :
    Calls rule (.choice alternatives)
  | repetition {kind : Repetition} {body : Code} (h : Calls rule body) :
    Calls rule (.repetition kind body)
  | lookahead {kind : Lookahead} {body : Code} (h : Calls rule body) :
    Calls rule (.lookahead kind body)
  | labeled {body : Code} (h : Calls rule body) : Calls rule (.labeled body)

namespace Code

variable {invoke invoke' : String → Action (Option Tree)}

lemma stepsAction_congr {codes : List Code} (start : Nat)
    (h : ∀ c ∈ codes, ∀ start, c.action invoke start = c.action invoke' start) :
    stepsAction invoke start codes = stepsAction invoke' start codes := by
  induction codes with
  | nil => rfl
  | cons code codes ih =>
    funext s
    simp only [stepsAction, h code (by simp) start, ih fun c hc => h c (by simp [hc])]

/-- What a fragment does depends on the rules that it calls, and on no others. -/
theorem action_congr {code : Code} (h : ∀ rule, code.Calls rule → invoke rule = invoke' rule)
    (start : Nat) : code.action invoke start = code.action invoke' start := by
  induction code using inductionOn generalizing start with
  | sequence steps ih =>
    have hsteps : ∀ start, stepsAction invoke start steps = stepsAction invoke' start steps :=
      fun start => stepsAction_congr start fun c hc => ih c hc fun rule hr => h rule (.sequence hc hr)
    funext s
    simp only [action, hsteps]
  | choice alternatives ih =>
    have halternatives : alternatives.map (action invoke start) =
        alternatives.map (action invoke' start) :=
      List.map_congr_left fun c hc => ih c hc (fun rule hr => h rule (.choice hc hr)) start
    simp only [action, alternativeActions_eq_map, halternatives]
  | repetition kind body ih =>
    have hbody := ih fun rule hr => h rule (.repetition hr)
    funext s
    cases kind <;> simp only [action, hbody]
  | lookahead kind body ih =>
    have hbody := ih fun rule hr => h rule (.lookahead hr)
    funext s
    cases kind <;> simp only [action, hbody]
  | labeled body ih =>
    funext s
    simp only [action, ih fun rule hr => h rule (.labeled hr)]
  | call rule site => simp only [action, h rule .call]
  | builtin rule site => cases rule <;> simp only [action]
  | empty | throw | literal | range | any | procedure | program => simp only [action]

end Code

namespace Program

variable {p q : Program} {P : String → Prop}

/-- Rules whose bodies are the same in two programs, and call nothing but one another, are matched
in the same way. -/
theorem ruleAction_congr (hbody : ∀ name, P name → p.body? name = q.body? name)
    (hcalls : ∀ name body, P name → q.body? name = some body → ∀ rule, body.Calls rule → P rule)
    (depth : Nat) {name : String} (hname : P name) :
    p.ruleAction depth name = q.ruleAction depth name := by
  induction depth generalizing name with
  | zero => rfl
  | succ depth ih =>
    unfold ruleAction
    rw [hbody name hname]
    cases hq : q.body? name with
    | none => rfl
    | some body =>
      -- the rules that are called are of the same kind, so they agree at the depth below
      have hsame : body.action (p.ruleAction depth) 0 = body.action (q.ruleAction depth) 0 :=
        Code.action_congr (fun rule hrule => ih (hcalls name body hname hq rule hrule)) 0
      simp only [hsame]

end Program

namespace Expr

variable {g g' : Grammar}

lemma defines_of_calls_nameCode {name rule : String} {here : CallSite}
    (h : (g.nameCode name here).Calls rule) : rule = name ∧ g.defines rule = true := by
  unfold Grammar.nameCode at h
  split at h
  · next hdefines =>
    cases h
    exact ⟨rfl, hdefines⟩
  · split at h <;> cases h

/-- The code of an expression calls rules of the grammar only: those that the expression refers to,
and the spacing rule. -/
theorem calls_code {e : Expr} {spaced : Bool} {here : CallSite} {rule : String}
    (h : (e.code g spaced here).Calls rule) :
    g.defines rule = true ∧ (rule = spacingName ∨ ∃ r ∈ e.references, r.name = rule) := by
  have hitem : ∀ {items : List Expr} {item : Expr}, item ∈ items →
      (g.defines rule = true ∧ (rule = spacingName ∨ ∃ r ∈ item.references, r.name = rule)) →
      g.defines rule = true ∧ (rule = spacingName ∨ ∃ r ∈ itemReferences items, r.name = rule) := by
    rintro items item hmem ⟨hdefines, rfl | ⟨r, hr, rfl⟩⟩
    · exact ⟨hdefines, .inl rfl⟩
    · rw [itemReferences_eq_flatMap]
      exact ⟨hdefines, .inr ⟨r, List.mem_flatMap.mpr ⟨item, hmem, hr⟩, rfl⟩⟩
  have hchoice : ∀ (items : List Expr) (span : Span) (spaced : Bool) (here : CallSite),
      (∀ e ∈ items, ∀ {spaced here}, (e.code g spaced here).Calls rule →
        g.defines rule = true ∧ (rule = spacingName ∨ ∃ r ∈ e.references, r.name = rule)) →
      ((choice items span).code g spaced here).Calls rule →
      g.defines rule = true ∧ (rule = spacingName ∨ ∃ r ∈ itemReferences items, r.name = rule) := by
    intro items span spaced here ih h
    match items with
    | [] =>
      simp only [code, codes] at h
      cases h with
      | choice hc _ => cases hc
    | [only] =>
      simp only [code] at h
      exact hitem (by simp) (ih only (by simp) h)
    | first :: second :: others =>
      simp only [code, codes_eq_map] at h
      cases h with
      | choice hc hcalls =>
        obtain ⟨item, hmem, rfl⟩ := List.mem_map.mp hc
        exact hitem hmem (ih item hmem hcalls)
  induction e using inductionOn generalizing spaced here with
  | any | literal | range | definition | imported | grammar => simp only [code] at h; cases h
  | identifier name span =>
    simp only [code] at h
    obtain ⟨rfl, hdefines⟩ := defines_of_calls_nameCode h
    exact ⟨hdefines, .inr ⟨⟨rule, span⟩, by simp [references], rfl⟩⟩
  | charClass members span ih =>
    rw [code_charClass] at h
    simp only [references]
    exact hchoice members span spaced here (fun e he => ih e he) h
  | choice alternatives span ih =>
    simp only [references]
    exact hchoice alternatives span spaced here (fun e he => ih e he) h
  | optional body span ih =>
    simp only [code] at h
    cases h with
    | choice hc hcalls =>
      rcases List.mem_pair.mp hc with rfl | rfl
      · exact ih hcalls
      · cases hcalls
  | zeroOrMore body span ih | oneOrMore body span ih =>
    simp only [code] at h
    cases h with
    | repetition hbody => exact ih hbody
  | andPredicate body span ih | notPredicate body span ih =>
    simp only [code] at h
    cases h with
    | lookahead hbody => exact ih hbody
  | lexical body span ih =>
    simp only [code] at h
    exact ih h
  | labeled label body span ih =>
    simp only [code] at h
    cases h with
    | labeled hlabeled =>
      cases hlabeled with
      | choice hc hcalls =>
        rcases List.mem_pair.mp hc with rfl | rfl
        · exact ih hcalls
        · cases hcalls
  | sequence items span ih =>
    simp only [code, codes_eq_map, Grammar.stepCodes] at h
    simp only [references]
    cases h with
    | @sequence _ c hc hcalls =>
      -- a step is the code of an item, or a step of spacing before one
      have hstep : c = g.nameCode spacingName .nested ∨
          ∃ item ∈ items, c = item.code g spaced .nested := by
        split at hc
        · obtain ⟨code, hcode, hmem⟩ := List.mem_flatMap.mp hc
          obtain ⟨item, hitem, rfl⟩ := List.mem_map.mp hcode
          rcases List.mem_pair.mp hmem with rfl | rfl
          · exact .inl rfl
          · exact .inr ⟨item, hitem, rfl⟩
        · obtain ⟨item, hitem, rfl⟩ := List.mem_map.mp hc
          exact .inr ⟨item, hitem, rfl⟩
      rcases hstep with rfl | ⟨item, hmem, rfl⟩
      · obtain ⟨rfl, hdefines⟩ := defines_of_calls_nameCode hcalls
        exact ⟨hdefines, .inl rfl⟩
      · exact hitem hmem (ih item hmem hcalls)

end Expr

end LabeledPeg
