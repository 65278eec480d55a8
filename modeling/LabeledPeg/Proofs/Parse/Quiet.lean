import LabeledPeg.Proofs.Parse.Labels
import LabeledPeg.Proofs.Program.Calls
import LabeledPeg.Proofs.Program.Faults
import LabeledPeg.Proofs.Source.Value

/-!
# Spacing takes no spacing

The rules that the spacing rule reaches are compiled without implicit spacing. Every rule that is
called while the spacing rule is being matched is one of them, whatever lies between: lookaheads,
repetitions, labels, or rules that other syntax uses as well. So all that a run evaluates there is
written in the body of its rule, the calls of the spacing rule included.
-/

namespace LabeledPeg

open Parse

/-! ## What code without implicit spacing is made of -/

namespace Code

/-- The fragments right below a fragment. -/
def parts : Code → List Code
  | sequence steps => steps
  | choice alternatives => alternatives
  | repetition _ body | lookahead _ body | labeled body => [body]
  | _ => []

variable {invoke : String → Action (Option Tree)} {code inner : Code} {start start' : Nat}
  {s s' : State}

/-- A run of a fragment evaluates the fragment itself, or something in one of its parts. -/
lemma Evaluates.eq_or_part (h : Evaluates invoke inner start' s' code start s) :
    inner = code ∨
      ∃ part ∈ code.parts, ∃ start s₁, Evaluates invoke inner start' s' part start s₁ := by
  cases h with
  | self => exact .inl rfl
  | step _ h | alternative _ h => exact .inr ⟨_, by simp [parts], _, _, h⟩
  | turn _ h | lookahead h | labeled h => exact .inr ⟨_, List.mem_cons_self, _, _, h⟩

end Code

namespace Expr

/-- Whether a fragment is the code of a node of an expression that takes no implicit spacing, or
what an option or a label adds to it. -/
inductive Makes (g : Grammar) (e : Expr) : Code → Prop
  | node {node : Expr} {here : CallSite} (h : node.Within e) : Makes g e (node.code g false here)
  | empty {body : Expr} {span : Span} (h : (optional body span).Within e) : Makes g e .empty
  | attempt {label : String} {body : Expr} {span : Span} (h : (labeled label body span).Within e) :
    Makes g e (.choice [body.code g false .nested, .throw label .nested])
  | throw {label : String} {body : Expr} {span : Span} (h : (labeled label body span).Within e) :
    Makes g e (.throw label .nested)

variable {invoke : String → Action (Option Tree)} {inner : Code} {start start' : Nat} {s s' : State}
  {g : Grammar} {e : Expr} {here : CallSite}

lemma Makes.of_child {child : Expr} (h : child.Makes g inner) (hchild : child ∈ e.children) :
    e.Makes g inner := by
  cases h with
  | node h => exact .node (.deeper hchild h)
  | empty h => exact .empty (.deeper hchild h)
  | attempt h => exact .attempt (.deeper hchild h)
  | throw h => exact .throw (.deeper hchild h)

lemma Makes.of_eq (h : inner = e.code g false here) : e.Makes g inner := h ▸ .node .self

lemma makes_choice {items : List Expr} {span : Span}
    (ih : ∀ e ∈ items, ∀ {start s here}, Code.Evaluates invoke inner start' s'
      (e.code g false here) start s → e.Makes g inner)
    (h : Code.Evaluates invoke inner start' s' ((choice items span).code g false here) start s) :
    inner = (choice items span).code g false here ∨ ∃ e ∈ items, e.Makes g inner := by
  have hcodes : ∀ {part start s}, part ∈ codes g false items →
      Code.Evaluates invoke inner start' s' part start s → ∃ e ∈ items, e.Makes g inner := by
    intro part start s hpart h
    obtain ⟨item, hitem, rfl⟩ := exists_item_of_mem_codes hpart
    exact ⟨item, hitem, ih item hitem h⟩
  match items with
  | [only] =>
    simp only [code] at h
    exact .inr ⟨only, List.mem_cons_self, ih only List.mem_cons_self h⟩
  | [] | _ :: _ :: _ =>
    obtain heq | ⟨part, hpart, start, s₁, h⟩ := h.eq_or_part
    · exact .inl heq
    · simp only [code, Code.parts] at hpart
      exact .inr (hcodes hpart h)

lemma parts_nameCode (g : Grammar) (name : String) (here : CallSite) :
    (g.nameCode name here).parts = [] := by
  unfold Grammar.nameCode
  split
  · rfl
  · split <;> rfl

/-- What a run evaluates in the code of an expression that takes no implicit spacing is made by the
expression. -/
theorem makes_of_evaluates
    (h : Code.Evaluates invoke inner start' s' (e.code g false here) start s) :
    e.Makes g inner := by
  induction e using inductionOn generalizing here start s with
  | charClass members span ih =>
    rw [code_charClass] at h
    obtain heq | ⟨member, hmember, hmade⟩ := makes_choice ih h
    · exact .of_eq (heq.trans (code_charClass false here members span).symm)
    · exact hmade.of_child hmember
  | choice alternatives span ih =>
    obtain heq | ⟨alternative, halternative, hmade⟩ := makes_choice ih h
    · exact .of_eq heq
    · exact hmade.of_child halternative
  | lexical body span ih =>
    simp only [code] at h
    exact (ih h).of_child List.mem_cons_self
  | any | literal | range | definition | imported | grammar =>
    obtain heq | ⟨part, hpart, -⟩ := h.eq_or_part
    · exact .of_eq heq
    · simp [code, Code.parts] at hpart
  | identifier name span =>
    obtain heq | ⟨part, hpart, -⟩ := h.eq_or_part
    · exact .of_eq heq
    · simp [code, parts_nameCode] at hpart
  | zeroOrMore body span ih | oneOrMore body span ih | andPredicate body span ih
  | notPredicate body span ih =>
    obtain heq | ⟨part, hpart, start, s₁, h⟩ := h.eq_or_part
    · exact .of_eq heq
    · simp only [code, Code.parts, List.mem_singleton] at hpart
      exact (ih (hpart ▸ h)).of_child List.mem_cons_self
  | optional body span ih =>
    obtain heq | ⟨part, hpart, start, s₁, h⟩ := h.eq_or_part
    · exact .of_eq heq
    · simp only [code, Code.parts] at hpart
      rcases List.mem_pair.mp hpart with rfl | rfl
      · exact (ih h).of_child List.mem_cons_self
      · cases h with
        | self => exact .empty .self
  | labeled label body span ih =>
    obtain heq | ⟨part, hpart, start, s₁, h⟩ := h.eq_or_part
    · exact .of_eq heq
    · simp only [code, Code.parts, List.mem_singleton] at hpart
      subst hpart
      obtain rfl | ⟨part, hpart, start, s₂, h⟩ := h.eq_or_part
      · exact .attempt .self
      · rcases List.mem_pair.mp hpart with rfl | rfl
        · exact (ih h).of_child List.mem_cons_self
        · cases h with
          | self => exact .throw .self
  | sequence items span ih =>
    obtain heq | ⟨part, hpart, start, s₁, h⟩ := h.eq_or_part
    · exact .of_eq heq
    · -- there is no step but those of the items
      simp only [code, Code.parts, Grammar.stepCodes, Bool.false_and, Bool.false_eq_true,
        if_false] at hpart
      obtain ⟨item, hitem, rfl⟩ := exists_item_of_mem_codes hpart
      exact (ih item hitem h).of_child hitem

lemma within_of_code_eq_call {name : String} {site : CallSite}
    (h : e.code g false here = .call name site) : ∃ span, (identifier name span).Within e := by
  induction e using inductionOn generalizing here with
  | identifier name' span =>
    simp only [code, Grammar.nameCode] at h
    split at h
    · obtain ⟨rfl, -⟩ := Code.call.inj h
      exact ⟨span, .self⟩
    · split at h <;> cases h
  | charClass items span ih | choice items span ih =>
    cases items with
    | nil => simp only [code, reduceCtorEq] at h
    | cons only others =>
      cases others with
      | nil =>
        simp only [code] at h
        obtain ⟨span, hwithin⟩ := ih only List.mem_cons_self h
        exact ⟨span, .deeper List.mem_cons_self hwithin⟩
      | cons _ _ => simp only [code, reduceCtorEq] at h
  | lexical body span ih =>
    simp only [code] at h
    obtain ⟨span, hwithin⟩ := ih h
    exact ⟨span, .deeper List.mem_cons_self hwithin⟩
  | _ => simp only [code, reduceCtorEq] at h

/-- A call that an expression makes is an identifier in it. -/
lemma Makes.within {name : String} {site : CallSite} (h : e.Makes g (.call name site)) :
    ∃ span, (identifier name span).Within e := by
  generalize hcode : Code.call name site = code at h
  cases h with
  | node hnode =>
    obtain ⟨span, hwithin⟩ := within_of_code_eq_call hcode.symm
    exact ⟨span, hwithin.trans hnode⟩
  | empty | attempt | throw => cases hcode

end Expr

/-! ## While the spacing rule is being matched -/

namespace Parse.State

variable {s s' : State} {name rule : String}

/-- Whether a rule is being matched. -/
def Active (s : State) (rule : String) : Prop := ∃ entry ∈ s.trace, entry.name = rule

lemma active_enter_iff : (s.enter name).Active rule ↔ name = rule ∨ s.Active rule := by
  simp [Active, enter]

lemma Advanced.active_iff (h : s.Advanced s') : s'.Active rule ↔ s.Active rule := by
  rw [Active, h.trace, Active]

end Parse.State

namespace Program.Evaluates

variable {p : Program} {owner rule : String} {left depth start' : Nat} {inner : Code} {s s' : State}

lemma exists_body (h : p.Evaluates owner left inner start' s' depth rule s) :
    ∃ body, p.body? rule = some body := by
  cases h with
  | own hbody _ => exact ⟨_, hbody⟩
  | called hbody _ _ => exact ⟨_, hbody⟩

lemma exists_owner (h : p.Evaluates owner left inner start' s' depth rule s) :
    ∃ body s₁, p.body? owner = some body ∧
      Code.Evaluates (p.ruleAction left) inner start' s' body 0 s₁ := by
  induction h with
  | own hbody h => exact ⟨_, _, hbody, h⟩
  | called _ _ _ ih => exact ih

end Program.Evaluates

namespace Grammar

variable {g : Grammar} {owner rule callee : String} {left depth start start' : Nat} {inner : Code}
  {s s' : State}

lemma mem_quietRules_iff : rule ∈ g.quietRules ↔ g.Reaches [spacingName] rule := mem_reachable_iff

lemma exists_definition_of_body? {body : Code} (h : g.program.body? rule = some body) :
    ∃ d ∈ g.definitions, d.name = rule ∧
      body = d.body.code g (!g.quietRules.contains rule) .rule := by
  rw [body?_program] at h
  obtain ⟨d, hd, rfl⟩ := Option.map_eq_some_iff.mp h
  obtain ⟨hmem, rfl⟩ := definition?_eq_some_iff.mp hd
  exact ⟨d, hmem, rfl, rfl⟩

/-- A rule with a body that is entered while the spacing rule is being matched, or is the spacing
rule, takes no spacing, if the rules around it take none. -/
lemma mem_quietRules_of_enter {body : Code} (hbody : g.program.body? rule = some body)
    (hquiet : s.Active spacingName → rule ∈ g.quietRules)
    (hactive : (s.enter rule).Active spacingName) : rule ∈ g.quietRules := by
  obtain rfl | hactive := State.active_enter_iff.mp hactive
  · obtain ⟨d, hd, hname, -⟩ := exists_definition_of_body? hbody
    have hdefined : spacingName ∈ g.names := hname ▸ List.mem_map_of_mem hd
    exact mem_quietRules_iff.mpr (.root (List.mem_singleton_self _) hdefined)
  · exact hquiet hactive

/-- What a rule that takes no spacing calls takes no spacing either. -/
lemma mem_quietRules_of_call {body body' : Code} {site : CallSite}
    {invoke : String → Action (Option Tree)} (hbody : g.program.body? rule = some body)
    (hrule : rule ∈ g.quietRules)
    (hcall : Code.Evaluates invoke (.call callee site) start' s' body start s)
    (hcallee : g.program.body? callee = some body') : callee ∈ g.quietRules := by
  obtain ⟨d, hd, rfl, rfl⟩ := exists_definition_of_body? hbody
  obtain ⟨d', hd', rfl, -⟩ := exists_definition_of_body? hcallee
  have hspaced : (!g.quietRules.contains d.name) = false := by simpa using hrule
  rw [hspaced] at hcall
  obtain ⟨span, hwithin⟩ := (Expr.makes_of_evaluates hcall).within
  have hreference : ⟨d'.name, span⟩ ∈ d.body.references := Expr.mem_references_iff.mpr hwithin
  rw [mem_quietRules_iff] at hrule ⊢
  exact .step hrule hd hreference (List.mem_map_of_mem hd')

/-- The rule in which a fragment is evaluated takes no spacing if the spacing rule is being
matched. -/
theorem mem_quietRules_of_evaluates
    (h : g.program.Evaluates owner left inner start' s' depth rule s) (hs : s.location ≤ s.length)
    (hquiet : s.Active spacingName → rule ∈ g.quietRules) (hactive : s'.Active spacingName) :
    owner ∈ g.quietRules := by
  induction h with
  | own hbody h =>
    have hadvanced := h.advanced (g.program.advances_ruleAction _) hs
    exact mem_quietRules_of_enter hbody hquiet (hadvanced.active_iff.mp hactive)
  | called hbody hcall h ih =>
    have hadvanced := hcall.advanced (g.program.advances_ruleAction _) hs
    obtain ⟨body', hbody'⟩ := h.exists_body
    refine ih hadvanced.within fun hactive => ?_
    have hrule := mem_quietRules_of_enter hbody hquiet (hadvanced.active_iff.mp hactive)
    exact mem_quietRules_of_call hbody hrule hcall hbody'

/-- The parser of a grammar with implicit spacing switched off in every rule. -/
def unspaced (g : Grammar) : Program :=
  ⟨g.definitions.map fun d => ⟨d.name, d.body.code g false .rule⟩⟩

lemma body?_unspaced :
    g.unspaced.body? rule = (g.definition? rule).map fun d => d.body.code g false .rule := by
  simp only [unspaced, Program.body?, definition?, List.find?_map, Option.map_map]
  rfl

/-- The rules that the spacing rule reaches are matched as if no rule took spacing. -/
lemma ruleAction_unspaced (hrule : g.Reaches [spacingName] rule) (depth : Nat) :
    g.program.ruleAction depth rule = g.unspaced.ruleAction depth rule := by
  refine Program.ruleAction_congr (P := g.Reaches [spacingName]) ?_ ?_ depth hrule
  · intro name hname
    have hspaced : (!g.quietRules.contains name) = false := by
      simpa using mem_quietRules_iff.mpr hname
    rw [body?_program, body?_unspaced]
    cases hd : g.definition? name with
    | none => rfl
    | some d =>
      obtain ⟨-, rfl⟩ := definition?_eq_some_iff.mp hd
      simp only [Option.map_some, hspaced]
  · intro name body hname hbody callee hcalls
    rw [body?_unspaced] at hbody
    obtain ⟨d, hd, rfl⟩ := Option.map_eq_some_iff.mp hbody
    obtain ⟨hmem, rfl⟩ := definition?_eq_some_iff.mp hd
    obtain ⟨hdefines, rfl | ⟨r, hr, rfl⟩⟩ := Expr.calls_code hcalls
    · exact .root (List.mem_singleton_self _) (defines_iff.mp hdefines)
    · exact .step hname hmem hr (defines_iff.mp hdefines)

/-- Spacing takes no spacing. Whatever a run evaluates while the spacing rule is being matched
stands in a rule that the spacing rule reaches, whose code holds no step of implicit spacing, and is
made by the body of that rule; a call of the spacing rule is an identifier in the body. So the rules
that the spacing rule reaches are matched as if no rule took implicit spacing. -/
theorem no_spacing_in_spacing {p : Program} (hg : g.IsRead ∨ g.Assembled)
    (hp : g.compile = .ok p) :
    (∀ rule s, s.location ≤ s.length → ¬ s.Active spacingName →
      ∀ depth left owner inner start s', p.Evaluates owner left inner start s' depth rule s →
        s'.Active spacingName → g.Reaches [spacingName] owner ∧
          ∃ d ∈ g.definitions, d.name = owner ∧ p.body? owner = some (d.body.code g false .rule) ∧
            d.body.Makes g inner ∧ ∀ site, inner = .call spacingName site →
              ∃ span, (Expr.identifier spacingName span).Within d.body) ∧
    ∀ rule, g.Reaches [spacingName] rule → ∀ depth,
      p.ruleAction depth rule = g.unspaced.ruleAction depth rule := by
  have hplain : g.isPlain = true := by
    rcases hg with hread | hassembled
    · exact List.all_eq_true.mpr fun d hd => (hread.isNormal d hd).wellFormed.isPlain
    · exact hassembled.isPlain_and_validate.1
  have hvalid := validate_of_compile hplain hp
  obtain rfl : g.program = p := Except.ok.inj ((compile_eq_program hplain hvalid).symm.trans hp)
  refine ⟨fun rule s hs hnone depth left owner inner start s' h hactive => ?_,
    fun rule hrule depth => ruleAction_unspaced hrule depth⟩
  have howner : owner ∈ g.quietRules :=
    mem_quietRules_of_evaluates h hs (fun hactive => absurd hactive hnone) hactive
  have hspaced : (!g.quietRules.contains owner) = false := by simpa using howner
  obtain ⟨body, s₁, hbody, hinner⟩ := h.exists_owner
  obtain ⟨d, hd, hname, rfl⟩ := exists_definition_of_body? hbody
  rw [hspaced] at hbody hinner
  have hmade := Expr.makes_of_evaluates hinner
  refine ⟨mem_quietRules_iff.mp howner, d, hd, hname, hbody, hmade, fun site hsite => ?_⟩
  rw [hsite] at hmade
  exact hmade.within

end Grammar

/-- `S <- Word Word`, `Word <- [a-z]`, `Spacing <- (Blank Spacing)?` and `Blank <- ' '`. -/
def words : Grammar where
  imports := []
  definitions := [
    ⟨"S", .sequence [.identifier "Word" {}, .identifier "Word" {}] {}, {}⟩,
    ⟨"Word", .charClass [.range 'a' 'z' {}] {}, {}⟩,
    ⟨"Spacing", .optional (.sequence [.identifier "Blank" {}, .identifier "Spacing" {}] {}) {}, {}⟩,
    ⟨"Blank", .literal " " {}, {}⟩]
  span := {}
  distinct := by decide

theorem assembled_words : words.Assembled := by
  refine ⟨fun path => .error (.importNotFound path ""), 1, none, words, {}, by rfl, ?_, by rfl⟩
  intro path found h
  cases h

/-- Between the two words the spacing rule is called by an injected step, and behind the blank it
calls itself. -/
theorem no_spacing_in_spacing_words : ∃ s' : State, s'.location = 2 ∧
    words.program.Evaluates "Spacing" 1 (.call "Spacing" .nested) 1 s' 3 "S" (.ofString "a b") ∧
    s'.Active spacingName ∧
    (∃ d ∈ words.definitions, d.name = "Spacing" ∧
      words.program.body? "Spacing" = some (d.body.code words false .rule) ∧
      ∃ span, (Expr.identifier "Spacing" span).Within d.body) ∧
    words.program.ruleAction 2 "Blank" = words.unspaced.ruleAction 2 "Blank" := by
  let gap : Code := .call "Spacing" .nested
  let word : Code := .call "Word" .nested
  let outer : State := ⟨#['a', ' ', 'b'], 1, 0, [⟨"S", 0⟩], .commit⟩
  let s' : State := ⟨#['a', ' ', 'b'], 2, 0, [⟨"Spacing", 1⟩, ⟨"S", 0⟩], .commit⟩
  have hcall : Code.Evaluates (words.program.ruleAction 2) gap 0 outer
      (.sequence [gap, word, gap, word]) 0 ((State.ofString "a b").enter "S") := by
    refine .step (?_ : Code.Matched _ _ [gap, word] _ _) .self
    exact .cons rfl (.cons rfl .nil)
  have hagain : Code.Evaluates (words.program.ruleAction 1) gap 1 s'
      (.choice [.sequence [.call "Blank" .nested, gap], .empty]) 0 (outer.enter "Spacing") := by
    refine .alternative (.nil : Code.GivenUp _ _ _ [] _ _) (.step (?_ : Code.Matched _ _
      [.call "Blank" .nested] _ _) .self)
    exact .cons rfl .nil
  have hevaluates : words.program.Evaluates "Spacing" 1 gap 1 s' 3 "S" (.ofString "a b") :=
    .called rfl hcall (.own rfl hagain)
  have hactive : s'.Active spacingName := ⟨⟨"Spacing", 1⟩, List.mem_cons_self, rfl⟩
  have hnone : ¬ (State.ofString "a b").Active spacingName := by simp [State.Active, State.ofString]
  obtain ⟨hmade, hsame⟩ := Grammar.no_spacing_in_spacing (.inr assembled_words)
    assembled_words.compile_eq
  obtain ⟨-, d, hd, hname, hbody, -, hexplicit⟩ := hmade "S" (.ofString "a b") (Nat.zero_le _)
    hnone _ _ _ _ _ _ hevaluates hactive
  have hreached : words.Reaches [spacingName] "Blank" :=
    Grammar.mem_quietRules_iff.mp (by decide)
  exact ⟨s', rfl, hevaluates, hactive, ⟨d, hd, hname, hbody, hexplicit .nested rfl⟩,
    hsame "Blank" hreached 2⟩

end LabeledPeg
