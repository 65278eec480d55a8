import LabeledPeg.Program.Compile
import LabeledPeg.Proofs.Grammar.Closure

/-!
# Code without counters

The code of an expression depends on the counters of the compiler in two ways only: whether a
leaf stands directly in the procedure of its rule, and whether sequences take implicit spacing.
Given both, it is a function of the expression, and the compiler computes that function on every
expression whose names mean something and whose choices have alternatives.
-/

namespace LabeledPeg

namespace Grammar

/-- The code of a rule name. -/
def nameCode (g : Grammar) (name : String) (here : CallSite) : Code :=
  if g.defines name then .call name here
  else
    match Builtin.ofName? name with
    | some b => .builtin b here
    | none => .empty

/-- The code of the items of a sequence: with the spacing rule before each if `gaps`. -/
def stepCodes (g : Grammar) (gaps : Bool) (codes : List Code) : List Code :=
  if gaps then codes.flatMap fun code => [g.nameCode spacingName .nested, code] else codes

end Grammar

namespace Expr

mutual

/-- The code of an expression, which takes implicit spacing if `spaced`. -/
def code (g : Grammar) (spaced : Bool) (here : CallSite) : Expr → Code
  | any _ => .any here
  | literal value _ => .literal value here
  | range lo hi _ => .range lo hi here
  | identifier name _ => g.nameCode name here
  | charClass [only] _ | choice [only] _ => only.code g spaced here
  | charClass items _ | choice items _ => .choice (codes g spaced items)
  | optional body _ => .choice [body.code g spaced .nested, .empty]
  | zeroOrMore body _ => .repetition .zeroOrMore (body.code g spaced .nested)
  | oneOrMore body _ => .repetition .oneOrMore (body.code g spaced .nested)
  | andPredicate body _ => .lookahead .positive (body.code g spaced .nested)
  | notPredicate body _ => .lookahead .negative (body.code g spaced .nested)
  | lexical body _ => body.code g false here
  | labeled label body _ =>
    .labeled (.choice [body.code g spaced .nested, .throw label .nested])
  | sequence items _ =>
    .sequence (g.stepCodes (spaced && !allSyntactic items) (codes g spaced items))
  | definition _ | imported _ | grammar _ _ _ => .empty

/-- The codes of a list of expressions inside a closure. -/
def codes (g : Grammar) (spaced : Bool) : List Expr → List Code
  | [] => []
  | item :: items => item.code g spaced .nested :: codes g spaced items

end

lemma codes_eq_map (g : Grammar) (spaced : Bool) (items : List Expr) :
    codes g spaced items = items.map (code g spaced .nested) := by
  induction items with
  | nil => simp [codes]
  | cons item items ih => simp [codes, ih]

end Expr

namespace Counters

/-- Whether a sequence that is compiled now can take implicit spacing. -/
def spaced (c : Counters) : Bool :=
  decide (1 ≤ c.depth) && decide (c.lexical = 0) && !c.inSpacingRule

/-- Where a leaf that is compiled now stands. -/
def site (c : Counters) : CallSite := if c.closures = 0 then .rule else .nested

end Counters

/-- Whether every rule name of an expression means something and no choice of it is empty. -/
structure Expr.Compiles (g : Grammar) (e : Expr) : Prop where
  plain : e.isPlain = true
  resolved : ∀ r ∈ e.references, g.resolves r.name = true
  nonempty : e.emptyChoices = []

namespace Compiler

variable {α : Type} {c : Counters}

lemma site_eq (c : Counters) : site c = .success c.site c := rfl

lemma reference_eq {g : Grammar} {name : String} (span : Span) (c : Counters)
    (h : g.resolves name = true) : reference g name span c = .success (g.nameCode name c.site) c := by
  unfold reference Grammar.nameCode
  by_cases hdefines : g.defines name = true
  · simp only [Run.bind_of_success (site_eq c), hdefines, if_true, Run.pure_apply]
  · obtain ⟨b, hb⟩ : ∃ b, Builtin.ofName? name = some b := by
      have hname : name = spacingName ∨ name = endName := by
        simpa [Grammar.resolves, hdefines, isBuiltinName] using h
      rcases hname with rfl | rfl
      · exact ⟨.spacing, Builtin.ofName?_name .spacing⟩
      · exact ⟨.eof, Builtin.ofName?_name .eof⟩
    simp only [Run.bind_of_success (site_eq c), hdefines, hb, Bool.false_eq_true, if_false,
      Run.pure_apply]

lemma spacing_eq (g : Grammar) (c : Counters) :
    spacing g c = .success (g.nameCode spacingName c.site) c := by
  unfold spacing Grammar.nameCode
  rw [Run.bind_of_success (site_eq c)]
  by_cases hdefines : g.defines spacingName = true <;> simp [hdefines, Builtin.ofName?]

/-- A run inside a bracket that ends goes on behind it, if there are counters to go on with. -/
lemma bracket_ofExcept {inner : Compiler α} {enter : Counters → Counters}
    {leave : Counters → Option Counters} {r : Except GrammarError α} {c' d : Counters}
    (h : inner (enter c) = Run.ofExcept r c') (hleave : leave c' = some d) :
    bracket enter leave inner c = Run.ofExcept r d := by
  unfold bracket
  rw [h]
  cases r with
  | ok value => simp [Run.ofExcept, Run.succeed, Outcome.filterMapState, hleave]
  | error e => simp [Run.ofExcept, Run.fail, Outcome.filterMapState, hleave]

/-- What a step does inside one more closure, where every leaf is nested. -/
lemma nested_eq {inner : Compiler α} {value : α}
    (h : ∀ c' : Counters, c'.spaced = c.spaced → c'.site = .nested →
      inner c' = .success value c') : nested inner c = .success value c :=
  bracket_ofExcept (r := .ok value) (h { c with closures := c.closures + 1 } rfl rfl) rfl

lemma withoutSpacing_eq {inner : Compiler α} {value : α}
    (h : ∀ c' : Counters, c'.spaced = false → c'.site = c.site → inner c' = .success value c') :
    withoutSpacing inner c = .success value c := by
  have hinner := h { c with lexical := c.lexical + 1 } (by simp [Counters.spaced]) rfl
  exact bracket_ofExcept (r := .ok value) hinner rfl

end Compiler

namespace Expr

open Compiler

variable {g : Grammar} {quiet : List String}

/-- Whether the compiler gives the code of an expression and leaves its counters as they were. -/
def IsCompiled (g : Grammar) (quiet : List String) (e : Expr) : Prop :=
  ∀ c : Counters, e.compile g quiet c = .success (e.code g c.spaced c.site) c

lemma IsCompiled.nested {body : Expr} (h : IsCompiled g quiet body) (c : Counters) :
    Compiler.nested (body.compile g quiet) c = .success (body.code g c.spaced .nested) c := by
  refine nested_eq fun c' hspaced hsite => ?_
  rw [h c', hspaced, hsite]

lemma compileItems_eq {items : List Expr} (gaps : Bool) {c : Counters} (hsite : c.site = .nested)
    (h : ∀ e ∈ items, IsCompiled g quiet e) :
    compileItems g quiet gaps items c = .success (g.stepCodes gaps (codes g c.spaced items)) c := by
  induction items with
  | nil => cases gaps <;> simp [compileItems, codes, Grammar.stepCodes]
  | cons item items ih =>
    have hitem := h item (by simp) c
    have hitems := ih fun e he => h e (by simp [he])
    rw [hsite] at hitem
    cases gaps with
    | false =>
      have hbefore : spacingBefore g false c = .success [] c := rfl
      rw [compileItems, Run.bind_of_success hbefore, Run.bind_of_success hitem,
        Run.bind_of_success hitems]
      simp [codes, Grammar.stepCodes]
    | true =>
      have hbefore : spacingBefore g true c = .success [g.nameCode spacingName .nested] c := by
        rw [spacingBefore, if_pos rfl, Run.bind_of_success (spacing_eq g c), hsite]
        rfl
      rw [compileItems, Run.bind_of_success hbefore, Run.bind_of_success hitem,
        Run.bind_of_success hitems]
      simp [codes, Grammar.stepCodes]

lemma nested_compileItems {items : List Expr} (gaps : Bool) (c : Counters)
    (h : ∀ e ∈ items, IsCompiled g quiet e) :
    Compiler.nested (compileItems g quiet gaps items) c =
      .success (g.stepCodes gaps (codes g c.spaced items)) c := by
  refine nested_eq fun c' hspaced hsite => ?_
  rw [compileItems_eq gaps hsite h, hspaced]

lemma isCompiled_choice {items : List Expr} {span : Span} (hne : items ≠ [])
    (h : ∀ e ∈ items, IsCompiled g quiet e) : IsCompiled g quiet (.choice items span) := by
  intro c
  match items with
  | [] => exact absurd rfl hne
  | [only] => simpa [compile, code] using h only (by simp) c
  | first :: second :: others =>
    have hitems := nested_compileItems false c h
    simp only [compile, code, Run.bind_of_success hitems]
    rfl

/-- A class is compiled as the choice of its members. -/
lemma compile_charClass (members : List Expr) (span : Span) :
    (charClass members span).compile g quiet = (choice members span).compile g quiet := by
  match members with
  | [] | [_] | _ :: _ :: _ => simp only [compile]

lemma code_charClass (spaced : Bool) (here : CallSite) (members : List Expr) (span : Span) :
    (charClass members span).code g spaced here = (choice members span).code g spaced here := by
  match members with
  | [] | [_] | _ :: _ :: _ => simp only [code]

lemma Compiles.of_mem {items : List Expr} (hplain : allPlain items = true)
    (hresolved : ∀ r ∈ itemReferences items, g.resolves r.name = true)
    (hnonempty : itemEmptyChoices items = []) {e : Expr} (he : e ∈ items) : e.Compiles g := by
  rw [itemReferences_eq_flatMap] at hresolved
  rw [itemEmptyChoices_eq_flatMap, List.flatMap_eq_nil_iff] at hnonempty
  exact ⟨allPlain_iff.mp hplain e he,
    fun r hr => hresolved r (List.mem_flatMap.mpr ⟨e, he, hr⟩), hnonempty e he⟩

/-- A choice or class of an expression that compiles has an item, and its items compile. -/
lemma Compiles.of_choice {items : List Expr} {span : Span}
    (h : (choice items span).Compiles g) : items ≠ [] ∧ ∀ e ∈ items, e.Compiles g := by
  have hempty := h.nonempty
  simp only [emptyChoices, List.append_eq_nil_iff, ite_eq_right_iff, List.isEmpty_iff,
    List.cons_ne_self, imp_false] at hempty
  exact ⟨hempty.1, fun e he => .of_mem h.plain h.resolved hempty.2 he⟩

/-- The compiler gives the code of an expression and leaves its counters as they were. -/
theorem compile_eq_code {e : Expr} (he : e.Compiles g) : IsCompiled g quiet e := by
  induction e using inductionOn with
  | any span | literal value span | range lo hi span =>
    intro c
    simp only [compile, code, Run.bind_of_success (site_eq c)]
    rfl
  | identifier name span =>
    intro c
    simp only [compile, code]
    exact reference_eq span c (he.resolved ⟨name, span⟩ (by simp [references]))
  | charClass members span ih =>
    have hclass : (choice members span).Compiles g := ⟨he.plain, he.resolved, he.nonempty⟩
    intro c
    rw [compile_charClass, code_charClass]
    exact isCompiled_choice hclass.of_choice.1 (fun e he => ih e he (hclass.of_choice.2 e he)) c
  | choice alternatives span ih =>
    exact isCompiled_choice he.of_choice.1 fun e hmem => ih e hmem (he.of_choice.2 e hmem)
  | optional body span ih =>
    have hbody : IsCompiled g quiet body := ih ⟨he.plain, he.resolved, he.nonempty⟩
    intro c
    have hinner : Compiler.nested (do return [← body.compile g quiet, .empty]) c =
        .success [body.code g c.spaced .nested, .empty] c := by
      refine nested_eq fun c' hspaced hsite => ?_
      rw [Run.bind_of_success (hbody c'), hspaced, hsite]
      rfl
    simp only [compile, code, Run.bind_of_success hinner]
    rfl
  | zeroOrMore body span ih | oneOrMore body span ih | andPredicate body span ih
  | notPredicate body span ih =>
    intro c
    have hbody := (ih ⟨he.plain, he.resolved, he.nonempty⟩).nested c
    simp only [compile, code, Run.bind_of_success hbody]
    rfl
  | lexical body span ih =>
    have hbody : IsCompiled g quiet body := ih ⟨he.plain, he.resolved, he.nonempty⟩
    intro c
    simp only [compile, code]
    refine withoutSpacing_eq fun c' hspaced hsite => ?_
    rw [hbody c', hspaced, hsite]
  | labeled label body span ih =>
    have hbody : IsCompiled g quiet body := ih ⟨he.plain, he.resolved, he.nonempty⟩
    intro c
    have hinner :
        Compiler.nested (do return [← body.compile g quiet, .throw label (← Compiler.site)]) c =
          .success [body.code g c.spaced .nested, .throw label .nested] c := by
      refine nested_eq fun c' hspaced hsite => ?_
      rw [Run.bind_of_success (hbody c'), Run.bind_of_success (site_eq c'), hspaced, hsite]
      rfl
    simp only [compile, code, Run.bind_of_success hinner]
    rfl
  | sequence items span ih =>
    intro c
    have hitems := nested_compileItems (c.spaced && !allSyntactic items) c fun e hmem =>
      ih e hmem (.of_mem he.plain he.resolved he.nonempty hmem)
    have hspaces : Compiler.spaces items c =
        .success (c.spaced && !allSyntactic items) c := rfl
    simp only [compile, code, Run.bind_of_success hspaces, Run.bind_of_success hitems]
    rfl
  | definition rule ih => simpa [isPlain] using he.plain
  | imported clause => simpa [isPlain] using he.plain
  | grammar imports definitions span ih => simpa [isPlain] using he.plain

end Expr

namespace Grammar

/-- What the rule of a definition does. -/
def procedure (g : Grammar) (d : Definition) : Procedure Code :=
  ⟨d.name, d.body.code g (!g.quietRules.contains d.name) .rule⟩

/-- The parser of a grammar, rule by rule. -/
def program (g : Grammar) : Program := ⟨g.definitions.map g.procedure⟩

lemma compileDefinitions_eq {g : Grammar} {definitions : List Definition}
    (h : ∀ d ∈ definitions, d.body.Compiles g) :
    Expr.compileDefinitions g g.quietRules definitions {} =
      .success (definitions.map g.procedure) {} := by
  induction definitions with
  | nil => simp [Expr.compileDefinitions]
  | cons d definitions ih =>
    have hcompiled : Expr.IsCompiled g g.quietRules d.body := Expr.compile_eq_code (h d (by simp))
    have hbody := hcompiled ⟨1, 0, 0, g.quietRules.contains d.name⟩
    have hrule : Compiler.inDefinition (g.quietRules.contains d.name)
        (d.body.compile g g.quietRules) {} =
          .success (d.body.code g (!g.quietRules.contains d.name) .rule) {} := by
      have hspaced : Counters.spaced ⟨1, 0, 0, g.quietRules.contains d.name⟩ =
          !g.quietRules.contains d.name := by simp [Counters.spaced]
      rw [hspaced] at hbody
      exact Compiler.bracket_ofExcept (r := .ok _) hbody rfl
    have hrest := ih fun d hd => h d (by simp [hd])
    simp only [Expr.compileDefinitions, Run.bind_of_success hrule, Run.bind_of_success hrest]
    rfl

/-- A validated grammar of expressions has a parser, and this is it. -/
theorem compile_eq_program {g : Grammar} (hplain : g.isPlain = true) (hvalid : g.validate = .ok ()) :
    g.compile = .ok g.program := by
  obtain ⟨himports, hdefinitions⟩ := validate_eq_ok_iff.mp hvalid
  have hcompiles : ∀ d ∈ g.definitions, d.body.Compiles g := by
    intro d hd
    have hbody : d.body.isPlain = true := List.all_eq_true.mp hplain d hd
    exact ⟨hbody, (hdefinitions d hd).1, (hdefinitions d hd).2⟩
  unfold compile compiler
  rw [himports]
  simp only [Run.bind_of_success (compileDefinitions_eq hcompiles)]
  rfl

/-- An assembled grammar has a parser. -/
theorem Assembled.compile_eq {g : Grammar} (hg : g.Assembled) : g.compile = .ok g.program := by
  obtain ⟨hplain, hvalid⟩ := hg.isPlain_and_validate
  exact compile_eq_program hplain hvalid

end Grammar

end LabeledPeg
