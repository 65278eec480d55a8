import LabeledPeg.Proofs.Program.Faults

/-!
# What a target can rely on

The code of a grammar has a form that the targets rely on and do not check. A label is thrown last
of all in the attempt that it is for, where the start of the attempt is noted; a fragment without a
value stands where an attempt may fail; and the rules that are called are there, because they are
procedures of the parser or because they are built in and nothing in the parser hides them.
-/

namespace LabeledPeg

namespace Code

/-- The form of a fragment in the parser of `g`. A thrown label and a fragment without a value have
no form of their own: they are the second of two alternatives. -/
inductive Contract (g : Grammar) : Code → Prop
  | sequence {steps : List Code} (h : ∀ c ∈ steps, Contract g c) : Contract g (.sequence steps)
  | choice {alternatives : List Code} (hlength : 2 ≤ alternatives.length)
    (h : ∀ c ∈ alternatives, Contract g c) : Contract g (.choice alternatives)
  | optional {attempt : Code} (h : Contract g attempt) : Contract g (.choice [attempt, .empty])
  | repetition {kind : Repetition} {body : Code} (h : Contract g body) :
    Contract g (.repetition kind body)
  | lookahead {kind : Lookahead} {body : Code} (h : Contract g body) :
    Contract g (.lookahead kind body)
  | labeled {attempt : Code} {label : String} {site : CallSite} (h : Contract g attempt) :
    Contract g (.labeled (.choice [attempt, .throw label site]))
  | call {rule : String} {site : CallSite} (h : rule ∈ g.names) : Contract g (.call rule site)
  | builtin {rule : Builtin} {site : CallSite} (h : rule.name ∉ g.names) :
    Contract g (.builtin rule site)
  | literal {value : String} {site : CallSite} : Contract g (.literal value site)
  | range {lo hi : Char} {site : CallSite} : Contract g (.range lo hi site)
  | any {site : CallSite} : Contract g (.any site)

mutual

/-- The labels that a fragment throws, in order. -/
def labels : Code → List String
  | throw label _ => [label]
  | sequence items | choice items => allLabels items
  | repetition _ body | lookahead _ body | labeled body | procedure _ body => body.labels
  | program procedures => procedureLabels procedures
  | empty | call _ _ | builtin _ _ | literal _ _ | range _ _ _ | any _ => []

/-- The labels that a list of fragments throws. -/
def allLabels : List Code → List String
  | [] => []
  | code :: codes => code.labels ++ allLabels codes

/-- The labels that a list of procedures throws. -/
def procedureLabels : List (Procedure Code) → List String
  | [] => []
  | ⟨_, body⟩ :: procedures => body.labels ++ procedureLabels procedures

end

lemma allLabels_eq_flatMap (codes : List Code) : allLabels codes = codes.flatMap labels := by
  induction codes with
  | nil => simp [allLabels]
  | cons code codes ih => simp [allLabels, ih]

end Code

namespace Expr

mutual

/-- The labels in an expression, each one after those of the node that it is for. -/
def labels : Expr → List String
  | labeled label body _ => body.labels ++ [label]
  | optional body _ | zeroOrMore body _ | oneOrMore body _ | andPredicate body _
  | notPredicate body _ | lexical body _ => body.labels
  | charClass items _ | sequence items _ | choice items _ => allLabels items
  | definition ⟨_, body, _⟩ => body.labels
  | grammar _ definitions _ => definitionLabels definitions
  | any _ | literal _ _ | identifier _ _ | range _ _ _ | imported _ => []

/-- The labels in a list of expressions. -/
def allLabels : List Expr → List String
  | [] => []
  | item :: items => item.labels ++ allLabels items

/-- The labels in the bodies of a list of definitions. -/
def definitionLabels : List Definition → List String
  | [] => []
  | ⟨_, body, _⟩ :: definitions => body.labels ++ definitionLabels definitions

end

lemma allLabels_eq_flatMap (items : List Expr) : allLabels items = items.flatMap labels := by
  induction items with
  | nil => simp [allLabels]
  | cons item items ih => simp [allLabels, ih]

variable {g : Grammar}

/-! ## The form of the code -/

/-- A rule name that means something is called if the grammar defines it, and built in if not. -/
lemma contract_nameCode {name : String} (here : CallSite) (h : g.resolves name = true) :
    (g.nameCode name here).Contract g := by
  unfold Grammar.nameCode
  split
  · next hdefines => exact .call (Grammar.defines_iff.mp hdefines)
  · next hdefines =>
    rw [Grammar.defines_iff] at hdefines
    cases hbuiltin : Builtin.ofName? name with
    | some b =>
      have hname : b.name = name := Builtin.ofName?_eq_some_iff.mp hbuiltin
      exact .builtin (hname ▸ hdefines)
    | none =>
      rw [Builtin.ofName?_eq_none_iff] at hbuiltin
      rw [Grammar.resolves_eq_false_iff.mpr ⟨hdefines, hbuiltin⟩] at h
      cases h

lemma contract_choice {items : List Expr} {span : Span} (hne : items ≠ [])
    (h : ∀ e ∈ items, ∀ spaced here, (e.code g spaced here).Contract g) (spaced : Bool)
    (here : CallSite) : ((choice items span).code g spaced here).Contract g := by
  match items with
  | [] => exact absurd rfl hne
  | [only] =>
    simp only [code]
    exact h only List.mem_cons_self spaced here
  | first :: second :: others =>
    simp only [code, codes_eq_map]
    refine .choice (by simp) (List.forall_mem_map.mpr fun item hitem => ?_)
    exact h item hitem spaced .nested

/-- The code of an expression that compiles has the form that the targets rely on. -/
theorem contract_code {e : Expr} (he : e.Compiles g) (spaced : Bool) (here : CallSite) :
    (e.code g spaced here).Contract g := by
  induction e using inductionOn generalizing spaced here with
  | any => simp only [code]; exact .any
  | literal => simp only [code]; exact .literal
  | range => simp only [code]; exact .range
  | identifier name span =>
    simp only [code]
    exact contract_nameCode here (he.resolved ⟨name, span⟩ (by simp [references]))
  | charClass members span ih =>
    have hclass : (choice members span).Compiles g := ⟨he.plain, he.resolved, he.nonempty⟩
    rw [code_charClass]
    exact contract_choice hclass.of_choice.1 (fun e hmem => ih e hmem (hclass.of_choice.2 e hmem))
      spaced here
  | choice alternatives span ih =>
    exact contract_choice he.of_choice.1 (fun e hmem => ih e hmem (he.of_choice.2 e hmem))
      spaced here
  | optional body span ih =>
    simp only [code]
    exact .optional (ih ⟨he.plain, he.resolved, he.nonempty⟩ spaced .nested)
  | zeroOrMore body span ih | oneOrMore body span ih =>
    simp only [code]
    exact .repetition (ih ⟨he.plain, he.resolved, he.nonempty⟩ spaced .nested)
  | andPredicate body span ih | notPredicate body span ih =>
    simp only [code]
    exact .lookahead (ih ⟨he.plain, he.resolved, he.nonempty⟩ spaced .nested)
  | lexical body span ih =>
    simp only [code]
    exact ih ⟨he.plain, he.resolved, he.nonempty⟩ false here
  | labeled label body span ih =>
    simp only [code]
    exact .labeled (ih ⟨he.plain, he.resolved, he.nonempty⟩ spaced .nested)
  | sequence items span ih =>
    have hitems : ∀ c ∈ codes g spaced items, c.Contract g := by
      rw [codes_eq_map]
      refine List.forall_mem_map.mpr fun item hmem => ?_
      exact ih item hmem (.of_mem he.plain he.resolved he.nonempty hmem) spaced .nested
    -- spacing needs no definition, so its name always means something
    have hspacing : g.resolves spacingName = true := by simp [Grammar.resolves, isBuiltinName]
    simp only [code, Grammar.stepCodes]
    refine .sequence ?_
    split
    · intro c hc
      obtain ⟨step, hstep, hmem⟩ := List.mem_flatMap.mp hc
      rcases List.mem_pair.mp hmem with rfl | rfl
      · exact contract_nameCode .nested hspacing
      · exact hitems c hstep
    · exact hitems
  | definition | imported | grammar => simpa [isPlain] using he.plain

/-! ## The labels of the code -/

lemma labels_nameCode (name : String) (here : CallSite) : (g.nameCode name here).labels = [] := by
  unfold Grammar.nameCode
  split
  · simp only [Code.labels]
  · split <;> simp only [Code.labels]

/-- Spacing between the items of a sequence throws no labels. -/
lemma labels_stepCodes (gaps : Bool) (codes : List Code) :
    Code.allLabels (g.stepCodes gaps codes) = Code.allLabels codes := by
  cases gaps with
  | false => rfl
  | true =>
    simp [Grammar.stepCodes, Code.allLabels_eq_flatMap, List.flatMap_assoc, labels_nameCode]

lemma allLabels_codes {items : List Expr} {spaced : Bool}
    (h : ∀ e ∈ items, (e.code g spaced .nested).labels = e.labels) :
    Code.allLabels (codes g spaced items) = allLabels items := by
  rw [codes_eq_map, Code.allLabels_eq_flatMap, allLabels_eq_flatMap, List.flatMap_map]
  exact List.flatMap_congr h

lemma labels_choice {items : List Expr} {span : Span}
    (h : ∀ e ∈ items, ∀ spaced here, (e.code g spaced here).labels = e.labels) (spaced : Bool)
    (here : CallSite) : ((choice items span).code g spaced here).labels = allLabels items := by
  have hcodes := allLabels_codes fun e he => h e he spaced .nested
  match items with
  | [] => simp only [code, Code.labels, hcodes]
  | [only] => simp [code, allLabels, h only List.mem_cons_self]
  | _ :: _ :: _ => simp only [code, Code.labels, hcodes]

/-- The code of an expression throws the labels of the expression. -/
theorem labels_code {e : Expr} (he : e.isPlain = true) (spaced : Bool) (here : CallSite) :
    (e.code g spaced here).labels = e.labels := by
  induction e using inductionOn generalizing spaced here with
  | any | literal | range => simp only [code, Code.labels, labels]
  | identifier name span => simp only [code, labels_nameCode, labels]
  | charClass members span ih =>
    rw [code_charClass, labels]
    exact labels_choice (fun e hmem => ih e hmem (allPlain_iff.mp he e hmem)) spaced here
  | choice alternatives span ih =>
    rw [labels]
    exact labels_choice (fun e hmem => ih e hmem (allPlain_iff.mp he e hmem)) spaced here
  | optional body span ih =>
    simp [code, Code.labels, Code.allLabels, labels, ih he]
  | labeled label body span ih =>
    simp [code, Code.labels, Code.allLabels, labels, ih he]
  | zeroOrMore body span ih | oneOrMore body span ih | andPredicate body span ih
  | notPredicate body span ih | lexical body span ih =>
    simp only [code, Code.labels, labels, ih he]
  | sequence items span ih =>
    have hitems := allLabels_codes (g := g) fun e hmem =>
      ih e hmem (allPlain_iff.mp he e hmem) spaced .nested
    simp only [code, Code.labels, labels, labels_stepCodes, hitems]
  | definition | imported | grammar => simp [isPlain] at he

end Expr

namespace Grammar

/-- The rules of a parser belong to the grammar, and their code has the form that the targets rely
on. -/
lemma contract_program {g : Grammar} (hplain : g.isPlain = true) (hvalid : g.validate = .ok ()) :
    ∀ q ∈ g.program.procedures, q.name ∈ g.names ∧ q.body.Contract g := by
  obtain ⟨-, hdefinitions⟩ := validate_eq_ok_iff.mp hvalid
  rw [program]
  refine List.forall_mem_map.mpr fun d hd => ⟨List.mem_map_of_mem hd, ?_⟩
  have hbody : d.body.isPlain = true := List.all_eq_true.mp hplain d hd
  exact Expr.contract_code ⟨hbody, (hdefinitions d hd).1, (hdefinitions d hd).2⟩ _ _

/-- The parser of a grammar of expressions has a procedure for each definition, in the same order
and under the same name. Its code has the form that the targets rely on, and throws the labels of
the body of the definition, each one behind the attempt that it is for. -/
theorem compile_keeps_contract {g : Grammar} {p : Program} (hplain : g.isPlain = true)
    (h : g.compile = .ok p) :
    List.Forall₂ (fun (d : Definition) (procedure : Procedure Code) =>
      procedure.name = d.name ∧ procedure.body.Contract g ∧ procedure.body.labels = d.body.labels)
      g.definitions p.procedures := by
  -- what the compiler accepts is valid, so the code is given by equations
  have hvalid := validate_of_compile hplain h
  obtain rfl : g.program = p := Except.ok.inj ((compile_eq_program hplain hvalid).symm.trans h)
  have hcontract := contract_program hplain hvalid
  rw [program, List.forall₂_map_right_iff, List.forall₂_same]
  intro d hd
  have hbody : d.body.isPlain = true := List.all_eq_true.mp hplain d hd
  exact ⟨rfl, (hcontract _ (List.mem_map_of_mem hd)).2, Expr.labels_code hbody _ _⟩

end Grammar

/-- `S <- ('a'^inner B?)^outer EOF`, `B <- [b]` and `Spacing <- ' '*`, each in a line. -/
def tagged : Grammar where
  imports := []
  definitions := [
    ⟨"S", .sequence [
      .labeled "outer" (.sequence [.labeled "inner" (.literal "a" ⟨6, 9⟩) ⟨6, 15⟩,
        .optional (.identifier "B" ⟨16, 17⟩) ⟨16, 18⟩] ⟨6, 18⟩) ⟨5, 25⟩,
      .identifier "EOF" ⟨26, 29⟩] ⟨5, 30⟩, ⟨0, 30⟩⟩,
    ⟨"B", .charClass [.literal "b" ⟨36, 37⟩] ⟨35, 38⟩, ⟨30, 39⟩⟩,
    ⟨"Spacing", .zeroOrMore (.literal " " ⟨50, 53⟩) ⟨50, 54⟩, ⟨39, 54⟩⟩]
  span := ⟨0, 54⟩
  distinct := by decide

/-- An attempt with a label inside another one, an option, a class of one member and a rule that is
built in, spaced by a rule of the grammar. -/
theorem compile_keeps_contract_tagged :
    tagged.isPlain = true ∧ tagged.compile = .ok tagged.program ∧
    (tagged.definitions.map fun d => d.body.labels) = [["inner", "outer"], [], []] ∧
    List.Forall₂ (fun (d : Definition) (procedure : Procedure Code) =>
      procedure.name = d.name ∧ procedure.body.Contract tagged ∧
        procedure.body.labels = d.body.labels)
      tagged.definitions tagged.program.procedures := by
  have hplain : tagged.isPlain = true := by decide
  have hcompile : tagged.compile = .ok tagged.program := by rfl
  exact ⟨hplain, hcompile, by rfl, Grammar.compile_keeps_contract hplain hcompile⟩

end LabeledPeg
