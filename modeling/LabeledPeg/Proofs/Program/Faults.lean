import LabeledPeg.Program.Generate
import LabeledPeg.Proofs.Grammar.Nodes
import LabeledPeg.Proofs.Program.Compile

/-!
# What validation and the compiler refuse

A grammar of expressions has a fault if it has imports left, if a rule name in it means nothing, or
if a choice or class in it has no items. Validation collects rule names first and empty choices
afterwards, definition by definition; the compiler reads each body once and stops at the first node
that it has no code for. Both judge a grammar by its faults: they accept it exactly if it has none,
and what they report is one of them, if not always the same one.
-/

namespace LabeledPeg

/-- What is wrong with a node in itself, with the rule names of `g`. -/
inductive Expr.Fault (g : Grammar) : Expr → GrammarError → Prop
  | unresolved {name : String} {span : Span} (hdefined : name ∉ g.names)
    (hbuiltin : isBuiltinName name = false) :
    Fault g (.identifier name span) (.unresolvedIdentifier name span)
  | emptyChoice {span : Span} : Fault g (.choice [] span) (.emptyChoice span)
  | emptyClass {span : Span} : Fault g (.charClass [] span) (.emptyChoice span)

/-- What is wrong with some node of an expression. -/
def Expr.Faulted (g : Grammar) (e : Expr) (fault : GrammarError) : Prop :=
  ∃ node : Expr, node.Within e ∧ node.Fault g fault

/-- What is wrong with a grammar: some node of some body, or that its first import is left. -/
inductive Grammar.Faulted (g : Grammar) : GrammarError → Prop
  | node {d : Definition} {fault : GrammarError} (hd : d ∈ g.definitions)
    (h : d.body.Faulted g fault) : Faulted g fault
  | unassembled {i : Import} {imports : List Import} (h : g.imports = i :: imports) :
    Faulted g (.unassembledImport i.path i.span)

/-- Whether a result tells if there are faults: a refusal names one, and what is accepted has
none. -/
structure Judges {ε α : Type} (result : Except ε α) (faults : ε → Prop) : Prop where
  sound : ∀ {fault}, result = .error fault → faults fault
  complete : ∀ {value}, result = .ok value → ∀ fault, ¬ faults fault

/-- Whether there is no parser because the grammar is refused, for one of `faults`. -/
def CompileError.IsRefusal (faults : GrammarError → Prop) (e : CompileError) : Prop :=
  ∃ fault, e = .refused fault ∧ faults fault

namespace Judges

variable {ε α β : Type} {result : Except ε α} {faults : ε → Prop}

lemma ok {value : α} (h : ∀ fault, ¬ faults fault) : Judges (.ok value) faults :=
  ⟨fun hresult => (nomatch hresult), fun _ => h⟩

lemma error {fault : ε} (h : faults fault) : Judges (.error fault : Except ε α) faults :=
  ⟨fun hresult => Except.error.inj hresult ▸ h, fun hresult => (nomatch hresult)⟩

lemma map (h : Judges result faults) (f : α → β) : Judges (result.map f) faults := by
  cases result with
  | ok value => exact ok (h.complete rfl)
  | error fault => exact error (h.sound rfl)

lemma congr {faults' : ε → Prop} (h : Judges result faults)
    (hsame : ∀ fault, faults fault ↔ faults' fault) : Judges result faults' :=
  ⟨fun hresult => (hsame _).mp (h.sound hresult),
    fun hresult fault hfault => h.complete hresult fault ((hsame fault).mpr hfault)⟩

lemma exists_ok_iff (h : Judges result faults) :
    (∃ value, result = .ok value) ↔ ∀ fault, ¬ faults fault := by
  cases hresult : result with
  | ok value => exact ⟨fun _ => h.complete hresult, fun _ => ⟨value, rfl⟩⟩
  | error fault =>
    refine ⟨?_, fun hnone => absurd (h.sound hresult) (hnone fault)⟩
    rintro ⟨_, hvalue⟩
    cases hvalue

end Judges

namespace Expr

variable {g : Grammar} {e : Expr} {fault : GrammarError}

/-- A fault of an expression is one of the node itself or lies right below it. -/
lemma faulted_iff :
    e.Faulted g fault ↔ e.Fault g fault ∨ ∃ child ∈ e.children, child.Faulted g fault := by
  constructor
  · rintro ⟨node, hnode, hfault⟩
    cases hnode with
    | self => exact .inl hfault
    | deeper hchild h => exact .inr ⟨_, hchild, node, h, hfault⟩
  · rintro (hfault | ⟨child, hchild, node, hnode, hfault⟩)
    · exact ⟨e, .self, hfault⟩
    · exact ⟨node, .deeper hchild hnode, hfault⟩

lemma faulted_iff_of_right (h : ∀ fault, ¬ e.Fault g fault) :
    e.Faulted g fault ↔ ∃ child ∈ e.children, child.Faulted g fault :=
  faulted_iff.trans (or_iff_right (h fault))

end Expr

lemma Grammar.resolves_eq_false_iff {g : Grammar} {name : String} :
    g.resolves name = false ↔ name ∉ g.names ∧ isBuiltinName name = false := by
  rw [resolves, Bool.or_eq_false_iff, ← defines_iff, Bool.not_eq_true]

namespace Builtin

variable {name : String}

lemma ofName?_eq_some_iff {b : Builtin} : ofName? name = some b ↔ b.name = name := by
  constructor
  · intro h
    unfold ofName? at h
    split_ifs at h with hspacing hend
    · obtain rfl := Option.some.inj h
      exact hspacing.symm
    · obtain rfl := Option.some.inj h
      exact hend.symm
  · rintro rfl
    exact ofName?_name b

lemma ofName?_eq_none_iff : ofName? name = none ↔ isBuiltinName name = false := by
  unfold ofName? isBuiltinName
  split_ifs with hspacing hend <;> simp [*]

end Builtin

/-! ## Validation -/

namespace Grammar

variable {g : Grammar}

lemma definitionFault?_eq_some {d : Definition} {fault : GrammarError}
    (h : g.definitionFault? d = some fault) : d.body.Faulted g fault := by
  unfold definitionFault? at h
  split at h
  · next r hr =>
    obtain rfl := Option.some.inj h
    have hunresolved : g.resolves r.name = false := by simpa using List.find?_some hr
    obtain ⟨hdefined, hbuiltin⟩ := resolves_eq_false_iff.mp hunresolved
    have hnode := Expr.mem_references_iff.mp (List.mem_of_find?_eq_some hr)
    exact ⟨_, hnode, .unresolved hdefined hbuiltin⟩
  · obtain ⟨span, hspan, rfl⟩ := Option.map_eq_some_iff.mp h
    obtain hnode | hnode := Expr.mem_emptyChoices_iff.mp (List.mem_of_head? hspan)
    · exact ⟨_, hnode, .emptyChoice⟩
    · exact ⟨_, hnode, .emptyClass⟩

lemma not_faulted_of_validate {d : Definition}
    (hresolved : ∀ r ∈ d.body.references, g.resolves r.name = true)
    (hnonempty : d.body.emptyChoices = []) (fault : GrammarError) : ¬ d.body.Faulted g fault := by
  have hempty : ∀ span, span ∉ d.body.emptyChoices := List.eq_nil_iff_forall_not_mem.mp hnonempty
  rintro ⟨node, hnode, hfault⟩
  cases hfault with
  | @unresolved name span hdefined hbuiltin =>
    have hmeaning := hresolved ⟨name, span⟩ (Expr.mem_references_iff.mpr hnode)
    rw [resolves_eq_false_iff.mpr ⟨hdefined, hbuiltin⟩] at hmeaning
    cases hmeaning
  | @emptyChoice span => exact hempty span (Expr.mem_emptyChoices_iff.mpr (.inl hnode))
  | @emptyClass span => exact hempty span (Expr.mem_emptyChoices_iff.mpr (.inr hnode))

/-- Validation judges a grammar by its faults. -/
theorem judges_validate (g : Grammar) : Judges g.validate g.Faulted where
  sound := by
    intro fault h
    unfold validate fault? at h
    cases himports : g.imports with
    | cons i imports =>
      simp only [himports, Except.error.injEq] at h
      exact h ▸ .unassembled himports
    | nil =>
      cases hfind : g.definitions.findSome? g.definitionFault? with
      | none => simp [himports, hfind] at h
      | some found =>
        simp only [himports, hfind, Except.error.injEq] at h
        obtain ⟨d, hd, hfault⟩ := List.exists_of_findSome?_eq_some hfind
        exact h ▸ .node hd (definitionFault?_eq_some hfault)
  complete := by
    intro _ h fault hfault
    obtain ⟨himports, hdefinitions⟩ := validate_eq_ok_iff.mp h
    cases hfault with
    | node hd hnode =>
      obtain ⟨hresolved, hnonempty⟩ := hdefinitions _ hd
      exact not_faulted_of_validate hresolved hnonempty fault hnode
    | unassembled hleft => simp [himports] at hleft

end Grammar

/-! ## The compiler -/

namespace Compiler

variable {α β : Type} {first : Compiler α} {next : α → Compiler β} {F G : GrammarError → Prop}

/-- Whether a step of the compiler judges by `F` where the compiler is. It is not cut off, and it leaves
the counters as they were. -/
def JudgesAt (c : Counters) (step : Compiler α) (F : GrammarError → Prop) : Prop :=
  ∃ r, step c = Run.ofExcept r c ∧ LabeledPeg.Judges r F

/-- Whether a step of the compiler judges by `F`, wherever the compiler is. -/
def Judges (step : Compiler α) (F : GrammarError → Prop) : Prop :=
  ∀ c : Counters, step.JudgesAt c F

section At

variable {c : Counters}

lemma JudgesAt.congr (h : first.JudgesAt c F) (hsame : ∀ fault, F fault ↔ G fault) :
    first.JudgesAt c G := by
  obtain ⟨r, hrun, hr⟩ := h
  exact ⟨r, hrun, hr.congr hsame⟩

/-- Two steps one after the other find the faults of both. -/
lemma JudgesAt.bind (hfirst : first.JudgesAt c F) (hnext : ∀ value, (next value).JudgesAt c G) :
    (first >>= next : Compiler β).JudgesAt c fun fault => F fault ∨ G fault := by
  obtain ⟨r, hrun, hr⟩ := hfirst
  cases r with
  | error fault => exact ⟨.error fault, Run.bind_of_failure hrun, .error (.inl (hr.sound rfl))⟩
  | ok value =>
    obtain ⟨r', hrun', hr'⟩ := hnext value
    refine ⟨r', (Run.bind_of_success hrun).trans hrun', fun h => .inr (hr'.sound h), ?_⟩
    intro _ h fault hfault
    obtain hF | hG := hfault
    · exact hr.complete rfl fault hF
    · exact hr'.complete h fault hG

lemma JudgesAt.map (hfirst : first.JudgesAt c F) (f : α → β) :
    (do return f (← first) : Compiler β).JudgesAt c F := by
  obtain ⟨r, hrun, hr⟩ := hfirst
  cases r with
  | error fault => exact ⟨.error fault, Run.bind_of_failure hrun, .error (hr.sound rfl)⟩
  | ok value => exact ⟨.ok (f value), Run.bind_of_success hrun, .ok (hr.complete rfl)⟩

end At

lemma Judges.congr (h : first.Judges F) (hsame : ∀ fault, F fault ↔ G fault) :
    first.Judges G :=
  fun c => (h c).congr hsame

lemma judges_fail {fault : GrammarError} (h : F fault) :
    Compiler.Judges (Run.fail fault : Compiler α) F :=
  fun _ => ⟨.error fault, rfl, .error h⟩

lemma judges_of_accepts (h : ∀ c, ∃ value, first c = .success value c) :
    first.Judges fun _ => False := by
  intro c
  obtain ⟨value, hvalue⟩ := h c
  exact ⟨.ok value, hvalue, .ok fun _ hfalse => hfalse⟩

lemma judges_pure (value : α) : (pure value : Compiler α).Judges fun _ => False :=
  judges_of_accepts fun _ => ⟨value, rfl⟩

lemma judges_site : site.Judges fun _ => False := judges_of_accepts fun _ => ⟨_, rfl⟩

lemma judges_spaces (items : List Expr) : (spaces items).Judges fun _ => False :=
  judges_of_accepts fun _ => ⟨_, rfl⟩

lemma Judges.bind (hfirst : first.Judges F) (hnext : ∀ value, (next value).Judges G) :
    (first >>= next : Compiler β).Judges fun fault => F fault ∨ G fault :=
  fun c => (hfirst c).bind fun value => hnext value c

lemma Judges.bind_accepts (hfirst : first.Judges F)
    (hnext : ∀ value, (next value).Judges fun _ => False) : (first >>= next).Judges F :=
  (hfirst.bind hnext).congr fun _ => iff_of_eq (or_false _)

lemma Judges.accepts_bind (hfirst : first.Judges fun _ => False)
    (hnext : ∀ value, (next value).Judges G) : (first >>= next).Judges G :=
  (hfirst.bind hnext).congr fun _ => iff_of_eq (false_or _)

lemma Judges.map (hfirst : first.Judges F) (f : α → β) :
    (do return f (← first) : Compiler β).Judges F :=
  fun c => (hfirst c).map f

lemma Judges.nested (hfirst : first.Judges F) : (Compiler.nested first).Judges F := by
  intro c
  obtain ⟨r, hrun, hr⟩ := hfirst { c with closures := c.closures + 1 }
  exact ⟨r, bracket_ofExcept hrun rfl, hr⟩

lemma Judges.withoutSpacing (hfirst : first.Judges F) :
    (Compiler.withoutSpacing first).Judges F := by
  intro c
  obtain ⟨r, hrun, hr⟩ := hfirst { c with lexical := c.lexical + 1 }
  exact ⟨r, bracket_ofExcept hrun rfl, hr⟩

/-- A definition puts the counters back if it stands in nothing else. -/
lemma Judges.inDefinition (hfirst : first.Judges F) (quiet : Bool) :
    (Compiler.inDefinition quiet first).JudgesAt {} F := by
  obtain ⟨r, hrun, hr⟩ := hfirst ⟨1, 0, 0, quiet⟩
  exact ⟨r, bracket_ofExcept hrun rfl, hr⟩

lemma judges_spacingBefore (g : Grammar) (gaps : Bool) :
    (spacingBefore g gaps).Judges fun _ => False := by
  have hspacing : (spacing g).Judges fun _ => False := by
    refine judges_site.accepts_bind fun here => ?_
    split <;> exact judges_pure _
  unfold spacingBefore
  split
  · exact hspacing.map _
  · exact judges_pure _

/-- A rule name is refused if it means nothing. -/
lemma judges_reference (g : Grammar) (name : String) (span : Span) :
    (reference g name span).Judges ((Expr.identifier name span).Faulted g) := by
  refine judges_site.accepts_bind fun here => ?_
  have hmeaningful (h : g.resolves name = true) (code : Code) :
      (pure code : Compiler Code).Judges ((Expr.identifier name span).Faulted g) := by
    refine (judges_pure code).congr fun fault => (false_iff _).mpr ?_
    rw [Expr.faulted_iff]
    rintro (⟨hdefined, hbuiltin⟩ | ⟨_, hchild, -⟩)
    · rw [Grammar.resolves_eq_false_iff.mpr ⟨hdefined, hbuiltin⟩] at h
      cases h
    · cases hchild
  by_cases hdefines : g.defines name = true
  · rw [if_pos hdefines]
    exact hmeaningful (by simp [Grammar.resolves, hdefines]) _
  · rw [if_neg hdefines]
    cases hbuiltin : Builtin.ofName? name with
    | some b =>
      have hname : isBuiltinName name = true := by
        rw [← Bool.not_eq_false, ← Builtin.ofName?_eq_none_iff, hbuiltin]
        simp
      exact hmeaningful (by simp [Grammar.resolves, hname]) _
    | none =>
      have hdefined : name ∉ g.names := fun hmem => hdefines (Grammar.defines_iff.mpr hmem)
      exact judges_fail ⟨_, .self, .unresolved hdefined (Builtin.ofName?_eq_none_iff.mp hbuiltin)⟩

end Compiler

namespace Expr

open Compiler

variable {g : Grammar} {quiet : List String}

section Node

variable {e body : Expr} {α : Type} {step : Compiler α}

/-- A node that is right in itself is judged by the nodes right below it. -/
lemma judges_of_children
    (hstep : step.Judges fun fault => ∃ child ∈ e.children, child.Faulted g fault)
    (hright : ∀ fault, ¬ e.Fault g fault) : step.Judges (e.Faulted g) :=
  hstep.congr fun _ => (faulted_iff_of_right hright).symm

lemma judges_of_leaf (hstep : step.Judges fun _ => False) (hright : ∀ fault, ¬ e.Fault g fault)
    (hchildren : e.children = []) : step.Judges (e.Faulted g) :=
  judges_of_children (hstep.congr (by simp [hchildren])) hright

lemma judges_of_body (hstep : step.Judges (body.Faulted g)) (hright : ∀ fault, ¬ e.Fault g fault)
    (hchildren : e.children = [body]) : step.Judges (e.Faulted g) :=
  judges_of_children (hstep.congr (by simp [hchildren])) hright

end Node

/-- The items of a group are refused for the faults of any of them. -/
lemma judges_compileItems {items : List Expr} (gaps : Bool)
    (h : ∀ e ∈ items, (e.compile g quiet).Judges (e.Faulted g)) :
    (compileItems g quiet gaps items).Judges fun fault => ∃ e ∈ items, e.Faulted g fault := by
  induction items with
  | nil => exact (judges_pure []).congr (by simp)
  | cons item items ih =>
    have hitem := h item List.mem_cons_self
    have hitems := ih fun e he => h e (List.mem_cons_of_mem item he)
    -- the spacing before an item is never refused: it is the spacing rule, or the built-in one
    have hall := (judges_spacingBefore g gaps).accepts_bind fun before =>
      hitem.bind fun code => hitems.map fun after => before ++ code :: after
    exact hall.congr (by simp)

/-- A choice is refused if it has no items, and else for the faults of its items. -/
lemma judges_choice {items : List Expr} (span : Span)
    (h : ∀ e ∈ items, (e.compile g quiet).Judges (e.Faulted g)) :
    ((choice items span).compile g quiet).Judges ((choice items span).Faulted g) := by
  match items with
  | [] =>
    simp only [compile]
    exact judges_fail ⟨_, .self, .emptyChoice⟩
  | [only] =>
    simp only [compile]
    exact judges_of_body (h only List.mem_cons_self) (by rintro _ ⟨⟩) rfl
  | first :: second :: others =>
    simp only [compile]
    exact judges_of_children ((judges_compileItems false h).nested.map Code.choice)
      (by rintro _ ⟨⟩)

lemma faulted_charClass_iff {items : List Expr} {span : Span} {fault : GrammarError} :
    (charClass items span).Faulted g fault ↔ (choice items span).Faulted g fault := by
  have hself : (charClass items span).Fault g fault ↔ (choice items span).Fault g fault := by
    constructor <;> rintro ⟨⟩ <;> constructor
  rw [faulted_iff, faulted_iff, hself]
  rfl

/-- The compiler refuses an expression for a fault of it, and only then. -/
theorem judges_compile {e : Expr} (he : e.isPlain = true) :
    (e.compile g quiet).Judges (e.Faulted g) := by
  induction e using inductionOn with
  | any | literal | range =>
    simp only [compile]
    exact judges_of_leaf (judges_site.map _) (by rintro _ ⟨⟩) rfl
  | identifier name span =>
    simp only [compile]
    exact judges_reference g name span
  | charClass items span ih =>
    rw [compile_charClass]
    exact (judges_choice span fun e hmem => ih e hmem (allPlain_iff.mp he e hmem)).congr fun _ =>
      faulted_charClass_iff.symm
  | choice items span ih =>
    exact judges_choice span fun e hmem => ih e hmem (allPlain_iff.mp he e hmem)
  | optional body span ih =>
    simp only [compile]
    exact judges_of_body (((ih he).map fun code => [code, .empty]).nested.map Code.choice)
      (by rintro _ ⟨⟩) rfl
  | zeroOrMore body span ih | oneOrMore body span ih | andPredicate body span ih
  | notPredicate body span ih =>
    simp only [compile]
    exact judges_of_body ((ih he).nested.map _) (by rintro _ ⟨⟩) rfl
  | lexical body span ih =>
    simp only [compile]
    exact judges_of_body (ih he).withoutSpacing (by rintro _ ⟨⟩) rfl
  | labeled label body span ih =>
    simp only [compile]
    have hattempt := (ih he).bind_accepts fun attempt =>
      judges_site.map fun here => [attempt, Code.throw label here]
    exact judges_of_body (hattempt.nested.map fun codes => Code.labeled (.choice codes))
      (by rintro _ ⟨⟩) rfl
  | sequence items span ih =>
    simp only [compile]
    have hitems := fun gaps =>
      judges_compileItems gaps fun e hmem => ih e hmem (allPlain_iff.mp he e hmem)
    have hsequence := (judges_spaces items).accepts_bind fun gaps =>
      (hitems gaps).nested.map Code.sequence
    exact judges_of_children hsequence (by rintro _ ⟨⟩)
  | definition rule ih => simp [isPlain] at he
  | imported clause => simp [isPlain] at he
  | grammar imports definitions span ih => simp [isPlain] at he

lemma judges_compileDefinitions {definitions : List Definition}
    (h : ∀ d ∈ definitions, d.body.isPlain = true) :
    (compileDefinitions g quiet definitions).JudgesAt {} fun fault =>
      ∃ d ∈ definitions, d.body.Faulted g fault := by
  induction definitions with
  | nil => exact (judges_pure [] {}).congr (by simp)
  | cons d definitions ih =>
    have hbody : (d.body.compile g quiet).Judges (d.body.Faulted g) :=
      judges_compile (h d List.mem_cons_self)
    have hrest := ih fun d' hd => h d' (List.mem_cons_of_mem d hd)
    have hall := (hbody.inDefinition (quiet.contains d.name)).bind fun code =>
      hrest.map fun procedures => (⟨d.name, code⟩ : Procedure Code) :: procedures
    exact hall.congr (by simp)

end Expr

/-! ## Generated parsers -/

namespace Grammar

variable {g : Grammar}

/-- The compiler judges a grammar of expressions by its faults, and leaves its counters as they
were. -/
theorem judges_compiler (hplain : g.isPlain = true) : g.compiler.JudgesAt {} g.Faulted := by
  have hbodies : ∀ d ∈ g.definitions, d.body.isPlain = true := List.all_eq_true.mp hplain
  unfold compiler
  cases himports : g.imports with
  | cons i imports => exact Compiler.judges_fail (.unassembled himports) {}
  | nil =>
    have hdefinitions : (Expr.compileDefinitions g g.quietRules g.definitions).JudgesAt {}
        fun fault => ∃ d ∈ g.definitions, d.body.Faulted g fault :=
      Expr.judges_compileDefinitions hbodies
    refine (hdefinitions.map Program.mk).congr fun fault => ?_
    constructor
    · rintro ⟨d, hd, hfault⟩
      exact .node hd hfault
    · rintro (⟨hd, hfault⟩ | hleft)
      · exact ⟨_, hd, hfault⟩
      · simp [himports] at hleft

theorem judges_compile (hplain : g.isPlain = true) :
    Judges g.compile (CompileError.IsRefusal g.Faulted) := by
  obtain ⟨r, hrun, hr⟩ := judges_compiler hplain
  unfold compile
  rw [hrun]
  cases r with
  | error fault => exact .error ⟨fault, rfl, hr.sound rfl⟩
  | ok p =>
    refine .ok ?_
    rintro _ ⟨fault, -, hfault⟩
    exact hr.complete rfl fault hfault

lemma not_isRefusal_iff : (∀ e : CompileError, ¬ e.IsRefusal g.Faulted) ↔
    ∀ fault, ¬ g.Faulted fault := by
  constructor
  · intro h fault hfault
    exact h _ ⟨fault, rfl, hfault⟩
  · rintro h _ ⟨fault, -, hfault⟩
    exact h fault hfault

lemma validate_of_compile {p : Program} (hplain : g.isPlain = true) (h : g.compile = .ok p) :
    g.validate = .ok () := by
  have hnone := not_isRefusal_iff.mp ((judges_compile hplain).complete h)
  obtain ⟨_, hvalid⟩ := (judges_validate g).exists_ok_iff.mpr hnone
  exact hvalid

end Grammar

end LabeledPeg
