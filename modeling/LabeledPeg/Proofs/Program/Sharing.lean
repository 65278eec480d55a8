import LabeledPeg.Proofs.Grammar.Reachability
import LabeledPeg.Proofs.Program.Calls
import LabeledPeg.Proofs.Semantics.Phrase

/-!
# Rules that two grammars share

Two grammars share a name if neither defines it or both define it with one body, spans apart. The
names that a shared body refers to mean the same in both grammars if they are shared as well; what
remains is implicit spacing, which depends on the spacing rule and on the rules that it reaches. If
these are shared, so is everything that the parsers of the two grammars do on shared rules.
-/

namespace LabeledPeg

open Parse

namespace Expr

variable {g g' : Grammar}

lemma allSyntactic_allUnspanned (items : List Expr) :
    allSyntactic (allUnspanned items) = allSyntactic items := by
  rw [allUnspanned_eq_map, allSyntactic_eq_all, allSyntactic_eq_all, List.all_map]
  congr 1
  funext e
  exact isSyntactic_unspanned e

/-- Spans make no difference to the code of an expression. -/
theorem code_unspanned (e : Expr) (spaced : Bool) (here : CallSite) :
    e.unspanned.code g spaced here = e.code g spaced here := by
  have hitems : ∀ (items : List Expr) (spaced : Bool),
      (∀ e ∈ items, ∀ spaced here, e.unspanned.code g spaced here = e.code g spaced here) →
      codes g spaced (allUnspanned items) = codes g spaced items := by
    intro items spaced ih
    rw [allUnspanned_eq_map, codes_eq_map, codes_eq_map, List.map_map]
    exact List.map_congr_left fun e he => ih e he spaced .nested
  have hchoice : ∀ (items : List Expr) (span : Span) (spaced : Bool) (here : CallSite),
      (∀ e ∈ items, ∀ spaced here, e.unspanned.code g spaced here = e.code g spaced here) →
      (choice (allUnspanned items) {}).code g spaced here = (choice items span).code g spaced here := by
    intro items span spaced here ih
    match items with
    | [] => simp only [allUnspanned, code]
    | [only] =>
      simp only [allUnspanned, code]
      exact ih only (by simp) spaced here
    | first :: second :: others =>
      have h := hitems (first :: second :: others) spaced ih
      simp only [allUnspanned] at h
      simp only [allUnspanned, code, h]
  induction e using inductionOn generalizing spaced here with
  | charClass members span ih =>
    rw [unspanned, code_charClass, code_charClass]
    exact hchoice members span spaced here ih
  | choice alternatives span ih =>
    rw [unspanned]
    exact hchoice alternatives span spaced here ih
  | sequence items span ih =>
    simp only [unspanned, code, hitems items spaced ih, allSyntactic_allUnspanned]
  | definition rule ih =>
    obtain ⟨name, body, span⟩ := rule
    simp only [unspanned, code]
  | imported clause =>
    obtain ⟨path, names, span⟩ := clause
    simp only [unspanned, code]
  | _ => simp_all only [unspanned, code]

lemma nameCode_congr {name : String} (h : g.defines name = g'.defines name) (here : CallSite) :
    g.nameCode name here = g'.nameCode name here := by
  unfold Grammar.nameCode
  rw [h]

/-- Grammars that define the same of the names in an expression, and of the spacing rule, give it
the same code. -/
theorem code_congr {e : Expr} (hspacing : g.defines spacingName = g'.defines spacingName)
    (h : ∀ r ∈ e.references, g.defines r.name = g'.defines r.name) (spaced : Bool)
    (here : CallSite) : e.code g spaced here = e.code g' spaced here := by
  have hitems : ∀ {items : List Expr} (spaced : Bool),
      (∀ e ∈ items, (∀ r ∈ e.references, g.defines r.name = g'.defines r.name) →
        ∀ spaced here, e.code g spaced here = e.code g' spaced here) →
      (∀ r ∈ itemReferences items, g.defines r.name = g'.defines r.name) →
      codes g spaced items = codes g' spaced items := by
    intro items spaced ih h
    rw [codes_eq_map, codes_eq_map]
    refine List.map_congr_left fun e he => ih e he (fun r hr => h r ?_) spaced .nested
    rw [itemReferences_eq_flatMap]
    exact List.mem_flatMap.mpr ⟨e, he, hr⟩
  have hchoice : ∀ (items : List Expr) (span : Span) (spaced : Bool) (here : CallSite),
      (∀ e ∈ items, (∀ r ∈ e.references, g.defines r.name = g'.defines r.name) →
        ∀ spaced here, e.code g spaced here = e.code g' spaced here) →
      (∀ r ∈ itemReferences items, g.defines r.name = g'.defines r.name) →
      (choice items span).code g spaced here = (choice items span).code g' spaced here := by
    intro items span spaced here ih h
    match items with
    | [] => simp only [code, codes]
    | [only] =>
      simp only [code]
      exact ih only (by simp) (fun r hr => h r (by simp [itemReferences, hr])) spaced here
    | first :: second :: others => simp only [code, hitems spaced ih h]
  induction e using inductionOn generalizing spaced here with
  | identifier name span =>
    simp only [code]
    exact nameCode_congr (h ⟨name, span⟩ (by simp [references])) here
  | charClass members span ih =>
    rw [code_charClass, code_charClass]
    exact hchoice members span spaced here ih h
  | choice alternatives span ih => exact hchoice alternatives span spaced here ih h
  | sequence items span ih =>
    have hgap := nameCode_congr hspacing .nested
    simp only [code, Grammar.stepCodes, hitems spaced ih h, hgap]
  | optional body span ih | zeroOrMore body span ih | oneOrMore body span ih
  | andPredicate body span ih | notPredicate body span ih | lexical body span ih
  | labeled label body span ih => simp only [code, ih h]
  | any | literal | range | definition | imported | grammar => simp only [code]

end Expr

namespace Grammar

/-- Whether two grammars share a name: neither defines it, or both with one body, spans apart. -/
def Shares (g g' : Grammar) (name : String) : Prop :=
  (g.definition? name).map (·.body.unspanned) = (g'.definition? name).map (·.body.unspanned)

variable {g g' : Grammar} {name : String}

lemma Shares.symm (h : g.Shares g' name) : g'.Shares g name := Eq.symm h

lemma Shares.defines_eq (h : g.Shares g' name) : g.defines name = g'.defines name := by
  have hsome := congrArg Option.isSome h
  simpa only [Option.isSome_map, defines] using hsome

lemma Shares.mem_names_iff (h : g.Shares g' name) : name ∈ g.names ↔ name ∈ g'.names := by
  rw [← defines_iff, ← defines_iff, h.defines_eq]

lemma Shares.exists_definition (h : g.Shares g' name) {d : Definition} (hd : d ∈ g.definitions)
    (hname : d.name = name) :
    ∃ d' ∈ g'.definitions, d'.name = name ∧ d'.body.unspanned = d.body.unspanned := by
  have hdefinition : g.definition? name = some d := definition?_eq_some_iff.mpr ⟨hd, hname⟩
  have hsome : (g'.definition? name).map (·.body.unspanned) = some d.body.unspanned := by
    rw [← h, hdefinition]
    rfl
  obtain ⟨d', hd', hbody⟩ := Option.map_eq_some_iff.mp hsome
  obtain ⟨hmem, hname'⟩ := definition?_eq_some_iff.mp hd'
  exact ⟨d', hmem, hname', hbody⟩

lemma exists_reference_of_unspanned_eq {e e' : Expr} (h : e.unspanned = e'.unspanned)
    {r : Reference} (hr : r ∈ e.references) : ∃ r' ∈ e'.references, r'.name = r.name := by
  have hnames : e'.references.map Reference.name = e.references.map Reference.name := by
    rw [← Expr.references_unspanned, ← h, Expr.references_unspanned]
  have hmem : r.name ∈ e'.references.map Reference.name := by
    rw [hnames]
    exact List.mem_map_of_mem hr
  exact List.mem_map.mp hmem

lemma Reaches.of_shares {roots : List String} (hroots : ∀ name ∈ roots, g.Shares g' name)
    (hshares : ∀ name, g.Reaches roots name → g.Shares g' name) (h : g.Reaches roots name) :
    g'.Reaches roots name := by
  induction h with
  | root hroot hdefined => exact .root hroot ((hroots _ hroot).mem_names_iff.mp hdefined)
  | @step d r hreaches hd hr hdefined ih =>
    -- the other body refers to the same name, at another place perhaps
    obtain ⟨d', hd', hname, hbody⟩ := (hshares _ hreaches).exists_definition hd rfl
    obtain ⟨r', hr', hrname⟩ := exists_reference_of_unspanned_eq hbody.symm hr
    have hreached := hshares _ (.step hreaches hd hr hdefined)
    rw [← hrname]
    refine .step (hname ▸ ih) hd' hr' ?_
    rw [hrname]
    exact hreached.mem_names_iff.mp hdefined

/-- A set of names that two grammars share: with a defined name, what its body refers to, and all
that the spacing rule reaches. -/
structure SharedBy (g g' : Grammar) (P : String → Prop) : Prop where
  shares : ∀ name, P name → g.Shares g' name
  spacing : g.Shares g' spacingName
  reached : ∀ name, g.Reaches [spacingName] name → P name
  references : ∀ d ∈ g.definitions, P d.name → ∀ r ∈ d.body.references,
    g.Shares g' r.name ∧ (r.name ∈ g.names → P r.name)

namespace SharedBy

variable {P : String → Prop}

lemma reaches_iff (h : g.SharedBy g' P) :
    g.Reaches [spacingName] name ↔ g'.Reaches [spacingName] name := by
  have hroots : ∀ name ∈ [spacingName], g.Shares g' name := by
    intro name hname
    rw [List.mem_singleton.mp hname]
    exact h.spacing
  constructor
  · exact .of_shares hroots fun name hname => h.shares name (h.reached name hname)
  · intro hreaches
    induction hreaches with
    | root hroot hdefined => exact .root hroot ((hroots _ hroot).mem_names_iff.mpr hdefined)
    | @step d' r' _ hd' hr' hdefined ih =>
      -- the rule that leads on is shared, so it refers to the same name in the first grammar
      have hP := h.reached _ ih
      obtain ⟨d, hd, hname, hbody⟩ := (h.shares _ hP).symm.exists_definition hd' rfl
      obtain ⟨r, hr, hrname⟩ := exists_reference_of_unspanned_eq hbody.symm hr'
      have hr'shares := (h.references d hd (hname ▸ hP) r hr).1
      rw [← hrname] at hdefined ⊢
      exact .step (hname ▸ ih) hd hr (hr'shares.mem_names_iff.mpr hdefined)

lemma contains_quietRules (h : g.SharedBy g' P) (name : String) :
    g.quietRules.contains name = g'.quietRules.contains name := by
  rw [Bool.eq_iff_iff, List.contains_iff_mem, List.contains_iff_mem, quietRules, quietRules,
    mem_reachable_iff, mem_reachable_iff]
  exact h.reaches_iff

lemma body?_program (h : g.SharedBy g' P) (hname : P name) :
    g.program.body? name = g'.program.body? name := by
  rw [Grammar.body?_program, Grammar.body?_program]
  cases hd : g.definition? name with
  | none =>
    have hnone := h.shares name hname
    rw [Shares, hd] at hnone
    rw [Option.map_eq_none_iff.mp hnone.symm]
    rfl
  | some d =>
    obtain ⟨hmem, rfl⟩ := definition?_eq_some_iff.mp hd
    obtain ⟨d', hmem', hname', hbody⟩ := (h.shares d.name hname).exists_definition hmem rfl
    -- the two bodies may differ in their spans, of which the code knows nothing
    have hcode : ∀ spaced, d.body.code g spaced .rule = d'.body.code g' spaced .rule := by
      intro spaced
      rw [← Expr.code_unspanned d'.body, hbody, Expr.code_unspanned]
      exact Expr.code_congr h.spacing.defines_eq
        (fun r hr => (h.references d hmem hname r hr).1.defines_eq) spaced .rule
    rw [definition?_eq_some_iff.mpr ⟨hmem', hname'⟩]
    simp only [Option.map_some, hcode, hname', h.contains_quietRules]

end SharedBy

end Grammar

end LabeledPeg
