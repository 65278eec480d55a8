import LabeledPeg.Proofs.Grammar.Closing
import LabeledPeg.Proofs.Grammar.Equality

/-!
# Assembly succeeds exactly when it should

A closed set becomes a grammar if it leaves no name open and no choice empty. Assembly from a library
of grammars that were read always ends, with a grammar exactly if the root can be assembled, and the
grammar then says what the closed set of the root says.
-/

namespace LabeledPeg

section Finishing

variable {P : Definition → Prop} {closed merged : List Sourced} {w w' : Walk} {root g : Grammar}

lemma mergeImports_append {closedAt : String → Run GrammarError Walk (List Sourced)}
    {imports : List Import} (h : mergeImports closedAt merged imports w = .success closed w') :
    ∃ added, closed = merged ++ added := by
  induction imports generalizing merged w with
  | nil =>
    obtain ⟨rfl, rfl⟩ := Outcome.success.inj h
    exact ⟨[], (List.append_nil _).symm⟩
  | cons i imports ih =>
    obtain ⟨behind, w₁, taken, next, -, -, hnext, hrest⟩ := mergeImports_cons_eq_success.mp h
    obtain ⟨added, rfl, -⟩ := mergeDefinitions_eq_ok hnext
    obtain ⟨added', rfl⟩ := ih hrest
    exact ⟨added ++ added', List.append_assoc _ _ _⟩

lemma closeGrammar_append {resolve : Resolver} {depth : Nat} {inProgress : List String}
    {origin : String} (h : closeGrammar resolve depth inProgress origin g w = .success closed w') :
    ∃ added, closed = g.definitions.map (⟨·, origin⟩) ++ added := by
  cases depth with
  | zero => cases h
  | succ depth =>
    obtain ⟨own, hown, hmerge⟩ := closeGrammar_succ_eq_success.mp h
    obtain rfl := Except.ok.inj ((mergeDefinitions_own g origin).symm.trans hown)
    exact mergeImports_append hmerge

/-- Whether every name in a set of definitions is defined in it or built in, and no choice is
empty. -/
def Complete (P : Definition → Prop) : Prop :=
  ∀ d, P d → (∀ r ∈ d.body.references,
    (∃ d', P d' ∧ d'.name = r.name) ∨ isBuiltinName r.name = true) ∧ d.body.emptyChoices = []

lemma Represents.complete_iff (h : Represents P closed) (hnormal : ∀ d, P d → d.body.IsNormal)
    (hdefinitions : g.definitions = closed.map (·.definition)) (himports : g.imports = []) :
    g.validate = .ok () ↔ Complete P := by
  have hresolves : ∀ name, g.resolves name = true ↔
      (∃ d, P d ∧ d.name = name) ∨ isBuiltinName name = true := by
    intro name
    rw [Grammar.resolves, Bool.or_eq_true, h.defines_iff hdefinitions]
  rw [Grammar.validate_eq_ok_iff]
  constructor
  · rintro ⟨-, hvalid⟩ d hd
    obtain ⟨s, hs, hsame⟩ := h.complete d hd
    have hmem : s.definition ∈ g.definitions := by
      rw [hdefinitions]
      exact List.mem_map_of_mem hs
    obtain ⟨hreferences, hempty⟩ := hvalid s.definition hmem
    have hbody := hnormal _ (h.sound s hs)
    refine ⟨fun r hr => ?_, ?_⟩
    · obtain ⟨r', hr', hname⟩ := exists_reference_of_same (hnormal d hd) hbody hsame hr
      rw [← hname]
      exact (hresolves r'.name).mp (hreferences r' hr')
    · rw [← Expr.emptyChoices_unspanned, ← hbody.unspanned_eq (hnormal d hd) hsame.2,
        Expr.emptyChoices_unspanned]
      exact hempty
  · intro hcomplete
    refine ⟨himports, fun d hd => ?_⟩
    rw [hdefinitions] at hd
    obtain ⟨s, hs, rfl⟩ := List.mem_map.mp hd
    obtain ⟨hreferences, hempty⟩ := hcomplete _ (h.sound s hs)
    exact ⟨fun r hr => (hresolves r.name).mpr (hreferences r hr), hempty⟩

lemma Represents.exists_finish (h : Represents P closed) (hnormal : ∀ d, P d → d.body.IsNormal)
    (hcomplete : Complete P) (root : Grammar) : ∃ g, finishAssembly root closed = .ok g := by
  have hdistinct : ((closed.map (·.definition)).map Rule.name).Nodup := by
    rw [List.map_map]
    exact h.distinct
  obtain ⟨g, hbuild, himports, hdefinitions⟩ := Grammar.exists_build [] root.span hdistinct
  have hvalid := (h.complete_iff hnormal hdefinitions himports).mpr hcomplete
  refine ⟨g, ?_⟩
  rw [finishAssembly, hbuild]
  simp only [bind, Except.bind, hvalid, pure, Except.pure]

end Finishing

namespace Library

variable {library : Library} {rootPath? : Option String} {root g : Grammar} {path : String}

lemma sources_root (h : rootPath? = some path) :
    library.sources rootPath? root path = some root := if_pos h

lemma sources_of_ne (h : rootPath? ≠ some path) :
    library.sources rootPath? root path = library.lookup path := if_neg h

/-- A root that is reached from its own imports lies on a cycle. -/
lemma cyclic_of_reached (h : rootPath? = some path)
    (hreached : (library.sources rootPath? root).Reached root path) :
    (library.sources rootPath? root).Cyclic path := by
  obtain ⟨i, hi, hleads⟩ := hreached
  exact Relation.TransGen.head' ⟨root, sources_root h, i, hi, rfl⟩ hleads

lemma finds_sources : library.resolve.Finds (library.sources rootPath? root) rootPath?.toList := by
  intro path hpath g
  have hne : rootPath? ≠ some path := by
    rintro rfl
    simp at hpath
  rw [resolve_eq_ok_iff, sources_of_ne hne]

lemma sources_holds {P : Definition → Prop} (hlibrary : ∀ entry ∈ library, ∀ d ∈ entry.2.definitions, P d)
    (hroot : ∀ d ∈ root.definitions, P d) {path : String}
    (h : library.sources rootPath? root path = some g) : ∀ d ∈ g.definitions, P d := by
  by_cases hpath : rootPath? = some path
  · rw [sources_root hpath] at h
    obtain rfl := Option.some.inj h
    exact hroot
  · rw [sources_of_ne hpath] at h
    obtain ⟨before, after, heq, -⟩ := List.lookup_eq_some_iff.mp h
    exact hlibrary (path, g) (by simp [heq])

lemma assemble_eq_ok_iff : library.assemble rootPath? root = some (.ok g) ↔
    ∃ w closed, closeGrammar library.resolve (library.length + 1) rootPath?.toList
        (rootPath?.getD rootOrigin) root {} = .success closed w ∧
      finishAssembly root closed = .ok g := by
  rw [assemble, Outcome.result?_eq_ok_iff]
  simp only [Resolver.assemble_eq_success_iff]

lemma finishes_assemble {depth : Nat} (hdepth : library.length < depth) :
    (library.resolve.assemble depth rootPath? root).Finishes := by
  have hremaining : (library.remaining rootPath?.toList).length < depth := by
    have hle := List.length_filter_le (fun entry => !rootPath?.toList.contains entry.1) library
    unfold remaining
    omega
  exact (finishes_closeGrammar hremaining).bind fun closed => Run.finishes_ofExcept

/-- Assembly from a library always ends, with a grammar or with an error. -/
lemma exists_assemble (library : Library) (rootPath? : Option String) (root : Grammar) :
    ∃ result, library.assemble rootPath? root = some result := by
  have hfinishes : (library.resolve.assemble (library.length + 1) rootPath? root).Finishes :=
    finishes_assemble (Nat.lt_succ_self _)
  unfold assemble
  cases hrun : library.resolve.assemble (library.length + 1) rootPath? root {} with
  | success g w => exact ⟨.ok g, rfl⟩
  | failure e w => exact ⟨.error e, rfl⟩
  | unfinished => exact absurd hrun (hfinishes {})

section Read

variable (hlibrary : ∀ entry ∈ library, entry.2.IsRead) (hroot : root.IsRead)
include hlibrary hroot

lemma sources_normal : (library.sources rootPath? root).Normal :=
  fun _ _ h => sources_holds (fun entry hentry => (hlibrary entry hentry).isNormal)
    hroot.isNormal h

lemma closed_isNormal {d : Definition} (h : (library.sources rootPath? root).Closed root d) :
    d.body.IsNormal :=
  h.holds (sources_normal hlibrary hroot) hroot.isNormal

/-- What a grammar that comes out of assembly is made of. -/
lemma closes_of_assemble (h : library.assemble rootPath? root = some (.ok g)) :
    ∃ w closed, (library.sources rootPath? root).Closes root closed w ∧
      (∃ added, closed = root.definitions.map (⟨·, rootPath?.getD rootOrigin⟩) ++ added) ∧
      g.imports = [] ∧ g.definitions = closed.map (·.definition) ∧ g.validate = .ok () := by
  obtain ⟨w, closed, hclosed, hfinish⟩ := assemble_eq_ok_iff.mp h
  have hstart : ({} : Walk).Sound (library.sources rootPath? root) := List.forall_mem_nil _
  exact ⟨w, closed, closeGrammar_sound (sources_normal hlibrary hroot) finds_sources hstart hclosed,
    closeGrammar_append hclosed, finishAssembly_eq_ok hfinish⟩

lemma assembles_of_assemble (h : library.assemble rootPath? root = some (.ok g)) :
    library.Assembles rootPath? root := by
  obtain ⟨w, closed, hcloses, -, himports, hdefinitions, hvalid⟩ :=
    closes_of_assemble hlibrary hroot h
  have hreached : ∀ path, (library.sources rootPath? root).Reached root path →
      (∃ g, library.sources rootPath? root path = some g ∧
        (library.sources rootPath? root).Consistent g) ∧
        ¬ (library.sources rootPath? root).Cyclic path := by
    rintro path ⟨i, hi, hleads⟩
    exact hcloses.closable i hi path hleads
  have hcomplete : Complete ((library.sources rootPath? root).Closed root) :=
    (hcloses.represents.complete_iff (fun d hd => closed_isNormal hlibrary hroot hd)
      hdefinitions himports).mp hvalid
  refine ⟨fun path hpath => ?_, fun path hpath => (hreached path hpath).2,
    fun path g hpath hg => ?_, hcloses.consistent, fun d hd => (hcomplete d hd).1,
    fun d hd => (hcomplete d hd).2⟩
  · obtain ⟨⟨g, hg, -⟩, hacyclic⟩ := hreached path hpath
    have hne : rootPath? ≠ some path := fun heq => hacyclic (cyclic_of_reached heq hpath)
    rw [sources_of_ne hne] at hg
    exact ⟨g, hg⟩
  · obtain ⟨⟨g', hg', hconsistent⟩, -⟩ := hreached path hpath
    rw [hg] at hg'
    obtain rfl : g = g' := Option.some.inj hg'
    exact hconsistent

lemma exists_assemble_of_assembles (h : library.Assembles rootPath? root) :
    ∃ g, library.assemble rootPath? root = some (.ok g) := by
  have hne : ∀ path, (library.sources rootPath? root).Reached root path → rootPath? ≠ some path :=
    fun path hpath heq => h.acyclic path hpath (cyclic_of_reached heq hpath)
  have hclosable : ∀ i ∈ root.imports, (library.sources rootPath? root).Closable i.path := by
    intro i hi path hleads
    have hpath : (library.sources rootPath? root).Reached root path := ⟨i, hi, hleads⟩
    obtain ⟨g, hg⟩ := h.found path hpath
    rw [← sources_of_ne (hne path hpath)] at hg
    exact ⟨⟨g, hg, h.consistent path g hpath hg⟩, h.acyclic path hpath⟩
  have hfresh : ∀ i ∈ root.imports, ∀ path, (library.sources rootPath? root).Leads i.path path →
      path ∉ rootPath?.toList := by
    intro i hi path hleads hmem
    exact hne path ⟨i, hi, hleads⟩ (Option.mem_toList.mp hmem)
  have hnormal : (library.sources rootPath? root).Normal := sources_normal hlibrary hroot
  have hstart : ({} : Walk).Sound (library.sources rootPath? root) := List.forall_mem_nil _
  obtain ⟨result, hresult⟩ := exists_assemble library rootPath? root
  have hcomplete : Complete ((library.sources rootPath? root).Closed root) :=
    fun d hd => ⟨h.resolved d hd, h.filled d hd⟩
  cases hclose : closeGrammar library.resolve (library.length + 1) rootPath?.toList
      (rootPath?.getD rootOrigin) root {} with
  | success closed w =>
    have hcloses := closeGrammar_sound hnormal finds_sources hstart hclose
    obtain ⟨g, hg⟩ := hcloses.represents.exists_finish
      (fun d hd => closed_isNormal hlibrary hroot hd) hcomplete root
    exact ⟨g, assemble_eq_ok_iff.mpr ⟨w, closed, hclose, hg⟩⟩
  | failure e w =>
    exact absurd hclose
      (closeGrammar_ne_failure hnormal finds_sources hclosable h.root_consistent hfresh hstart)
  | unfinished =>
    rw [assemble, Resolver.assemble, Run.bind_apply, hclose] at hresult
    cases hresult

end Read

end Library

/-- Assembly from a library of grammars that were read ends with a grammar exactly if the root can be
assembled from it, and the grammar then says what the closed set of the root says, the definitions of
the root first. -/
theorem Library.assemble_eq_ok (library : Library) (rootPath? : Option String) (root : Grammar)
    (hlibrary : ∀ entry ∈ library, entry.2.IsRead) (hroot : root.IsRead) :
    (∃ result, library.assemble rootPath? root = some result) ∧
    ((∃ g, library.assemble rootPath? root = some (.ok g)) ↔ library.Assembles rootPath? root) ∧
    ∀ g, library.assemble rootPath? root = some (.ok g) →
      g.imports = [] ∧ g.names.Nodup ∧ (∃ added, g.definitions = root.definitions ++ added) ∧
      (∀ d ∈ g.definitions, (library.sources rootPath? root).Closed root d) ∧
      ∀ d, (library.sources rootPath? root).Closed root d → ∃ d', g.definition? d.name = some d' ∧
        d'.body.unspanned = d.body.unspanned := by
  refine ⟨exists_assemble library rootPath? root, ⟨?_, ?_⟩, fun g hg => ?_⟩
  · rintro ⟨g, hg⟩
    exact assembles_of_assemble hlibrary hroot hg
  · exact exists_assemble_of_assembles hlibrary hroot
  · obtain ⟨w, closed, hcloses, ⟨added, rfl⟩, himports, hdefinitions, -⟩ :=
      closes_of_assemble hlibrary hroot hg
    refine ⟨himports, g.distinct, ⟨added.map (·.definition), ?_⟩, fun d hd => ?_, fun d hd => ?_⟩
    · rw [hdefinitions, List.map_append, List.map_map]
      exact congrArg (· ++ _) (List.map_id _)
    · rw [hdefinitions] at hd
      obtain ⟨s, hs, rfl⟩ := List.mem_map.mp hd
      exact hcloses.represents.sound s hs
    · obtain ⟨s, hs, hsame⟩ := hcloses.represents.complete d hd
      have hmem : s.definition ∈ g.definitions := by
        rw [hdefinitions]
        exact List.mem_map_of_mem hs
      refine ⟨s.definition, Grammar.definition?_eq_some_iff.mpr ⟨hmem, hsame.1⟩, ?_⟩
      exact (closed_isNormal hlibrary hroot (hcloses.represents.sound s hs)).unspanned_eq
        (closed_isNormal hlibrary hroot hd) hsame.2

/-- `Digit <- [0-9]` and `Sign <- '-'`, a line each. -/
def digits : Grammar :=
  ⟨[], [⟨"Digit", .charClass [.range '0' '9' ⟨10, 13⟩] ⟨9, 14⟩, ⟨0, 15⟩⟩,
    ⟨"Sign", .literal "-" ⟨23, 26⟩, ⟨15, 26⟩⟩], ⟨0, 26⟩, by decide⟩

/-- A text that is read as `digits`. -/
def digitsText : {text : String // Grammar.read text = .ok digits} :=
  ⟨"Digit <- [0-9]\nSign <- '-'", by decide +kernel⟩

/-- `import Digit from "digits"` and `Number <- Digit+`, a line each. -/
def number : Grammar :=
  ⟨[⟨"digits", ["Digit"], ⟨0, 26⟩⟩],
    [⟨"Number", .oneOrMore (.identifier "Digit" ⟨37, 42⟩) ⟨37, 43⟩, ⟨27, 43⟩⟩], ⟨0, 43⟩, by decide⟩

/-- A text that is read as `number`. -/
def numberText : {text : String // Grammar.read text = .ok number} :=
  ⟨"import Digit from \"digits\"\nNumber <- Digit+", by decide +kernel⟩

/-- `Number` and the one definition that it needs. -/
def assembledNumber : Grammar :=
  ⟨[], [⟨"Number", .oneOrMore (.identifier "Digit" ⟨37, 42⟩) ⟨37, 43⟩, ⟨27, 43⟩⟩,
    ⟨"Digit", .charClass [.range '0' '9' ⟨10, 13⟩] ⟨9, 14⟩, ⟨0, 15⟩⟩], ⟨0, 43⟩, by decide⟩

theorem assemble_number : (∀ entry ∈ [("digits", digits)], entry.2.IsRead) ∧ number.IsRead ∧
    Library.assemble [("digits", digits)] (some "number") number = some (.ok assembledNumber) ∧
    Library.Assembles [("digits", digits)] (some "number") number ∧
    ∀ d ∈ assembledNumber.definitions,
      (Library.sources [("digits", digits)] (some "number") number).Closed number d := by
  have hdigits : digits.IsRead := ⟨_, digitsText.2⟩
  have hnumber : number.IsRead := ⟨_, numberText.2⟩
  have hlibrary : ∀ entry ∈ [("digits", digits)], entry.2.IsRead :=
    List.forall_mem_cons.mpr ⟨hdigits, List.forall_mem_nil _⟩
  have hassemble : Library.assemble [("digits", digits)] (some "number") number =
      some (.ok assembledNumber) := by rfl
  obtain ⟨-, hiff, hmade⟩ :=
    Library.assemble_eq_ok [("digits", digits)] (some "number") number hlibrary hnumber
  exact ⟨hlibrary, hnumber, hassemble, hiff.mp ⟨_, hassemble⟩, (hmade _ hassemble).2.2.2.1⟩

end LabeledPeg
