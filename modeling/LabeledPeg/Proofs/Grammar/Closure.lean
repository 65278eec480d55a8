import LabeledPeg.Grammar.Assembly
import LabeledPeg.Proofs.Grammar.Expression
import LabeledPeg.Proofs.Outcome
import Mathlib.Data.List.Basic

/-!
# Closing grammars

How the steps of assembly succeed, and where the definitions of a closed grammar come from: from the
root and from grammars that the resolver found, whatever was closed before.
-/

namespace LabeledPeg

section Merging

variable {merged merged' taken closed : List Sourced} {s : Sourced}

lemma mergeDefinition_eq_ok (h : mergeDefinition merged s = .ok merged') :
    merged' = merged ∨ merged' = merged ++ [s] := by
  unfold mergeDefinition at h
  split at h
  · exact .inr (by simpa using h.symm)
  · split at h
    · exact .inl (by simpa using h.symm)
    · split at h <;> cases h

lemma mergeDefinitions_cons_eq_ok_iff {sources : List Sourced} :
    mergeDefinitions merged (s :: sources) = .ok merged' ↔
      ∃ next, mergeDefinition merged s = .ok next ∧ mergeDefinitions next sources = .ok merged' := by
  rw [mergeDefinitions]
  cases h : mergeDefinition merged s <;> simp [bind, Except.bind]

/-- Merging adds nothing but what is merged, behind what was there. -/
lemma mergeDefinitions_eq_ok {sources : List Sourced}
    (h : mergeDefinitions merged sources = .ok merged') :
    ∃ added, merged' = merged ++ added ∧ added.Sublist sources := by
  induction sources generalizing merged with
  | nil => exact ⟨[], by simpa [mergeDefinitions] using h.symm, .slnil⟩
  | cons s sources ih =>
    obtain ⟨next, hnext, hrest⟩ := mergeDefinitions_cons_eq_ok_iff.mp h
    obtain ⟨added, hadded, hsub⟩ := ih hrest
    rcases mergeDefinition_eq_ok hnext with rfl | rfl
    · exact ⟨added, hadded, hsub.cons s⟩
    · exact ⟨s :: added, by simpa using hadded, hsub.cons_cons s⟩

lemma select_sublist {i : Import} (h : i.select closed = .ok taken) : taken.Sublist closed := by
  unfold Import.select at h
  split at h
  · exact (Except.ok.inj h) ▸ .refl closed
  · cases hview : Grammar.build [] (closed.map (·.definition)) i.span with
    | error e => simp [hview, bind, Except.bind] at h
    | ok view =>
      simp only [hview, bind, Except.bind] at h
      split at h
      · cases h
      · exact (Except.ok.inj h) ▸ List.filter_sublist

end Merging

lemma Walk.mem_of_closed?_eq_some {w : Walk} {path : String} {closed : List Sourced}
    (h : w.closed? path = some closed) : (path, closed) ∈ w.cache := by
  obtain ⟨before, after, hcache, -⟩ := List.lookup_eq_some_iff.mp h
  simp [hcache]

/-- Whether every definition that a walk remembers has a property. -/
def Walk.Holds (P : Definition → Prop) (w : Walk) : Prop :=
  ∀ entry ∈ w.cache, ∀ s ∈ entry.2, P s.definition

section Closing

variable {resolve : Resolver} {w w' : Walk} {closed : List Sourced}

/-- What is behind a path was closed before, or is found and closed now. -/
lemma closedBehind_eq_success
    {close : List String → String → Grammar → Run GrammarError Walk (List Sourced)}
    {inProgress : List String} {path : String}
    (h : closedBehind resolve close inProgress path w = .success closed w') :
    path ∉ inProgress ∧ (w.closed? path = some closed ∧ w' = w ∨
      w.closed? path = none ∧ ∃ g w₁, resolve path = .ok g ∧
        close (inProgress ++ [path]) path g (w.visit (inProgress ++ [path])) = .success closed w₁ ∧
        w' = w₁.remember path closed) := by
  unfold closedBehind at h
  by_cases hpath : inProgress.contains path
  · rw [if_pos hpath] at h
    cases h
  · rw [if_neg hpath, Run.bind_eq_success_iff] at h
    obtain ⟨_, _, hcurrent, h⟩ := h
    obtain ⟨rfl, rfl⟩ := Outcome.success.inj hcurrent
    refine ⟨by simpa using hpath, ?_⟩
    cases hcached : w.closed? path with
    | some cached =>
      simp only [hcached, Run.pure_apply, Outcome.success.injEq] at h
      exact .inl ⟨by rw [h.1], h.2.symm⟩
    | none =>
      simp only [hcached, Run.bind_eq_success_iff, Run.ofExcept_eq_success_iff] at h
      obtain ⟨_, w₁, hvisit, g, _, ⟨hg, rfl⟩, closed', w₂, hclosed, _, w₃, hremember, hpure⟩ := h
      obtain ⟨-, rfl⟩ := Outcome.success.inj hvisit
      obtain ⟨-, rfl⟩ := Outcome.success.inj hremember
      obtain ⟨rfl, rfl⟩ := Outcome.success.inj hpure
      exact .inr ⟨rfl, g, w₂, hg, hclosed, rfl⟩

lemma closeGrammar_succ_eq_success {depth : Nat} {inProgress : List String} {origin : String}
    {g : Grammar} :
    closeGrammar resolve (depth + 1) inProgress origin g w = .success closed w' ↔
      ∃ own, mergeDefinitions [] (g.definitions.map (⟨·, origin⟩)) = .ok own ∧
        mergeImports (closedBehind resolve (closeGrammar resolve depth) inProgress) own g.imports w =
          .success closed w' := by
  simp only [closeGrammar, Run.bind_eq_success_iff, Run.ofExcept_eq_success_iff]
  constructor
  · rintro ⟨own, _, ⟨hown, rfl⟩, himports⟩
    exact ⟨own, hown, himports⟩
  · rintro ⟨own, hown, himports⟩
    exact ⟨own, w, ⟨hown, rfl⟩, himports⟩

lemma mergeImports_cons_eq_success
    {closedAt : String → Run GrammarError Walk (List Sourced)} {merged : List Sourced} {i : Import}
    {imports : List Import} :
    mergeImports closedAt merged (i :: imports) w = .success closed w' ↔
      ∃ behind w₁ taken next, closedAt i.path w = .success behind w₁ ∧ i.select behind = .ok taken ∧
        mergeDefinitions merged taken = .ok next ∧
        mergeImports closedAt next imports w₁ = .success closed w' := by
  simp only [mergeImports, Run.bind_eq_success_iff, Run.ofExcept_eq_success_iff]
  constructor
  · rintro ⟨behind, w₁, hbehind, taken, _, ⟨htaken, rfl⟩, next, _, ⟨hnext, rfl⟩, hrest⟩
    exact ⟨behind, _, taken, next, hbehind, htaken, hnext, hrest⟩
  · rintro ⟨behind, w₁, taken, next, hbehind, htaken, hnext, hrest⟩
    exact ⟨behind, w₁, hbehind, taken, w₁, ⟨htaken, rfl⟩, next, w₁, ⟨hnext, rfl⟩, hrest⟩

lemma closedBehind_eq_failure
    {close : List String → String → Grammar → Run GrammarError Walk (List Sourced)}
    {inProgress : List String} {path : String} {e : GrammarError}
    (h : closedBehind resolve close inProgress path w = .failure e w') :
    path ∈ inProgress ∨ resolve path = .error e ∨ ∃ g, resolve path = .ok g ∧
      close (inProgress ++ [path]) path g (w.visit (inProgress ++ [path])) = .failure e w' := by
  unfold closedBehind at h
  by_cases hpath : inProgress.contains path
  · exact .inl (by simpa using hpath)
  · rw [if_neg hpath, Run.bind_eq_failure_iff] at h
    obtain hcurrent | ⟨_, _, hcurrent, h⟩ := h
    · cases hcurrent
    · obtain ⟨rfl, rfl⟩ := Outcome.success.inj hcurrent
      refine .inr ?_
      cases hcached : w.closed? path with
      | some cached =>
        rw [hcached] at h
        cases h
      | none =>
        simp only [hcached, Run.bind_eq_failure_iff, Run.ofExcept_eq_failure_iff,
          Run.ofExcept_eq_success_iff] at h
        obtain hvisit | ⟨_, w₁, hvisit, ⟨herror, -⟩ | ⟨g, _, ⟨hg, rfl⟩, hclose⟩⟩ := h
        · cases hvisit
        · exact .inl herror
        · obtain ⟨-, rfl⟩ := Outcome.success.inj hvisit
          obtain hfailure | ⟨closed, w₂, -, hrest⟩ := hclose
          · exact .inr ⟨g, hg, hfailure⟩
          · obtain hremember | ⟨_, _, -, hpure⟩ := hrest
            · cases hremember
            · cases hpure

lemma closeGrammar_succ_eq_failure {depth : Nat} {inProgress : List String} {origin : String}
    {g : Grammar} {e : GrammarError}
    (h : closeGrammar resolve (depth + 1) inProgress origin g w = .failure e w') :
    mergeDefinitions [] (g.definitions.map (⟨·, origin⟩)) = .error e ∨
      ∃ own, mergeDefinitions [] (g.definitions.map (⟨·, origin⟩)) = .ok own ∧
        mergeImports (closedBehind resolve (closeGrammar resolve depth) inProgress) own g.imports w =
          .failure e w' := by
  simp only [closeGrammar, Run.bind_eq_failure_iff, Run.ofExcept_eq_failure_iff,
    Run.ofExcept_eq_success_iff] at h
  obtain ⟨herror, -⟩ | ⟨own, _, ⟨hown, rfl⟩, himports⟩ := h
  · exact .inl herror
  · exact .inr ⟨own, hown, himports⟩

lemma mergeImports_cons_eq_failure
    {closedAt : String → Run GrammarError Walk (List Sourced)} {merged : List Sourced} {i : Import}
    {imports : List Import} {e : GrammarError}
    (h : mergeImports closedAt merged (i :: imports) w = .failure e w') :
    closedAt i.path w = .failure e w' ∨
      ∃ behind w₁, closedAt i.path w = .success behind w₁ ∧ (i.select behind = .error e ∨
        ∃ taken, i.select behind = .ok taken ∧ (mergeDefinitions merged taken = .error e ∨
          ∃ next, mergeDefinitions merged taken = .ok next ∧
            mergeImports closedAt next imports w₁ = .failure e w')) := by
  simp only [mergeImports, Run.bind_eq_failure_iff, Run.ofExcept_eq_failure_iff,
    Run.ofExcept_eq_success_iff] at h
  obtain hfailure | ⟨behind, w₁, hbehind, h⟩ := h
  · exact .inl hfailure
  refine .inr ⟨behind, w₁, hbehind, ?_⟩
  obtain ⟨herror, -⟩ | ⟨taken, _, ⟨htaken, rfl⟩, h⟩ := h
  · exact .inl herror
  refine .inr ⟨taken, htaken, ?_⟩
  obtain ⟨herror, -⟩ | ⟨next, _, ⟨hnext, rfl⟩, hrest⟩ := h
  · exact .inl herror
  · exact .inr ⟨next, hnext, hrest⟩

end Closing

section Invariant

variable {P : Definition → Prop} {w w' : Walk}

lemma mergeImports_holds {closedAt : String → Run GrammarError Walk (List Sourced)}
    (hclosedAt : ∀ {path closed} {w w' : Walk}, w.Holds P → closedAt path w = .success closed w' →
      (∀ s ∈ closed, P s.definition) ∧ w'.Holds P)
    {imports : List Import} {merged closed : List Sourced} (hmerged : ∀ s ∈ merged, P s.definition)
    (hw : w.Holds P) (h : mergeImports closedAt merged imports w = .success closed w') :
    (∀ s ∈ closed, P s.definition) ∧ w'.Holds P := by
  induction imports generalizing merged w with
  | nil =>
    obtain ⟨rfl, rfl⟩ := Outcome.success.inj h
    exact ⟨hmerged, hw⟩
  | cons i imports ih =>
    obtain ⟨behind, w₁, taken, next, hbehind, htaken, hnext, hrest⟩ :=
      mergeImports_cons_eq_success.mp h
    obtain ⟨hP, hw₁⟩ := hclosedAt hw hbehind
    obtain ⟨added, rfl, hadded⟩ := mergeDefinitions_eq_ok hnext
    refine ih (fun s hs => ?_) hw₁ hrest
    rcases List.mem_append.mp hs with hs | hs
    · exact hmerged s hs
    · exact hP s ((select_sublist htaken).subset (hadded.subset hs))

/-- A closed grammar consists of definitions of the root and of grammars that were found. -/
theorem closeGrammar_holds {resolve : Resolver}
    (hresolve : ∀ path g, resolve path = .ok g → ∀ d ∈ g.definitions, P d)
    {depth : Nat} {inProgress : List String} {origin : String} {g : Grammar} {closed : List Sourced}
    (hg : ∀ d ∈ g.definitions, P d) (hw : w.Holds P)
    (h : closeGrammar resolve depth inProgress origin g w = .success closed w') :
    (∀ s ∈ closed, P s.definition) ∧ w'.Holds P := by
  induction depth generalizing inProgress origin g closed w w' with
  | zero => cases h
  | succ depth ih =>
    obtain ⟨own, hown, himports⟩ := closeGrammar_succ_eq_success.mp h
    have hownP : ∀ s ∈ own, P s.definition := by
      obtain ⟨added, rfl, hadded⟩ := mergeDefinitions_eq_ok hown
      intro s hs
      obtain ⟨d, hd, rfl⟩ := List.mem_map.mp (hadded.subset (by simpa using hs))
      exact hg d hd
    refine mergeImports_holds ?_ hownP hw himports
    intro path closed w w' hw h
    obtain ⟨-, ⟨hcached, rfl⟩ | ⟨-, g', w₁, hg', hclosed, rfl⟩⟩ := closedBehind_eq_success h
    · exact ⟨hw (path, closed) (Walk.mem_of_closed?_eq_some hcached), hw⟩
    · have hvisit : (w.visit (inProgress ++ [path])).Holds P := hw
      obtain ⟨hP, hw₁⟩ := ih (hresolve path g' hg') hvisit hclosed
      refine ⟨hP, fun entry hentry => ?_⟩
      rcases List.mem_cons.mp hentry with rfl | hentry
      · exact hP
      · exact hw₁ entry hentry

end Invariant

namespace Grammar

lemma build_eq_ok {imports : List Import} {definitions : List Definition} {span : Span} {g : Grammar}
    (h : build imports definitions span = .ok g) :
    g.imports = imports ∧ g.definitions = definitions ∧ g.span = span := by
  unfold build at h
  split at h
  · cases h
  · obtain rfl := Except.ok.inj h
    exact ⟨rfl, rfl, rfl⟩

/-- Rules with names of their own are passed. -/
lemma firstRepeat?_go_append {earlier before : List Definition} (rules : List Definition)
    (h : ((earlier ++ before).map Rule.name).Nodup) :
    Rule.firstRepeat?.go earlier (before ++ rules) =
      Rule.firstRepeat?.go (earlier ++ before) rules := by
  induction before generalizing earlier with
  | nil => rw [List.nil_append, List.append_nil]
  | cons rule before ih =>
    have hnew : rule.name ∉ earlier.map Rule.name := by
      rw [List.map_append, List.nodup_append] at h
      intro hmem
      exact h.2.2 _ hmem _ (by simp) rfl
    have hfind : earlier.find? (·.name == rule.name) = none := by
      simpa [List.find?_eq_none] using hnew
    rw [List.append_cons] at h ⊢
    rw [List.cons_append, Rule.firstRepeat?.go, hfind]
    exact ih h

lemma firstRepeat?_go_eq_none {earlier rules : List Definition}
    (h : ((earlier ++ rules).map Rule.name).Nodup) : Rule.firstRepeat?.go earlier rules = none := by
  have hpassed := firstRepeat?_go_append [] h
  rwa [List.append_nil, Rule.firstRepeat?.go] at hpassed

lemma exists_build (imports : List Import) {definitions : List Definition} (span : Span)
    (h : (definitions.map Rule.name).Nodup) :
    ∃ g, build imports definitions span = .ok g ∧ g.imports = imports ∧
      g.definitions = definitions := by
  have hnone : Rule.firstRepeat? definitions = none := firstRepeat?_go_eq_none h
  unfold build
  split
  · next hsome =>
    rw [hnone] at hsome
    cases hsome
  · exact ⟨_, rfl, rfl, rfl⟩

/-- The first definition whose name occurred before it is reported, with the one that had the name. -/
lemma build_duplicate (imports : List Import) (span : Span) {before after : List Definition}
    {first d : Definition} (h : (before.map Rule.name).Nodup) (hfirst : first ∈ before)
    (hname : first.name = d.name) : build imports (before ++ d :: after) span =
      .error (.duplicateDefinition d.name first.span d.span) := by
  have hfind : before.find? (·.name == d.name) = some first :=
    (find?_key_eq_some_iff Rule.name h).mpr ⟨hfirst, hname⟩
  have hpassed : Rule.firstRepeat? (before ++ d :: after) =
      Rule.firstRepeat?.go before (d :: after) :=
    firstRepeat?_go_append (d :: after) (by rwa [List.nil_append])
  have hrepeat : Rule.firstRepeat? (before ++ d :: after) = some (first, d) := by
    rw [hpassed, Rule.firstRepeat?.go, hfind]
  unfold build
  split
  · next first' second hsome =>
    obtain ⟨rfl, rfl⟩ := Prod.mk.inj (Option.some.inj (hrepeat.symm.trans hsome))
    rfl
  · next hnone => cases hrepeat.symm.trans hnone

end Grammar

lemma finishAssembly_eq_ok {root g : Grammar} {closed : List Sourced}
    (h : finishAssembly root closed = .ok g) :
    g.imports = [] ∧ g.definitions = closed.map (·.definition) ∧ g.validate = .ok () := by
  unfold finishAssembly at h
  cases hbuild : Grammar.build [] (closed.map (·.definition)) root.span with
  | error e => simp [hbuild, bind, Except.bind] at h
  | ok built =>
    cases hvalid : built.validate with
    | error e => simp [hbuild, hvalid, bind, Except.bind] at h
    | ok _ =>
      obtain rfl : built = g := by
        simpa [hbuild, hvalid, bind, Except.bind, pure, Except.pure] using h
      obtain ⟨himports, hdefinitions, -⟩ := Grammar.build_eq_ok hbuild
      exact ⟨himports, hdefinitions, hvalid⟩

lemma Resolver.assemble_eq_success_iff {resolve : Resolver} {depth : Nat}
    {rootPath? : Option String} {root g : Grammar} {w : Walk} :
    resolve.assemble depth rootPath? root {} = .success g w ↔
      ∃ closed, closeGrammar resolve depth rootPath?.toList (rootPath?.getD rootOrigin) root {} =
        .success closed w ∧ finishAssembly root closed = .ok g := by
  simp only [assemble, Run.bind_eq_success_iff, Run.ofExcept_eq_success_iff]
  constructor
  · rintro ⟨closed, _, hclosed, hg, rfl⟩
    exact ⟨closed, hclosed, hg⟩
  · rintro ⟨closed, hclosed, hg⟩
    exact ⟨closed, w, hclosed, hg, rfl⟩

/-- Whether a grammar comes out of assembly, from grammars whose bodies are expressions. -/
def Grammar.Assembled (g : Grammar) : Prop :=
  ∃ (resolve : Resolver) (depth : Nat) (rootPath? : Option String) (root : Grammar) (w : Walk),
    root.isPlain = true ∧ (∀ path found, resolve path = .ok found → found.isPlain = true) ∧
      resolve.assemble depth rootPath? root {} = .success g w

/-- An assembled grammar consists of expressions and passes validation. -/
theorem Grammar.Assembled.isPlain_and_validate {g : Grammar} (hg : g.Assembled) :
    g.isPlain = true ∧ g.validate = .ok () := by
  obtain ⟨resolve, depth, rootPath?, root, w, hroot, hresolve, h⟩ := hg
  obtain ⟨closed, hclosed, hfinish⟩ := Resolver.assemble_eq_success_iff.mp h
  obtain ⟨-, hdefinitions, hvalid⟩ := finishAssembly_eq_ok hfinish
  have hplain : ∀ {found : Grammar}, found.isPlain = true →
      ∀ d ∈ found.definitions, d.body.isPlain = true := fun h => List.all_eq_true.mp h
  have hholds := (closeGrammar_holds (P := fun d => d.body.isPlain = true)
    (fun path found hfound => hplain (hresolve path found hfound)) (hplain hroot)
    (by simp [Walk.Holds]) hclosed).1
  refine ⟨?_, hvalid⟩
  rw [isPlain, hdefinitions, List.all_map, List.all_eq_true]
  exact hholds

/-- `S <- 'a' S / 'b'^expected`, with spacing between the items of the sequence. -/
def countdown : Grammar :=
  ⟨[], [⟨"S", .choice [.sequence [.literal "a" ⟨5, 8⟩, .identifier "S" ⟨9, 10⟩] ⟨5, 10⟩,
    .labeled "expected" (.literal "b" ⟨13, 16⟩) ⟨13, 25⟩] ⟨5, 25⟩, ⟨0, 25⟩⟩], ⟨0, 25⟩, by decide⟩

theorem assembled_countdown : countdown.Assembled := by
  refine ⟨fun path => .error (.importNotFound path ""), 1, none, countdown, {}, by rfl, ?_, by rfl⟩
  intro path found h
  cases h

end LabeledPeg
