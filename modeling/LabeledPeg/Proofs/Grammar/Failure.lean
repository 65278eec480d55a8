import LabeledPeg.Proofs.Grammar.Assembly
import LabeledPeg.Proofs.Grammar.Cache
import LabeledPeg.Proofs.Grammar.Origin
import LabeledPeg.Proofs.Grammar.Trail
import LabeledPeg.Proofs.Program.Faults

/-!
# How assembly fails and ends

Assembly closes grammars along trails of imports, and what it remembers is attributed to the
grammars that hold it. So what it reports is found in the grammars: an import that leads back to the
trail, an import whose grammar is not found or lacks a name, two definitions of one name, or a fault
of the closed set. A trail through a library is short, so that assembly ends.
-/

namespace LabeledPeg

/-- What can be reported of a root grammar. -/
inductive Sources.Failure (sources : Sources) (resolve : Resolver) (rootPath? : Option String)
    (root : Grammar) : GrammarError → Prop
  | cycle {stack : List String} {g : Grammar} {i : Import}
    (h : sources.Trail rootPath? root stack g) (hi : i ∈ g.imports) (hpath : i.path ∈ stack) :
    Failure sources resolve rootPath? root (.importCycle (stack ++ [i.path]))
  | unresolved {stack : List String} {g : Grammar} {i : Import} {e : GrammarError}
    (h : sources.Trail rootPath? root stack g) (hi : i ∈ g.imports)
    (he : resolve i.path = .error e) :
    Failure sources resolve rootPath? root e
  | missing {stack : List String} {g : Grammar} {i : Import} {name : String}
    (h : sources.Trail rootPath? root stack g) (hi : i ∈ g.imports) (hname : name ∈ i.names) :
    Failure sources resolve rootPath? root (.missingImport name i.path i.span)
  | clash {first second : Sourced} (hfirst : sources.Owns rootPath? root first)
    (hsecond : sources.Owns rootPath? root second)
    (hname : first.definition.name = second.definition.name)
    (htext : first.definition.body.text ≠ second.definition.body.text) :
    Failure sources resolve rootPath? root (first.clash second)
  | invalid {g : Grammar} {e : GrammarError} (himports : g.imports = []) (h : g.Faulted e) :
    Failure sources resolve rootPath? root e

/-- What is true of a walk: what it remembers is attributed, and whatever path was asked for is
imported by the last grammar of a trail, and goes on with it. -/
structure Walk.Follows (sources : Sources) (rootPath? : Option String) (root : Grammar) (w : Walk) :
    Prop where
  attributed : ∀ entry ∈ w.cache, sources.Attributes rootPath? root entry.2
  trailed : ∀ visit ∈ w.visits, ∃ stack g, sources.Trail rootPath? root stack g ∧
    ∃ i ∈ g.imports, i.path ∉ stack ∧ visit = stack ++ [i.path]

section Ensure

variable {sources : Sources} {resolve : Resolver} {rootPath? : Option String} {root g : Grammar}
  {stack : List String} {i : Import} {imports : List Import} {closed merged : List Sourced}
  {w : Walk}

lemma Walk.Follows.visit (hw : w.Follows sources rootPath? root)
    (h : sources.Trail rootPath? root stack g) (hi : i ∈ g.imports) (hnew : i.path ∉ stack) :
    (w.visit (stack ++ [i.path])).Follows sources rootPath? root :=
  ⟨hw.attributed, List.forall_mem_cons.mpr ⟨⟨stack, g, h, i, hi, hnew, rfl⟩, hw.trailed⟩⟩

lemma Walk.Follows.remember {path : String} (hw : w.Follows sources rootPath? root)
    (hclosed : sources.Attributes rootPath? root closed) :
    (w.remember path closed).Follows sources rootPath? root :=
  ⟨List.forall_mem_cons.mpr ⟨hclosed, hw.attributed⟩, hw.trailed⟩

lemma Walk.Follows.attributes {path : String} (hw : w.Follows sources rootPath? root)
    (h : w.closed? path = some closed) : sources.Attributes rootPath? root closed :=
  hw.attributed (path, closed) (Walk.mem_of_closed?_eq_some h)

variable (sources resolve rootPath? root) in
/-- Whether a computation returns an attributed list or reports what can be reported, and keeps the
walk as it has to be. -/
abbrev Sources.Closing (x : Run GrammarError Walk (List Sourced)) : Prop :=
  x.Ensures (Walk.Follows sources rootPath? root) (sources.Attributes rootPath? root)
    (sources.Failure resolve rootPath? root)

lemma closedBehind_ensures (hfinds : resolve.Finds sources stack)
    {close : List String → String → Grammar → Run GrammarError Walk (List Sourced)}
    (h : sources.Trail rootPath? root stack g) (hi : i ∈ g.imports)
    (hclose : ∀ behind, sources.Trail rootPath? root (stack ++ [i.path]) behind →
      sources i.path = some behind →
        sources.Closing resolve rootPath? root (close (stack ++ [i.path]) i.path behind)) :
    sources.Closing resolve rootPath? root (closedBehind resolve close stack i.path) := by
  unfold closedBehind
  by_cases hpath : stack.contains i.path
  · rw [if_pos hpath]
    exact Run.ensures_fail (.cycle h hi (by simpa using hpath))
  rw [if_neg hpath]
  have hnew : i.path ∉ stack := by simpa using hpath
  refine Run.ensures_current.bind fun w hw => ?_
  cases hcached : w.closed? i.path with
  | some closed => exact Run.ensures_pure (hw.attributes hcached)
  | none =>
    refine (Run.ensures_update fun w' hw' => hw'.visit h hi hnew).bind fun _ _ => ?_
    have hresolve : (Run.ofExcept (resolve i.path)).Ensures (Walk.Follows sources rootPath? root)
        (fun behind => sources i.path = some behind) (sources.Failure resolve rootPath? root) :=
      Run.ensures_ofExcept (fun behind hbehind => (hfinds i.path hnew behind).mp hbehind)
        fun e he => .unresolved h hi he
    refine hresolve.bind fun behind hbehind => ?_
    refine (hclose behind (.step h hi hnew hbehind) hbehind).bind fun closed hclosed => ?_
    refine (Run.ensures_update fun w' hw' => hw'.remember hclosed).bind fun _ _ => ?_
    exact Run.ensures_pure hclosed

lemma mergeImports_ensures {closedAt : String → Run GrammarError Walk (List Sourced)}
    (h : sources.Trail rootPath? root stack g) (himports : ∀ i ∈ imports, i ∈ g.imports)
    (hclosedAt : ∀ i ∈ g.imports, sources.Closing resolve rootPath? root (closedAt i.path))
    (hmerged : sources.Attributes rootPath? root merged) :
    sources.Closing resolve rootPath? root (mergeImports closedAt merged imports) := by
  induction imports generalizing merged with
  | nil => exact Run.ensures_pure hmerged
  | cons i imports ih =>
    obtain ⟨hi, himports⟩ := List.forall_mem_cons.mp himports
    unfold mergeImports
    refine (hclosedAt i hi).bind fun behind hbehind => ?_
    have hselect : sources.Closing resolve rootPath? root (Run.ofExcept (i.select behind)) := by
      refine Run.ensures_ofExcept (fun taken htaken => hbehind.select htaken) fun e he => ?_
      obtain ⟨name, hname, -, rfl⟩ := hbehind.select_eq_error he
      exact .missing h hi hname
    refine hselect.bind fun taken htaken => ?_
    have hmerge : sources.Closing resolve rootPath? root
        (Run.ofExcept (mergeDefinitions merged taken)) := by
      refine Run.ensures_ofExcept (fun next hnext => hmerged.mergeDefinitions htaken.owned hnext)
        fun e he => ?_
      obtain ⟨first, hfirst, second, hsecond, hname, htext, rfl⟩ := mergeDefinitions_eq_error he
      refine .clash ?_ (htaken.owned second hsecond) hname htext
      exact (List.mem_append.mp hfirst).elim (hmerged.owned first) (htaken.owned first)
    exact hmerge.bind fun next hnext => ih himports hnext

/-- Closing a grammar at the end of a trail attributes its definitions, or reports what can be
reported. -/
theorem closeGrammar_ensures {depth : Nat} {origin : String}
    (hfinds : resolve.Finds sources stack) (h : sources.Trail rootPath? root stack g)
    (horigin : sources.IsOrigin rootPath? root origin g) :
    sources.Closing resolve rootPath? root (closeGrammar resolve depth stack origin g) := by
  induction depth generalizing stack origin g with
  | zero => exact Run.ensures_cutOff
  | succ depth ih =>
    unfold closeGrammar
    rw [mergeDefinitions_own, Run.ofExcept_ok_bind]
    refine mergeImports_ensures h (fun i hi => hi) (fun i hi => ?_) (.own horigin)
    exact closedBehind_ensures hfinds h hi fun behind htrail hbehind =>
      ih hfinds.append htrail (.inl hbehind)

/-- Assembly fails with what can be reported. -/
theorem Resolver.assemble_ensures {depth : Nat} (hfinds : resolve.Finds sources rootPath?.toList)
    (hroot : ∀ path, rootPath? = some path → sources path = some root) :
    (resolve.assemble depth rootPath? root).Ensures (Walk.Follows sources rootPath? root)
      (fun _ => True) (sources.Failure resolve rootPath? root) := by
  have horigin : sources.IsOrigin rootPath? root (rootPath?.getD rootOrigin) root := by
    cases rootPath? with
    | none => exact .inr ⟨rfl, rfl, rfl⟩
    | some path => exact .inl (hroot path rfl)
  unfold assemble
  refine (closeGrammar_ensures hfinds .root horigin).bind fun closed hclosed => ?_
  refine Run.ensures_ofExcept (fun _ _ => trivial) fun e he => ?_
  obtain ⟨g, himports, -, hvalid⟩ := hclosed.finish_eq_error he
  exact .invalid himports ((Grammar.judges_validate g).sound hvalid)

end Ensure

namespace Library

variable {library : Library} {rootPath? : Option String} {root : Grammar}

lemma assemble_keeps (depth : Nat) : (library.resolve.assemble depth rootPath? root {}).Keeps
    (Walk.Follows (library.sources rootPath? root) rootPath? root) (fun _ => True)
    ((library.sources rootPath? root).Failure library.resolve rootPath? root) :=
  Resolver.assemble_ensures finds_sources (fun _ => sources_root) {}
    ⟨List.forall_mem_nil _, List.forall_mem_nil _⟩

lemma failure_of_assemble {e : GrammarError}
    (h : library.assemble rootPath? root = some (.error e)) :
    (library.sources rootPath? root).Failure library.resolve rootPath? root e :=
  (assemble_keeps (library.length + 1)).reports_of_result? h

lemma resolve_eq_error {path : String} {e : GrammarError} (h : library.resolve path = .error e) :
    ∃ reason, e = .importNotFound path reason := by
  unfold resolve at h
  split at h
  · cases h
  · exact ⟨_, (Except.error.inj h).symm⟩

end Library

/-- A grammar without imports has a fault in one of its bodies. -/
lemma Grammar.Faulted.eq_of_imports {g : Grammar} {e : GrammarError} (himports : g.imports = [])
    (h : g.Faulted e) :
    (∃ name span, e = .unresolvedIdentifier name span) ∨ ∃ span, e = .emptyChoice span := by
  cases h with
  | node _ hbody =>
    obtain ⟨node, -, hfault⟩ := hbody
    cases hfault with
    | unresolved _ _ => exact .inl ⟨_, _, rfl⟩
    | emptyChoice => exact .inr ⟨_, rfl⟩
    | emptyClass => exact .inr ⟨_, rfl⟩
  | unassembled hleft =>
    rw [himports] at hleft
    cases hleft

lemma Sourced.clash_eq (first second : Sourced) :
    first.origin = second.origin ∧ first.clash second =
        .duplicateDefinition second.definition.name first.definition.span second.definition.span ∨
      first.origin ≠ second.origin ∧ first.clash second = .conflictingDefinition
        second.definition.name first.origin second.origin second.definition.span := by
  rw [clash]
  by_cases horigin : first.origin = second.origin
  · exact .inl ⟨horigin, if_pos horigin⟩
  · exact .inr ⟨horigin, if_neg horigin⟩

namespace Sources

variable {library : Library} {rootPath? : Option String} {root : Grammar}

lemma Owns.exists_source {sources : Sources} {path : String} {s : Sourced}
    (h : sources.Owns (some path) root s) :
    ∃ g, sources s.origin = some g ∧ s.definition ∈ g.definitions := by
  obtain ⟨g, hsource | ⟨hnone, -, -⟩, hmem⟩ := h
  · exact ⟨g, hsource, hmem⟩
  · cases hnone

lemma Failure.exists_trail {sources : Sources} {chain : List String}
    (h : sources.Failure library.resolve rootPath? root (.importCycle chain)) :
    ∃ stack g, sources.Trail rootPath? root stack g ∧
      ∃ i ∈ g.imports, i.path ∈ stack ∧ chain = stack ++ [i.path] := by
  generalize he : GrammarError.importCycle chain = e at h
  cases h with
  | cycle h hi hpath => exact ⟨_, _, h, _, hi, hpath, GrammarError.importCycle.inj he⟩
  | unresolved _ _ herror =>
    obtain ⟨reason, rfl⟩ := Library.resolve_eq_error herror
    cases he
  | missing _ _ _ => cases he
  | @clash first second _ _ _ _ =>
    obtain ⟨-, heq⟩ | ⟨-, heq⟩ := first.clash_eq second
    · rw [heq] at he
      cases he
    · rw [heq] at he
      cases he
  | invalid himports h =>
    obtain ⟨name, span, rfl⟩ | ⟨span, rfl⟩ := h.eq_of_imports himports
    · cases he
    · cases he

/-- Two definitions with one name and one origin are the same, if the root has a path: an origin
stands for one grammar then, which defines a name once. -/
lemma Owns.eq_of_origin_eq {sources : Sources} {path : String} {first second : Sourced}
    (hfirst : sources.Owns (some path) root first) (hsecond : sources.Owns (some path) root second)
    (hname : first.definition.name = second.definition.name)
    (horigin : first.origin = second.origin) : first.definition = second.definition := by
  obtain ⟨g, hg, hmem⟩ := hfirst.exists_source
  obtain ⟨g', hg', hmem'⟩ := hsecond.exists_source
  rw [horigin, hg'] at hg
  obtain rfl : g' = g := Option.some.inj hg
  exact List.inj_on_of_nodup_map g'.distinct hmem hmem' hname

lemma Failure.exists_clash {sources : Sources} {path : String} {e : GrammarError}
    (h : sources.Failure library.resolve (some path) root e)
    (he : (∃ name first second, e = .duplicateDefinition name first second) ∨
      ∃ name firstOrigin secondOrigin span,
        e = .conflictingDefinition name firstOrigin secondOrigin span) :
    ∃ first second, sources.Owns (some path) root first ∧ sources.Owns (some path) root second ∧
      first.definition.name = second.definition.name ∧
      first.definition.body.text ≠ second.definition.body.text ∧
      first.origin ≠ second.origin ∧ e = .conflictingDefinition second.definition.name first.origin
        second.origin second.definition.span := by
  cases h with
  | @clash first second hfirst hsecond hname htext =>
    refine ⟨first, second, hfirst, hsecond, hname, htext, ?_⟩
    obtain ⟨horigin, -⟩ | hconflict := first.clash_eq second
    · have hsame := hfirst.eq_of_origin_eq hsecond hname horigin
      exact absurd (by rw [hsame]) htext
    · exact hconflict
  | cycle _ _ _ => simp at he
  | unresolved _ _ herror =>
    obtain ⟨reason, rfl⟩ := Library.resolve_eq_error herror
    simp at he
  | missing _ _ _ => simp at he
  | invalid himports h =>
    obtain ⟨name, span, rfl⟩ | ⟨span, rfl⟩ := h.eq_of_imports himports
    · simp at he
    · simp at he

end Sources

/-- If assembly reports a cycle of imports, the chain that it reports begins at the root, each path
in it is imported by the grammar behind the path before it, and the last path comes once before.
No other path comes twice. -/
theorem Library.importCycle_of_assemble (library : Library) (rootPath? : Option String)
    (root : Grammar) (chain : List String)
    (h : library.assemble rootPath? root = some (.error (.importCycle chain))) :
    ∃ front last, chain = front ++ [last] ∧ last ∈ front ∧ front.Nodup ∧
      chain.IsChain (library.sources rootPath? root).Edge ∧
      (∃ first ∈ chain.head?, root.StartsAt rootPath? first) ∧
      (library.sources rootPath? root).Cyclic last := by
  obtain ⟨stack, g, htrail, i, hi, hpath, rfl⟩ := (failure_of_assemble h).exists_trail
  have hroot : ∀ path, rootPath? = some path →
      library.sources rootPath? root path = some root := fun _ => sources_root
  have hchain := htrail.isChain_append hroot hi (htrail.isChain hroot)
  refine ⟨stack, i.path, rfl, hpath, htrail.nodup, hchain, ?_, ?_⟩
  · obtain ⟨first, hfirst⟩ : ∃ first, stack.head? = some first :=
      ⟨_, List.head?_eq_some_head (List.ne_nil_of_mem hpath)⟩
    exact ⟨first, by simp [hfirst], htrail.startsAt first hfirst⟩
  · -- the part of the chain from where its last path comes first is the cycle
    have hpairs : (stack ++ [i.path]).Pairwise
        (Relation.TransGen (library.sources rootPath? root).Edge) :=
      List.isChain_iff_pairwise.mp (hchain.imp fun _ _ => Relation.TransGen.single)
    exact (List.pairwise_append.mp hpairs).2.2 i.path hpath i.path (List.mem_singleton_self _)

/-- `entry` imports `left`, which imports `right`, which imports `left` again. -/
def circular : Library :=
  [("entry", ⟨[⟨"left", [], ⟨0, 20⟩⟩], [], ⟨0, 20⟩, by decide⟩),
    ("left", ⟨[⟨"right", [], ⟨0, 21⟩⟩], [], ⟨0, 21⟩, by decide⟩),
    ("right", ⟨[⟨"left", [], ⟨0, 20⟩⟩], [], ⟨0, 20⟩, by decide⟩)]

/-- `import * from "entry"`. -/
def circularRoot : Grammar := ⟨[⟨"entry", [], ⟨0, 21⟩⟩], [], ⟨0, 21⟩, by decide⟩

theorem importCycle_of_assemble_circular :
    circular.assemble none circularRoot =
      some (.error (.importCycle ["entry", "left", "right", "left"])) ∧
    ["entry", "left", "right", "left"].IsChain (circular.sources none circularRoot).Edge ∧
    circularRoot.StartsAt none "entry" ∧ (circular.sources none circularRoot).Cyclic "left" := by
  have hassemble : circular.assemble none circularRoot =
      some (.error (.importCycle ["entry", "left", "right", "left"])) := by rfl
  obtain ⟨front, last, heq, -, -, hchain, ⟨first, hfirst, hstarts⟩, hcyclic⟩ :=
    Library.importCycle_of_assemble circular none circularRoot _ hassemble
  obtain rfl : "left" = last := by simpa using congrArg List.getLast? heq
  obtain rfl : "entry" = first := Option.some.inj hfirst
  exact ⟨hassemble, hchain, hstarts, hcyclic⟩

/-- With a root that has a path, assembly never reports two definitions of one grammar. If it
reports a conflict, the two origins differ, the grammars behind them define the name with different
bodies, and the place is that of the second definition. -/
theorem Library.conflict_of_assemble (library : Library) (path : String) (root : Grammar) :
    (∀ name first second, library.assemble (some path) root ≠
      some (.error (.duplicateDefinition name first second))) ∧
    ∀ name firstOrigin secondOrigin span, library.assemble (some path) root =
        some (.error (.conflictingDefinition name firstOrigin secondOrigin span)) →
      firstOrigin ≠ secondOrigin ∧ ∃ first second d d',
        library.sources (some path) root firstOrigin = some first ∧
        library.sources (some path) root secondOrigin = some second ∧
        first.definition? name = some d ∧ second.definition? name = some d' ∧
        d.body.text ≠ d'.body.text ∧ span = d'.span := by
  refine ⟨fun name first second h => ?_, fun name firstOrigin secondOrigin span h => ?_⟩
  · obtain ⟨_, _, -, -, -, -, -, heq⟩ :=
      (failure_of_assemble h).exists_clash (.inl ⟨name, first, second, rfl⟩)
    cases heq
  · obtain ⟨first, second, hfirst, hsecond, hname, htext, horigin, heq⟩ :=
      (failure_of_assemble h).exists_clash (.inr ⟨name, firstOrigin, secondOrigin, span, rfl⟩)
    obtain ⟨rfl, rfl, rfl, rfl⟩ := GrammarError.conflictingDefinition.inj heq
    obtain ⟨g, hg, hmem⟩ := hfirst.exists_source
    obtain ⟨g', hg', hmem'⟩ := hsecond.exists_source
    exact ⟨horigin, g, g', first.definition, second.definition, hg, hg',
      Grammar.definition?_eq_some_iff.mpr ⟨hmem, hname⟩,
      Grammar.definition?_eq_some_iff.mpr ⟨hmem', rfl⟩, htext, rfl⟩

/-- `import * from "base"` behind `left`, with `Base <- 'a'` behind `base` and `Base <- 'b'` behind
`other`. -/
def forked : Library :=
  [("left", ⟨[⟨"base", [], ⟨0, 20⟩⟩], [], ⟨0, 20⟩, by decide⟩),
    ("base", ⟨[], [⟨"Base", .literal "a" ⟨8, 11⟩, ⟨0, 11⟩⟩], ⟨0, 11⟩, by decide⟩),
    ("other", ⟨[], [⟨"Base", .literal "b" ⟨8, 11⟩, ⟨0, 11⟩⟩], ⟨0, 11⟩, by decide⟩)]

/-- `import * from "left"` and `import * from "other"`, a line each. -/
def forkedRoot : Grammar :=
  ⟨[⟨"left", [], ⟨0, 20⟩⟩, ⟨"other", [], ⟨21, 42⟩⟩], [], ⟨0, 42⟩, by decide⟩

theorem conflict_of_assemble_forked :
    forked.assemble (some "root") forkedRoot =
      some (.error (.conflictingDefinition "Base" "base" "other" ⟨0, 11⟩)) ∧
    ∃ first second d d', forked.sources (some "root") forkedRoot "base" = some first ∧
      forked.sources (some "root") forkedRoot "other" = some second ∧
      first.definition? "Base" = some d ∧ second.definition? "Base" = some d' ∧
      d.body.text ≠ d'.body.text ∧ ⟨0, 11⟩ = d'.span := by
  have hassemble : forked.assemble (some "root") forkedRoot =
      some (.error (.conflictingDefinition "Base" "base" "other" ⟨0, 11⟩)) := by rfl
  obtain ⟨-, hconflict⟩ := Library.conflict_of_assemble forked "root" forkedRoot
  exact ⟨hassemble, (hconflict "Base" "base" "other" ⟨0, 11⟩ hassemble).2⟩

namespace Library

variable {library : Library} {rootPath? : Option String} {root : Grammar}

/-- At any depth that is enough, assembly ends in the same way. -/
lemma exists_assemble_eq (library : Library) (rootPath? : Option String) (root : Grammar) :
    ∃ result, library.assemble rootPath? root = some result ∧
      ∀ depth, library.length < depth →
        ∃ w, library.resolve.assemble depth rootPath? root {} = Run.ofExcept result w := by
  have hends : ∀ depth, library.length < depth → ∃ r w,
      library.resolve.assemble depth rootPath? root {} = Run.ofExcept r w ∧
      ∃ depth', library.resolve.assembleAfresh depth' rootPath? root = Run.ofExcept r := by
    intro depth hdepth
    obtain ⟨r, w, hrun, -, hafresh⟩ | ⟨hcut, -⟩ :=
      agrees_assemble library.resolve depth rootPath? root
    · exact ⟨r, w, hrun, hafresh⟩
    · exact absurd hcut (finishes_assemble hdepth {})
  obtain ⟨result, w, hrun, depth', hafresh⟩ := hends (library.length + 1) (Nat.lt_succ_self _)
  refine ⟨result, ?_, fun depth hdepth => ?_⟩
  · rw [assemble, hrun, Run.result?_ofExcept]
  · obtain ⟨result', w', hrun', depth'', hafresh'⟩ := hends depth hdepth
    have hsame : result' = result :=
      Run.unique_of_approximates assembleAfresh_approximates hafresh' hafresh
    exact ⟨w', hsame ▸ hrun'⟩

lemma length_visit_le {stack : List String} {g : Grammar} {i : Import}
    (h : (library.sources rootPath? root).Trail rootPath? root stack g) (hi : i ∈ g.imports)
    (hnew : i.path ∉ stack) (hpath : i.path ∈ library.paths) :
    (stack ++ [i.path]).length ≤ library.paths.length + 1 := by
  obtain ⟨behind, hbehind⟩ : ∃ behind, library.sources rootPath? root i.path = some behind := by
    by_cases hroot : rootPath? = some i.path
    · exact ⟨root, sources_root hroot⟩
    · obtain ⟨entry, hentry, heq⟩ := List.mem_map.mp (List.mem_dedup.mp hpath)
      rw [sources_of_ne hroot, ← Option.isSome_iff_exists, List.lookup_isSome_iff]
      exact ⟨entry, hentry, by simp [heq]⟩
  exact (h.step hi hnew hbehind).length_le

end Library

/-- Assembly from a library always ends, in the same way with any bound on its depth that exceeds
the library. The paths in progress are distinct whenever another path is asked for, and it is not
among them. They are at most one more than the library has, also with that path if it is found. -/
theorem Library.assemble_ends (library : Library) (rootPath? : Option String) (root : Grammar) :
    ∃ result, library.assemble rootPath? root = some result ∧
      ∀ depth, library.length < depth → ∃ w,
        library.resolve.assemble depth rootPath? root {} = Run.ofExcept result w ∧
        ∀ visit ∈ w.visits, ∃ stack path, visit = stack ++ [path] ∧ visit.Nodup ∧
          stack.length ≤ library.paths.length + 1 ∧
          (path ∈ library.paths → visit.length ≤ library.paths.length + 1) := by
  obtain ⟨result, hresult, hends⟩ := exists_assemble_eq library rootPath? root
  refine ⟨result, hresult, fun depth hdepth => ?_⟩
  obtain ⟨w, hw⟩ := hends depth hdepth
  have hstate : (library.resolve.assemble depth rootPath? root {}).state? = some w := by
    rw [hw, Run.state?_ofExcept]
  have hfollows : w.Follows (library.sources rootPath? root) rootPath? root :=
    (assemble_keeps depth).keeps_of_state? hstate
  refine ⟨w, hw, fun visit hvisit => ?_⟩
  obtain ⟨stack, g, htrail, i, hi, hnew, rfl⟩ := hfollows.trailed visit hvisit
  refine ⟨stack, i.path, rfl, ?_, htrail.length_le, length_visit_le htrail hi hnew⟩
  exact List.nodup_append_comm.mp (List.nodup_cons.mpr ⟨hnew, htrail.nodup⟩)

theorem assemble_ends_circular : circular.length < 7 ∧ ∃ w,
    circular.resolve.assemble 7 none circularRoot {} =
      Run.ofExcept (.error (.importCycle ["entry", "left", "right", "left"])) w ∧
    ["entry", "left", "right"] ∈ w.visits ∧
    ∀ visit ∈ w.visits, visit.Nodup := by
  obtain ⟨result, hresult, hends⟩ := Library.assemble_ends circular none circularRoot
  have hcycle : circular.assemble none circularRoot =
      some (.error (.importCycle ["entry", "left", "right", "left"])) := by rfl
  obtain rfl : .error (.importCycle ["entry", "left", "right", "left"]) = result :=
    Option.some.inj (hcycle.symm.trans hresult)
  obtain ⟨w, hw, hvisits⟩ := hends 7 (by decide)
  have hrun : circular.resolve.assemble 7 none circularRoot {} =
      .failure (.importCycle ["entry", "left", "right", "left"])
        ⟨[], [["entry", "left", "right"], ["entry", "left"], ["entry"]]⟩ := by rfl
  obtain ⟨-, rfl⟩ := Outcome.failure.inj (hw.symm.trans hrun)
  refine ⟨by decide, _, hw, by decide, fun visit hvisit => ?_⟩
  obtain ⟨_, _, -, hdistinct, -, -⟩ := hvisits visit hvisit
  exact hdistinct

end LabeledPeg
