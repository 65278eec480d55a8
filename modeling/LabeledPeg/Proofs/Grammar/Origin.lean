import LabeledPeg.Proofs.Grammar.Selection

/-!
# Origins

Every definition in a closed grammar comes with the path of the grammar that holds it, and a name
comes once. Merging and selecting keep that. So an error of merging is about two definitions that
the grammars at their origins hold, with one name and two bodies.
-/

namespace LabeledPeg

/-- Whether an origin stands for a grammar: it is the path of it, or the grammar is a root without a
path. -/
def Sources.IsOrigin (sources : Sources) (rootPath? : Option String) (root : Grammar)
    (origin : String) (g : Grammar) : Prop :=
  sources origin = some g ∨ rootPath? = none ∧ origin = rootOrigin ∧ g = root

/-- Whether a definition is held by the grammar that its origin stands for. -/
def Sources.Owns (sources : Sources) (rootPath? : Option String) (root : Grammar) (s : Sourced) :
    Prop :=
  ∃ g, sources.IsOrigin rootPath? root s.origin g ∧ s.definition ∈ g.definitions

/-- Whether a list holds every name once, and every definition with its origin. -/
structure Sources.Attributes (sources : Sources) (rootPath? : Option String) (root : Grammar)
    (merged : List Sourced) : Prop where
  distinct : (merged.map (·.definition.name)).Nodup
  owned : ∀ s ∈ merged, sources.Owns rootPath? root s

/-- What is reported of two definitions that give one name two bodies. -/
def Sourced.clash (first second : Sourced) : GrammarError :=
  if first.origin = second.origin then
    .duplicateDefinition second.definition.name first.definition.span second.definition.span
  else
    .conflictingDefinition second.definition.name first.origin second.origin second.definition.span

section Clash

variable {merged merged' : List Sourced} {s : Sourced} {e : GrammarError}

lemma mergeDefinition_eq_error (h : mergeDefinition merged s = .error e) :
    ∃ first ∈ merged, first.definition.name = s.definition.name ∧
      first.definition.body.text ≠ s.definition.body.text ∧ e = first.clash s := by
  rw [mergeDefinition] at h
  cases hfind : merged.find? (·.definition.name == s.definition.name) with
  | none =>
    rw [hfind] at h
    cases h
  | some first =>
    rw [hfind] at h
    have hname : first.definition.name = s.definition.name := by simpa using List.find?_some hfind
    dsimp only at h
    by_cases htext : first.definition.body.text = s.definition.body.text
    · rw [if_pos htext] at h
      cases h
    · rw [if_neg htext] at h
      refine ⟨first, List.mem_of_find?_eq_some hfind, hname, htext, ?_⟩
      rw [Sourced.clash]
      split at h
      · next horigin => rw [if_pos horigin, Except.error.inj h]
      · next horigin => rw [if_neg horigin, Except.error.inj h]

/-- Merging fails at a definition that gives another body to a name that was there, or came before
it. -/
lemma mergeDefinitions_eq_error {sources : List Sourced}
    (h : mergeDefinitions merged sources = .error e) :
    ∃ first ∈ merged ++ sources, ∃ second ∈ sources,
      first.definition.name = second.definition.name ∧
      first.definition.body.text ≠ second.definition.body.text ∧ e = first.clash second := by
  induction sources generalizing merged with
  | nil => cases h
  | cons s sources ih =>
    rw [mergeDefinitions] at h
    cases hnext : mergeDefinition merged s with
    | error e' =>
      rw [hnext] at h
      obtain rfl : e' = e := Except.error.inj h
      obtain ⟨first, hfirst, hclash⟩ := mergeDefinition_eq_error hnext
      exact ⟨first, List.mem_append_left _ hfirst, s, List.mem_cons_self, hclash⟩
    | ok next =>
      rw [hnext] at h
      obtain ⟨first, hfirst, second, hsecond, hclash⟩ := ih h
      have hmem : first ∈ merged ++ s :: sources := by
        rcases mergeDefinition_eq_ok hnext with rfl | rfl
        · simp only [List.mem_append, List.mem_cons] at hfirst ⊢
          exact hfirst.imp_right .inr
        · rwa [List.append_cons]
      exact ⟨first, hmem, second, List.mem_cons_of_mem _ hsecond, hclash⟩

end Clash

namespace Sources.Attributes

variable {sources : Sources} {rootPath? : Option String} {root g : Grammar}
  {merged merged' taken : List Sourced} {s : Sourced} {i : Import} {e : GrammarError}

/-- The definitions of a grammar, each with an origin that stands for it. -/
lemma own {origin : String} (h : sources.IsOrigin rootPath? root origin g) :
    sources.Attributes rootPath? root (g.definitions.map (⟨·, origin⟩)) := by
  refine ⟨(represents_own g origin).distinct, fun s hs => ?_⟩
  obtain ⟨d, hd, rfl⟩ := List.mem_map.mp hs
  exact ⟨g, h, hd⟩

lemma mergeDefinition (h : sources.Attributes rootPath? root merged)
    (hs : sources.Owns rootPath? root s)
    (hmerge : LabeledPeg.mergeDefinition merged s = .ok merged') :
    sources.Attributes rootPath? root merged' := by
  rcases mergeDefinition_eq_ok_iff.mp hmerge with ⟨hnew, rfl⟩ | ⟨-, -, -, rfl⟩
  · refine ⟨?_, fun s' hs' => ?_⟩
    · rw [List.map_append, List.map_singleton]
      exact List.nodup_append_comm.mp (List.nodup_cons.mpr ⟨hnew, h.distinct⟩)
    · rcases List.mem_append.mp hs' with hs' | hs'
      · exact h.owned s' hs'
      · rw [List.mem_singleton.mp hs']
        exact hs
  · exact h

lemma mergeDefinitions (h : sources.Attributes rootPath? root merged)
    (htaken : ∀ s ∈ taken, sources.Owns rootPath? root s)
    (hmerge : LabeledPeg.mergeDefinitions merged taken = .ok merged') :
    sources.Attributes rootPath? root merged' := by
  induction taken generalizing merged with
  | nil =>
    obtain rfl : merged = merged' := Except.ok.inj hmerge
    exact h
  | cons s taken ih =>
    obtain ⟨next, hnext, hrest⟩ := mergeDefinitions_cons_eq_ok_iff.mp hmerge
    obtain ⟨hs, htaken⟩ := List.forall_mem_cons.mp htaken
    exact ih (h.mergeDefinition hs hnext) htaken hrest

/-- An import takes some of the definitions, with the origins that they have. -/
lemma select (h : sources.Attributes rootPath? root merged)
    (hselect : i.select merged = .ok taken) : sources.Attributes rootPath? root taken := by
  have hsub := select_sublist hselect
  exact ⟨(hsub.map _).nodup h.distinct, fun s hs => h.owned s (hsub.subset hs)⟩

lemma represents (h : sources.Attributes rootPath? root merged) :
    Represents (fun d => ∃ s ∈ merged, d = s.definition) merged :=
  ⟨h.distinct, fun s hs => ⟨s, hs, rfl⟩, fun _ ⟨s, hs, heq⟩ => ⟨s, hs, heq ▸ ⟨rfl, rfl⟩⟩⟩

/-- Selecting fails only at a name that is asked for and is not there. -/
lemma select_eq_error (h : sources.Attributes rootPath? root merged)
    (hselect : i.select merged = .error e) :
    ∃ name ∈ i.names, name ∉ merged.map (·.definition.name) ∧
      e = .missingImport name i.path i.span := by
  cases htakes : i.takesAll with
  | true =>
    rw [Import.select, if_pos htakes] at hselect
    cases hselect
  | false =>
    obtain ⟨view, hview, heq⟩ := h.represents.select_eq htakes
    rw [heq] at hselect
    cases hfind : i.names.find? (fun name => !view.defines name) with
    | none =>
      rw [hfind] at hselect
      cases hselect
    | some name =>
      rw [hfind] at hselect
      have hname := List.mem_of_find?_eq_some hfind
      refine ⟨name, hname, fun hmem => ?_, (Except.error.inj hselect).symm⟩
      have hdefines : view.defines name = true :=
        (h.represents.defines_iff hview).mpr (h.represents.mem_names_iff.mp hmem)
      have hmissing := List.find?_some hfind
      rw [hdefines] at hmissing
      cases hmissing

/-- The definitions of a closed set make a grammar, so that only its validation can fail. -/
lemma finish_eq_error (h : sources.Attributes rootPath? root merged)
    (hfinish : finishAssembly root merged = .error e) :
    ∃ g : Grammar, g.imports = [] ∧ g.definitions = merged.map (·.definition) ∧
      g.validate = .error e := by
  have hdistinct : ((merged.map (·.definition)).map Rule.name).Nodup := by
    rw [List.map_map]
    exact h.distinct
  obtain ⟨g, hbuild, himports, hdefinitions⟩ := Grammar.exists_build [] root.span hdistinct
  refine ⟨g, himports, hdefinitions, ?_⟩
  rw [finishAssembly, hbuild] at hfinish
  cases hvalid : g.validate with
  | ok _ => simp [bind, Except.bind, hvalid, pure, Except.pure] at hfinish
  | error e' => simpa [bind, Except.bind, hvalid] using hfinish

end Sources.Attributes

end LabeledPeg
