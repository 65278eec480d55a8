import LabeledPeg.Proofs.Grammar.Closure
import LabeledPeg.Proofs.Grammar.Library
import LabeledPeg.Proofs.Grammar.Reachability
import LabeledPeg.Proofs.Source.RoundTrip

/-!
# Merging and selecting

A merged list represents a set of definitions if it holds one definition of the set for every name in
it, with the body that all of them have. Merging represents the union of two sets if they agree, and
selecting represents the part of a set that an import selects.
-/

namespace LabeledPeg

/-- Whether two definitions give one name one body. -/
def Rule.Same (d d' : Definition) : Prop := d.name = d'.name ∧ d.body.text = d'.body.text

/-- Whether no name stands for two bodies in a set of definitions. -/
def Agree (P : Definition → Prop) : Prop :=
  ∀ d d', P d → P d' → d.name = d'.name → d.body.text = d'.body.text

/-- Whether a list holds what a set of definitions says, every name once. -/
structure Represents (P : Definition → Prop) (merged : List Sourced) : Prop where
  distinct : (merged.map (·.definition.name)).Nodup
  sound : ∀ s ∈ merged, P s.definition
  complete : ∀ d, P d → ∃ s ∈ merged, s.definition.Same d

section Represent

variable {P Q : Definition → Prop} {merged merged' taken : List Sourced} {s : Sourced}

lemma Represents.congr (h : Represents P merged) (hPQ : ∀ d, P d ↔ Q d) : Represents Q merged := by
  obtain rfl : P = Q := funext fun d => propext (hPQ d)
  exact h

lemma Represents.eq_of_name_eq (h : Represents P merged) {s s' : Sourced} (hs : s ∈ merged)
    (hs' : s' ∈ merged) (hname : s.definition.name = s'.definition.name) : s = s' :=
  List.inj_on_of_nodup_map h.distinct hs hs' hname

/-- The list has one definition for a name, and all of the set have its body. -/
lemma Represents.agree (h : Represents P merged) : Agree P := by
  intro d d' hd hd' hname
  obtain ⟨s, hs, hsame⟩ := h.complete d hd
  obtain ⟨s', hs', hsame'⟩ := h.complete d' hd'
  have heq : s = s' := h.eq_of_name_eq hs hs' ((hsame.1.trans hname).trans hsame'.1.symm)
  rw [← hsame.2, ← hsame'.2, heq]

lemma Represents.mem_names_iff (h : Represents P merged) {name : String} :
    name ∈ merged.map (·.definition.name) ↔ ∃ d, P d ∧ d.name = name := by
  constructor
  · intro hname
    obtain ⟨s, hs, rfl⟩ := List.mem_map.mp hname
    exact ⟨s.definition, h.sound s hs, rfl⟩
  · rintro ⟨d, hd, rfl⟩
    obtain ⟨s, hs, hsame⟩ := h.complete d hd
    exact List.mem_map.mpr ⟨s, hs, hsame.1⟩

lemma find?_name_eq_none_iff : merged.find? (·.definition.name == s.definition.name) = none ↔
    s.definition.name ∉ merged.map (·.definition.name) := by
  simp [List.find?_eq_none]

/-- A definition is added, or is there already. -/
lemma mergeDefinition_eq_ok_iff : mergeDefinition merged s = .ok merged' ↔
    s.definition.name ∉ merged.map (·.definition.name) ∧ merged' = merged ++ [s] ∨
      ∃ first, merged.find? (·.definition.name == s.definition.name) = some first ∧
        first.definition.body.text = s.definition.body.text ∧ merged' = merged := by
  rw [mergeDefinition, ← find?_name_eq_none_iff]
  cases hfind : merged.find? (·.definition.name == s.definition.name) with
  | none => simp [eq_comm]
  | some first =>
    by_cases htext : first.definition.body.text = s.definition.body.text
    · simp [htext, eq_comm]
    · by_cases horigin : first.origin = s.origin <;> simp [htext, horigin]

lemma Represents.mergeDefinition (h : Represents P merged)
    (hmerge : LabeledPeg.mergeDefinition merged s = .ok merged') :
    Represents (fun d => P d ∨ d = s.definition) merged' := by
  rcases mergeDefinition_eq_ok_iff.mp hmerge with ⟨hnew, rfl⟩ | ⟨first, hfind, htext, rfl⟩
  · refine ⟨?_, fun s' hs' => ?_, fun d hd => ?_⟩
    · rw [List.map_append, List.nodup_append]
      refine ⟨h.distinct, by simp, ?_⟩
      rintro name hname _ hlast rfl
      obtain rfl : name = s.definition.name := by simpa using hlast
      exact hnew hname
    · rcases List.mem_append.mp hs' with hs' | hs'
      · exact .inl (h.sound s' hs')
      · exact .inr (by rw [List.mem_singleton.mp hs'])
    · rcases hd with hd | rfl
      · obtain ⟨s', hs', hsame⟩ := h.complete d hd
        exact ⟨s', List.mem_append_left _ hs', hsame⟩
      · exact ⟨s, by simp, rfl, rfl⟩
  · refine ⟨h.distinct, fun s' hs' => .inl (h.sound s' hs'), fun d hd => ?_⟩
    rcases hd with hd | rfl
    · exact h.complete d hd
    · have hname : first.definition.name = s.definition.name := by
        simpa using List.find?_some hfind
      exact ⟨first, List.mem_of_find?_eq_some hfind, hname, htext⟩

lemma Represents.mergeDefinitions {sources : List Sourced} (h : Represents P merged)
    (hmerge : LabeledPeg.mergeDefinitions merged sources = .ok merged') :
    Represents (fun d => P d ∨ ∃ s ∈ sources, d = s.definition) merged' := by
  induction sources generalizing P merged with
  | nil =>
    obtain rfl : merged = merged' := Except.ok.inj hmerge
    exact h.congr fun d => by simp
  | cons s sources ih =>
    obtain ⟨next, hnext, hrest⟩ := mergeDefinitions_cons_eq_ok_iff.mp hmerge
    exact (ih (h.mergeDefinition hnext) hrest).congr fun d => by simp [or_assoc]

/-- Merging represents the union. -/
lemma Represents.merge (h : Represents P merged) (htaken : Represents Q taken)
    (hmerge : LabeledPeg.mergeDefinitions merged taken = .ok merged') :
    Represents (fun d => P d ∨ Q d) merged' := by
  have hunion := h.mergeDefinitions hmerge
  refine ⟨hunion.distinct, fun s hs => ?_, fun d hd => ?_⟩
  · rcases hunion.sound s hs with hP | ⟨s', hs', heq⟩
    · exact .inl hP
    · exact .inr (heq ▸ htaken.sound s' hs')
  · rcases hd with hP | hQ
    · exact hunion.complete d (.inl hP)
    · obtain ⟨s, hs, hsame⟩ := htaken.complete d hQ
      obtain ⟨s', hs', hsame'⟩ := hunion.complete s.definition (.inr ⟨s, hs, rfl⟩)
      exact ⟨s', hs', hsame'.1.trans hsame.1, hsame'.2.trans hsame.2⟩

/-- Definitions that agree with a list and with one another can be merged into it. -/
lemma exists_mergeDefinitions {sources : List Sourced}
    (h : Agree fun d => (∃ s ∈ merged, d = s.definition) ∨ ∃ s ∈ sources, d = s.definition) :
    ∃ merged', mergeDefinitions merged sources = .ok merged' := by
  induction sources generalizing merged with
  | nil => exact ⟨merged, rfl⟩
  | cons s sources ih =>
    have hnext : ∃ next, mergeDefinition merged s = .ok next ∧
        ∀ s' ∈ next, s' ∈ merged ∨ s' = s := by
      cases hfind : merged.find? (·.definition.name == s.definition.name) with
      | none =>
        have hnew := find?_name_eq_none_iff.mp hfind
        exact ⟨merged ++ [s], mergeDefinition_eq_ok_iff.mpr (.inl ⟨hnew, rfl⟩), by simp⟩
      | some first =>
        have hmem := List.mem_of_find?_eq_some hfind
        have hname : first.definition.name = s.definition.name := by
          simpa using List.find?_some hfind
        have htext := h _ _ (.inl ⟨first, hmem, rfl⟩) (.inr ⟨s, by simp, rfl⟩) hname
        exact ⟨merged, mergeDefinition_eq_ok_iff.mpr (.inr ⟨first, hfind, htext, rfl⟩),
          fun s' hs' => .inl hs'⟩
    obtain ⟨next, hmerge, hmem⟩ := hnext
    have hsub : ∀ d, ((∃ s ∈ next, d = s.definition) ∨ ∃ s ∈ sources, d = s.definition) →
        (∃ s ∈ merged, d = s.definition) ∨ ∃ s' ∈ s :: sources, d = s'.definition := by
      rintro d (⟨s', hs', rfl⟩ | ⟨s', hs', rfl⟩)
      · rcases hmem s' hs' with hs' | rfl
        · exact .inl ⟨s', hs', rfl⟩
        · exact .inr ⟨s', by simp, rfl⟩
      · exact .inr ⟨s', by simp [hs'], rfl⟩
    obtain ⟨merged', hmerged'⟩ := ih fun d d' hd hd' => h d d' (hsub d hd) (hsub d' hd')
    exact ⟨merged', mergeDefinitions_cons_eq_ok_iff.mpr ⟨next, hmerge, hmerged'⟩⟩

/-- Definitions with distinct names are merged as they are. -/
lemma mergeDefinitions_of_nodup {sources : List Sourced}
    (h : ((merged ++ sources).map (·.definition.name)).Nodup) :
    mergeDefinitions merged sources = .ok (merged ++ sources) := by
  induction sources generalizing merged with
  | nil => rw [mergeDefinitions, List.append_nil]
  | cons s sources ih =>
    have hnew : s.definition.name ∉ merged.map (·.definition.name) := by
      rw [List.map_append, List.nodup_append] at h
      intro hmem
      exact h.2.2 _ hmem _ (by simp) rfl
    rw [List.append_cons] at h ⊢
    exact mergeDefinitions_cons_eq_ok_iff.mpr
      ⟨merged ++ [s], mergeDefinition_eq_ok_iff.mpr (.inl ⟨hnew, rfl⟩), ih h⟩

lemma mergeDefinitions_own (g : Grammar) (origin : String) :
    mergeDefinitions [] (g.definitions.map (⟨·, origin⟩)) =
      .ok (g.definitions.map (⟨·, origin⟩)) := by
  apply mergeDefinitions_of_nodup
  rw [List.nil_append, List.map_map]
  exact g.distinct

lemma represents_own (g : Grammar) (origin : String) :
    Represents (· ∈ g.definitions) (g.definitions.map (⟨·, origin⟩)) := by
  refine ⟨?_, fun s hs => ?_, fun d hd => ?_⟩
  · rw [List.map_map]
    exact g.distinct
  · obtain ⟨d, hd, rfl⟩ := List.mem_map.mp hs
    exact hd
  · exact ⟨⟨d, origin⟩, List.mem_map_of_mem hd, rfl, rfl⟩

end Represent

section Select

variable {P : Definition → Prop} {closed taken : List Sourced} {i : Import}

/-- An import that asks for names takes what they reach, if all of them are there. -/
lemma Represents.select_eq (h : Represents P closed) (htakes : i.takesAll = false) :
    ∃ view : Grammar, view.definitions = closed.map (·.definition) ∧
      i.select closed = match i.names.find? (fun name => !view.defines name) with
        | some name => .error (.missingImport name i.path i.span)
        | none => .ok (closed.filter fun s => (view.reachable i.names).contains s.definition.name) := by
  have hdistinct : ((closed.map (·.definition)).map Rule.name).Nodup := by
    rw [List.map_map]
    exact h.distinct
  obtain ⟨view, hbuild, -, hview⟩ := Grammar.exists_build [] i.span hdistinct
  refine ⟨view, hview, ?_⟩
  rw [Import.select, htakes, if_neg (by simp), hbuild]
  rfl

lemma Represents.defines_iff (h : Represents P closed) {view : Grammar}
    (hview : view.definitions = closed.map (·.definition)) {name : String} :
    view.defines name = true ↔ ∃ d, P d ∧ d.name = name := by
  rw [Grammar.defines_iff, Grammar.names, hview, List.map_map]
  exact h.mem_names_iff

lemma Import.names_eq_nil (h : i.takesAll = true) : i.names = [] := by
  simpa [Import.takesAll] using h

lemma Represents.exists_select (h : Represents P closed)
    (hdefined : ∀ name ∈ i.names, ∃ d, P d ∧ d.name = name) :
    ∃ taken, i.select closed = .ok taken := by
  cases htakes : i.takesAll with
  | true => exact ⟨closed, by rw [Import.select, if_pos htakes]⟩
  | false =>
    obtain ⟨view, hview, hselect⟩ := h.select_eq htakes
    have hnone : i.names.find? (fun name => !view.defines name) = none := by
      rw [List.find?_eq_none]
      intro name hname
      simp [(h.defines_iff hview).mpr (hdefined name hname)]
    rw [hselect, hnone]
    exact ⟨_, rfl⟩

lemma Represents.select_eq_ok (h : Represents P closed) (hselect : i.select closed = .ok taken) :
    (∀ name ∈ i.names, ∃ d, P d ∧ d.name = name) ∧
      (i.takesAll = true ∧ taken = closed ∨ i.takesAll = false ∧
        ∃ view : Grammar, view.definitions = closed.map (·.definition) ∧
          taken = closed.filter fun s => (view.reachable i.names).contains s.definition.name) := by
  cases htakes : i.takesAll with
  | true =>
    rw [Import.select, if_pos htakes] at hselect
    refine ⟨?_, .inl ⟨rfl, (Except.ok.inj hselect).symm⟩⟩
    rw [Import.names_eq_nil htakes]
    exact List.forall_mem_nil _
  | false =>
    obtain ⟨view, hview, heq⟩ := h.select_eq htakes
    rw [heq] at hselect
    cases hfind : i.names.find? (fun name => !view.defines name) with
    | some name =>
      rw [hfind] at hselect
      cases hselect
    | none =>
      rw [hfind] at hselect
      refine ⟨fun name hname => ?_, .inr ⟨rfl, view, hview, (Except.ok.inj hselect).symm⟩⟩
      have hdefines := List.find?_eq_none.mp hfind name hname
      exact (h.defines_iff hview).mp (by simpa using hdefines)

end Select

section Selection

variable {sources : Sources} {behind view : Grammar} {closed taken : List Sourced} {i : Import}
  {names : List String}

/-- Definitions with one text refer to the same names. -/
lemma exists_reference_of_same {d d' : Definition} (hd : d.body.IsNormal) (hd' : d'.body.IsNormal)
    (hsame : d'.Same d) {r : Reference} (hr : r ∈ d.body.references) :
    ∃ r' ∈ d'.body.references, r'.name = r.name := by
  have hunspanned := hd'.unspanned_eq hd hsame.2
  have hnames : d'.body.references.map Reference.name = d.body.references.map Reference.name := by
    rw [← Expr.references_unspanned, hunspanned, Expr.references_unspanned]
  have hmem : r.name ∈ d'.body.references.map Reference.name := by
    rw [hnames]
    exact List.mem_map_of_mem hr
  exact List.mem_map.mp hmem

lemma belongs_of_reaches (hclosed : Represents (sources.Closed behind) closed)
    (hview : view.definitions = closed.map (·.definition)) {name : String}
    (h : view.Reaches names name) {d : Definition} (hd : sources.Closed behind d)
    (hname : d.name = name) : sources.Belongs behind (some names) d := by
  induction h generalizing d with
  | root hroot _ => exact .asked hd (hname ▸ hroot)
  | @step from' r _ hfrom hr _ ih =>
    have hbehind : sources.Closed behind from' := by
      rw [hview] at hfrom
      obtain ⟨s, hs, rfl⟩ := List.mem_map.mp hfrom
      exact hclosed.sound s hs
    exact .needed (ih hbehind rfl) hr hd hname

/-- What belongs to the part of a closed set that names select is reached from them in the list that
represents the set. -/
lemma exists_reaches_of_belongs (hnormal : ∀ d, sources.Closed behind d → d.body.IsNormal)
    (hclosed : Represents (sources.Closed behind) closed)
    (hview : view.definitions = closed.map (·.definition)) {d : Definition}
    (h : sources.Belongs behind (some names) d) :
    ∃ s ∈ closed, s.definition.Same d ∧ view.Reaches names s.definition.name := by
  have hnames : ∀ s ∈ closed, s.definition.name ∈ view.names := by
    intro s hs
    rw [Grammar.names, hview, List.map_map]
    exact List.mem_map_of_mem hs
  generalize hselection : some names = selection at h
  induction h with
  | own _ => cases hselection
  | imported _ _ _ _ => cases hselection
  | asked hd hname _ =>
    cases hselection
    obtain ⟨s, hs, hsame⟩ := hclosed.complete _ hd
    exact ⟨s, hs, hsame, .root (hsame.1 ▸ hname) (hnames s hs)⟩
  | needed hd hr hd' hname ih _ =>
    cases hselection
    obtain ⟨s, hs, hsame, hreaches⟩ := ih hnormal hclosed rfl
    obtain ⟨s', hs', hsame'⟩ := hclosed.complete _ hd'
    -- the list may hold another definition of that name, which refers to the same names
    obtain ⟨r', hr', hrname⟩ := exists_reference_of_same (hnormal _ hd.closed)
      (hnormal _ (hclosed.sound s hs)) hsame hr
    have hto : s'.definition.name = r'.name := (hsame'.1.trans hname).trans hrname.symm
    have hmem : s.definition ∈ view.definitions := by
      rw [hview]
      exact List.mem_map_of_mem hs
    refine ⟨s', hs', hsame', ?_⟩
    rw [hto]
    exact .step hreaches hmem hr' (hto ▸ hnames s' hs')

/-- What an import takes represents what it selects. -/
theorem Represents.select (hnormal : ∀ d, sources.Closed behind d → d.body.IsNormal)
    (hclosed : Represents (sources.Closed behind) closed) (hselect : i.select closed = .ok taken) :
    Represents (sources.Belongs behind i.selection) taken := by
  obtain ⟨-, ⟨htakes, rfl⟩ | ⟨htakes, view, hview, rfl⟩⟩ := hclosed.select_eq_ok hselect
  · rw [Import.selection, if_pos htakes]
    exact hclosed
  · rw [Import.selection, if_neg (by simp [htakes])]
    have hmem : ∀ s, s ∈ (closed.filter fun s =>
        (view.reachable i.names).contains s.definition.name) ↔
          s ∈ closed ∧ view.Reaches i.names s.definition.name := by
      intro s
      rw [List.mem_filter, List.contains_iff_mem, Grammar.mem_reachable_iff]
    refine ⟨?_, fun s hs => ?_, fun d hd => ?_⟩
    · exact (List.filter_sublist.map _).nodup hclosed.distinct
    · obtain ⟨hs, hreaches⟩ := (hmem s).mp hs
      exact belongs_of_reaches hclosed hview hreaches (hclosed.sound s hs) rfl
    · obtain ⟨s, hs, hsame, hreaches⟩ := exists_reaches_of_belongs hnormal hclosed hview hd
      exact ⟨s, (hmem s).mpr ⟨hs, hreaches⟩, hsame⟩

end Selection

end LabeledPeg
