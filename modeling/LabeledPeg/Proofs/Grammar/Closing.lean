import LabeledPeg.Proofs.Grammar.Selection

/-!
# Closing represents the closed set

Closing a grammar succeeds exactly if all that its imports lead to is there, on no cycle, and
consistent; then the result represents the closed set. What a walk remembers stays true of the
library, and a path that is being closed is reached by none of the paths below it. The paths being
closed are distinct, so that a walk through a library ends.
-/

namespace LabeledPeg

section Finish

variable {resolve : Resolver} {library : Library} {inProgress : List String} {path : String}

lemma finishes_closedBehind
    {close : List String → String → Grammar → Run GrammarError Walk (List Sourced)}
    (h : path ∉ inProgress → ∀ g, resolve path = .ok g →
      (close (inProgress ++ [path]) path g).Finishes) :
    (closedBehind resolve close inProgress path).Finishes := by
  unfold closedBehind
  by_cases hpath : inProgress.contains path
  · rw [if_pos hpath]
    exact Run.finishes_fail
  · rw [if_neg hpath]
    refine Run.finishes_current.bind fun w => ?_
    cases w.closed? path with
    | some closed => exact Run.finishes_pure
    | none =>
      refine Run.finishes_update.bind fun _ => Run.finishes_ofExcept_bind fun g hg => ?_
      have hclose := h (by simpa using hpath) g hg
      exact hclose.bind fun closed => Run.finishes_update.bind fun _ => Run.finishes_pure

lemma finishes_mergeImports {closedAt : String → Run GrammarError Walk (List Sourced)}
    {imports : List Import} {merged : List Sourced} (h : ∀ path, (closedAt path).Finishes) :
    (mergeImports closedAt merged imports).Finishes := by
  induction imports generalizing merged with
  | nil => exact Run.finishes_pure
  | cons i imports ih =>
    unfold mergeImports
    exact (h i.path).bind fun closed => Run.finishes_ofExcept_bind fun taken _ =>
      Run.finishes_ofExcept_bind fun next _ => ih

/-- The entries of a library whose paths are not being closed. -/
def Library.remaining (library : Library) (inProgress : List String) : Library :=
  library.filter fun entry => !inProgress.contains entry.1

lemma Library.length_remaining_lt {g : Grammar} (hpath : path ∉ inProgress)
    (hg : library.lookup path = some g) :
    (library.remaining (inProgress ++ [path])).length < (library.remaining inProgress).length := by
  have hfilter : library.remaining (inProgress ++ [path]) =
      (library.remaining inProgress).filter fun entry => !decide (entry.1 = path) := by
    unfold remaining
    rw [List.filter_filter]
    congr 1
    funext entry
    simp [Bool.and_comm, Bool.not_or]
  have hmem : (path, g) ∈ library.remaining inProgress := by
    obtain ⟨before, after, heq, -⟩ := List.lookup_eq_some_iff.mp hg
    rw [remaining, List.mem_filter, heq]
    simp [hpath]
  rw [hfilter, List.length_filter_lt_length_iff_exists]
  exact ⟨(path, g), hmem, by simp⟩

lemma Library.resolve_eq_ok_iff {g : Grammar} :
    library.resolve path = .ok g ↔ library.lookup path = some g := by
  unfold resolve
  cases library.lookup path <;> simp

/-- A path that is being closed is not closed inside itself, so that no more grammars are closed
inside one another than the library holds. -/
theorem finishes_closeGrammar {depth : Nat} {origin : String} {g : Grammar}
    (hdepth : (library.remaining inProgress).length < depth) :
    (closeGrammar library.resolve depth inProgress origin g).Finishes := by
  induction depth generalizing inProgress origin g with
  | zero => omega
  | succ depth ih =>
    unfold closeGrammar
    refine Run.finishes_ofExcept_bind fun own _ => finishes_mergeImports fun path => ?_
    refine finishes_closedBehind fun hpath behind hbehind => ih ?_
    have hlookup := Library.resolve_eq_ok_iff.mp hbehind
    -- one path of the library more is being closed
    have hless := Library.length_remaining_lt hpath hlookup
    omega

end Finish

namespace Sources

variable {sources : Sources} {path path' : String} {g : Grammar}

/-- Whether a list is what closing the grammar behind a path has to return. -/
structure Provides (sources : Sources) (path : String) (closed : List Sourced) : Prop where
  closable : sources.Closable path
  represents : ∃ behind, sources path = some behind ∧ Represents (sources.Closed behind) closed

/-- A path can be closed if its grammar is consistent and the paths that it imports can be closed: a
cycle through it would go through one of them. -/
lemma closable_of_imports (hg : sources path = some g) (hconsistent : sources.Consistent g)
    (himports : ∀ i ∈ g.imports, sources.Closable i.path) : sources.Closable path := by
  have hedge : ∀ path', sources.Edge path path' → sources.Closable path' := by
    rintro path' ⟨g', hg', i, hi, rfl⟩
    rw [hg] at hg'
    obtain rfl : g = g' := Option.some.inj hg'
    exact himports i hi
  intro path' hleads
  rcases Relation.ReflTransGen.cases_head hleads with rfl | ⟨next, hnext, hrest⟩
  · refine ⟨⟨g, hg, hconsistent⟩, fun hcycle => ?_⟩
    -- the first import of the cycle leads back to the path, and can be closed
    obtain ⟨next, hnext, hback⟩ := Relation.TransGen.head'_iff.mp hcycle
    exact (hedge next hnext path hback).2 hcycle
  · exact hedge next hnext path' hrest

end Sources

/-- Whether everything that a walk remembers is true of the grammars behind the paths. -/
def Walk.Sound (sources : Sources) (w : Walk) : Prop :=
  ∀ entry ∈ w.cache, sources.Provides entry.1 entry.2

/-- Whether a resolver finds the grammar behind every path that is not being closed. -/
def Resolver.Finds (resolve : Resolver) (sources : Sources) (inProgress : List String) : Prop :=
  ∀ path, path ∉ inProgress → ∀ g, resolve path = .ok g ↔ sources path = some g

section Sound

variable {sources : Sources} {resolve : Resolver} {inProgress : List String} {path : String}
  {closed merged taken next behind : List Sourced} {w w' : Walk} {P : Definition → Prop} {i : Import}

lemma Resolver.Finds.append (h : resolve.Finds sources inProgress) :
    resolve.Finds sources (inProgress ++ [path]) := by
  intro path' hpath'
  exact h path' fun hmem => hpath' (List.mem_append_left _ hmem)

lemma Walk.Sound.visit (h : w.Sound sources) : (w.visit inProgress).Sound sources := h

lemma Walk.Sound.remember (h : w.Sound sources) (hprovides : sources.Provides path closed) :
    (w.remember path closed).Sound sources := by
  intro entry hentry
  rcases List.mem_cons.mp hentry with rfl | hentry
  · exact hprovides
  · exact h entry hentry

/-- Whether all bodies behind the paths are in normal form, so that their texts tell them apart. -/
def Sources.Normal (sources : Sources) : Prop :=
  ∀ path g, sources path = some g → ∀ d ∈ g.definitions, d.body.IsNormal

lemma Sources.Normal.of_closed (hnormal : sources.Normal) {g : Grammar}
    (hg : sources path = some g) : ∀ d, sources.Closed g d → d.body.IsNormal :=
  fun _ hd => hd.holds hnormal (hnormal path g hg)

/-- Whether what is closed behind a path is what it has to be, if it was so for all remembered
ones. -/
def Sources.ClosesAt (sources : Sources)
    (closedAt : String → Run GrammarError Walk (List Sourced)) : Prop :=
  ∀ {path closed w w'}, w.Sound sources → closedAt path w = .success closed w' →
    sources.Provides path closed ∧ w'.Sound sources

/-- What one import takes, merged into what was there. -/
lemma Sources.Provides.merge (hnormal : sources.Normal)
    (h : sources.Provides i.path behind) (hselect : i.select behind = .ok taken)
    (hmerged : Represents P merged) (hnext : mergeDefinitions merged taken = .ok next) :
    (∀ name ∈ i.names, sources.Defines i.path name) ∧
      Represents (fun d => P d ∨ sources.Selects i d) next := by
  obtain ⟨g, hg, hclosed⟩ := h.represents
  refine ⟨fun name hname => ⟨g, hg, (hclosed.select_eq_ok hselect).1 name hname⟩, ?_⟩
  have hselected := hclosed.select (hnormal.of_closed hg) hselect
  exact (hmerged.merge hselected hnext).congr fun d => by rw [Sources.selects_iff hg]

lemma mergeImports_sound (hnormal : sources.Normal)
    {closedAt : String → Run GrammarError Walk (List Sourced)}
    (hclosedAt : sources.ClosesAt closedAt)
    {imports : List Import} (hmerged : Represents P merged) (hw : w.Sound sources)
    (h : mergeImports closedAt merged imports w = .success closed w') :
    (∀ i ∈ imports, sources.Closable i.path ∧ ∀ name ∈ i.names, sources.Defines i.path name) ∧
      Represents (fun d => P d ∨ ∃ i ∈ imports, sources.Selects i d) closed ∧ w'.Sound sources := by
  induction imports generalizing P merged w with
  | nil =>
    obtain ⟨rfl, rfl⟩ := Outcome.success.inj h
    exact ⟨List.forall_mem_nil _, hmerged.congr fun d => by simp, hw⟩
  | cons i imports ih =>
    obtain ⟨behind, w₁, taken, next, hbehind, htaken, hnext, hrest⟩ :=
      mergeImports_cons_eq_success.mp h
    obtain ⟨hprovides, hw₁⟩ := hclosedAt hw hbehind
    obtain ⟨hdefined, hrepresents⟩ := hprovides.merge hnormal htaken hmerged hnext
    obtain ⟨himports, hclosed, hw'⟩ := ih hrepresents hw₁ hrest
    refine ⟨List.forall_mem_cons.mpr ⟨⟨hprovides.closable, hdefined⟩, himports⟩, ?_, hw'⟩
    exact hclosed.congr fun d => by simp [or_assoc]

/-- What closing a grammar has to achieve. -/
structure Sources.Closes (sources : Sources) (g : Grammar) (closed : List Sourced) (w : Walk) :
    Prop where
  closable : ∀ i ∈ g.imports, sources.Closable i.path
  consistent : sources.Consistent g
  represents : Represents (sources.Closed g) closed
  sound : w.Sound sources

lemma closedBehind_sound (hfinds : resolve.Finds sources inProgress)
    {close : List String → String → Grammar → Run GrammarError Walk (List Sourced)}
    (hclose : ∀ {path g closed} {w w' : Walk}, w.Sound sources →
      close (inProgress ++ [path]) path g w = .success closed w' → sources.Closes g closed w')
    (hw : w.Sound sources) (h : closedBehind resolve close inProgress path w = .success closed w') :
    sources.Provides path closed ∧ w'.Sound sources := by
  obtain ⟨hpath, ⟨hcached, rfl⟩ | ⟨-, g, w₁, hresolve, hclosed, rfl⟩⟩ := closedBehind_eq_success h
  · exact ⟨hw (path, closed) (Walk.mem_of_closed?_eq_some hcached), hw⟩
  · have hg := (hfinds path hpath g).mp hresolve
    have hcloses := hclose hw.visit hclosed
    have hprovides : sources.Provides path closed :=
      ⟨Sources.closable_of_imports hg hcloses.consistent hcloses.closable, g, hg, hcloses.represents⟩
    exact ⟨hprovides, hcloses.sound.remember hprovides⟩

/-- If closing a grammar succeeds, the paths that it imports can be closed, the grammar is
consistent, and the result represents its closed set. -/
theorem closeGrammar_sound (hnormal : sources.Normal)
    {depth : Nat} {origin : String} {g : Grammar} (hfinds : resolve.Finds sources inProgress)
    (hw : w.Sound sources)
    (h : closeGrammar resolve depth inProgress origin g w = .success closed w') :
    sources.Closes g closed w' := by
  induction depth generalizing inProgress origin g closed w w' with
  | zero => cases h
  | succ depth ih =>
    obtain ⟨own, hown, hmerge⟩ := closeGrammar_succ_eq_success.mp h
    obtain rfl := Except.ok.inj ((mergeDefinitions_own g origin).symm.trans hown)
    obtain ⟨himports, hmerged, hw'⟩ := mergeImports_sound hnormal
      (closedBehind_sound hfinds (ih hfinds.append)) (represents_own g origin) hw hmerge
    have hclosed : Represents (sources.Closed g) closed :=
      hmerged.congr fun d => Sources.closed_iff.symm
    exact ⟨fun i hi => (himports i hi).1, ⟨fun i hi => (himports i hi).2, hclosed.agree⟩, hclosed,
      hw'⟩

end Sound

section Complete

variable {sources : Sources} {resolve : Resolver} {inProgress : List String}
  {closed merged : List Sourced} {w w' : Walk} {P : Definition → Prop}

/-- Merging what imports take does not fail if closing what is behind them does not, the names are
there, and all of it agrees. -/
lemma mergeImports_ne_failure (hnormal : sources.Normal)
    {closedAt : String → Run GrammarError Walk (List Sourced)}
    (hclosedAt : sources.ClosesAt closedAt)
    {imports : List Import} (hsucceeds : ∀ i ∈ imports, ∀ {w e w'}, w.Sound sources →
      closedAt i.path w ≠ .failure e w')
    (hdefined : ∀ i ∈ imports, ∀ name ∈ i.names, sources.Defines i.path name)
    (hmerged : Represents P merged)
    (hagree : Agree fun d => P d ∨ ∃ i ∈ imports, sources.Selects i d) (hw : w.Sound sources)
    {e : GrammarError} : mergeImports closedAt merged imports w ≠ .failure e w' := by
  induction imports generalizing P merged w with
  | nil => exact fun h => nomatch h
  | cons i imports ih =>
    intro h
    have hselect : ∀ {behind w₁}, closedAt i.path w = .success behind w₁ →
        ∃ g taken, sources i.path = some g ∧ i.select behind = .ok taken ∧
          Represents (sources.Belongs g i.selection) taken := by
      intro behind w₁ hbehind
      obtain ⟨g, hg, hclosed⟩ := (hclosedAt hw hbehind).1.represents
      have hnames : ∀ name ∈ i.names, ∃ d, sources.Closed g d ∧ d.name = name := by
        intro name hname
        rw [← Sources.defines_iff hg]
        exact hdefined i (by simp) name hname
      obtain ⟨taken, htaken⟩ := hclosed.exists_select hnames
      exact ⟨g, taken, hg, htaken, hclosed.select (hnormal.of_closed hg) htaken⟩
    obtain hfailure | ⟨behind, w₁, hbehind, herror | ⟨taken, htaken, hmerge⟩⟩ :=
      mergeImports_cons_eq_failure h
    · exact hsucceeds i (by simp) hw hfailure
    · obtain ⟨g, taken, -, htaken, -⟩ := hselect hbehind
      rw [htaken] at herror
      cases herror
    obtain ⟨g, taken', hg, htaken', hselected⟩ := hselect hbehind
    rw [htaken] at htaken'
    obtain rfl : taken = taken' := Except.ok.inj htaken'
    rcases hmerge with herror | ⟨next, hnext, hrest⟩
    · have hin : ∀ d, ((∃ s ∈ merged, d = s.definition) ∨ ∃ s ∈ taken, d = s.definition) →
          P d ∨ ∃ i' ∈ i :: imports, sources.Selects i' d := by
        rintro d (⟨s, hs, rfl⟩ | ⟨s, hs, rfl⟩)
        · exact .inl (hmerged.sound s hs)
        · exact .inr ⟨i, by simp, g, hg, hselected.sound s hs⟩
      obtain ⟨next, hnext⟩ :=
        exists_mergeDefinitions fun d d' hd hd' => hagree d d' (hin d hd) (hin d' hd')
      rw [hnext] at herror
      cases herror
    · obtain ⟨hprovides, hw₁⟩ := hclosedAt hw hbehind
      obtain ⟨-, hrepresents⟩ := hprovides.merge hnormal htaken hmerged hnext
      refine ih (fun i hi => hsucceeds i (by simp [hi])) (fun i hi => hdefined i (by simp [hi]))
        hrepresents (fun d d' hd hd' => hagree d d' ?_ ?_) hw₁ hrest
      · simpa [or_assoc] using hd
      · simpa [or_assoc] using hd'

/-- Closing a grammar does not fail if the paths that it imports can be closed and lead to none that
is being closed, and the grammar is consistent. -/
theorem closeGrammar_ne_failure (hnormal : sources.Normal)
    {depth : Nat} {origin : String} {g : Grammar} {e : GrammarError}
    (hfinds : resolve.Finds sources inProgress)
    (hclosable : ∀ i ∈ g.imports, sources.Closable i.path) (hconsistent : sources.Consistent g)
    (hfresh : ∀ i ∈ g.imports, ∀ path, sources.Leads i.path path → path ∉ inProgress)
    (hw : w.Sound sources) : closeGrammar resolve depth inProgress origin g w ≠ .failure e w' := by
  induction depth generalizing inProgress origin g e w w' with
  | zero => exact fun h => nomatch h
  | succ depth ih =>
    intro h
    obtain herror | ⟨own, hown, hmerge⟩ := closeGrammar_succ_eq_failure h
    · rw [mergeDefinitions_own] at herror
      cases herror
    obtain rfl := Except.ok.inj ((mergeDefinitions_own g origin).symm.trans hown)
    have hclose : ∀ {path g closed} {w w' : Walk}, w.Sound sources →
        closeGrammar resolve depth (inProgress ++ [path]) path g w = .success closed w' →
          sources.Closes g closed w' :=
      fun hw => closeGrammar_sound hnormal hfinds.append hw
    refine mergeImports_ne_failure hnormal (closedBehind_sound hfinds hclose) ?_
      hconsistent.defined (represents_own g origin) ?_ hw hmerge
    · intro i hi w e w' hw hfailure
      have hpath : i.path ∉ inProgress := hfresh i hi i.path .refl
      obtain ⟨⟨behind, hbehind, hconsistent⟩, hacyclic⟩ := hclosable i hi i.path .refl
      have hresolve := (hfinds i.path hpath behind).mpr hbehind
      obtain hmem | herror | ⟨g', hg', hfailure⟩ := closedBehind_eq_failure hfailure
      · exact hpath hmem
      · rw [hresolve] at herror
        cases herror
      rw [hresolve] at hg'
      obtain rfl : behind = g' := Except.ok.inj hg'
      have hedge : ∀ i' ∈ behind.imports, sources.Edge i.path i'.path :=
        fun i' hi' => ⟨behind, hbehind, i', hi', rfl⟩
      refine ih hfinds.append (fun i' hi' => ?_) hconsistent (fun i' hi' path hleads => ?_)
        hw.visit hfailure
      · exact (hclosable i hi).of_leads (.single (hedge i' hi'))
      · -- a path below `i.path` that is being closed is one above it, or makes a cycle of it
        intro hmem
        rcases List.mem_append.mp hmem with hmem | hmem
        · exact hfresh i hi path (.head (hedge i' hi') hleads) hmem
        · obtain rfl := List.mem_singleton.mp hmem
          exact hacyclic (Relation.TransGen.head' (hedge i' hi') hleads)
    · intro d d' hd hd'
      exact hconsistent.agree d d' (Sources.closed_iff.mpr hd) (Sources.closed_iff.mpr hd')

end Complete

end LabeledPeg
