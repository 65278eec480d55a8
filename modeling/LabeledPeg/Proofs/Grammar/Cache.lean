import LabeledPeg.Proofs.Grammar.Selection

/-!
# Assembly without a memory

The grammar behind a path is closed once, and taken from the cache from then on. Nothing else comes
of it: assembly ends as it does if every import is resolved and closed anew each time it is met,
with the same grammar or the same error, and the resolver is asked for no path twice.

A closed grammar is the same whatever paths are in progress, as long as no import below it is among
them. The imports below a remembered grammar are remembered as well, and a path in progress is not.
So what is found in the cache would be found anew.
-/

namespace LabeledPeg

namespace Run

variable {ε σ α β : Type}

/-- Whether one computation ends as another one does wherever that one is not cut off, and neither
of them looks at the state or changes it. -/
def Approximates (x x' : Run ε σ α) : Prop :=
  x = cutOff ∨ ∃ r, x = ofExcept r ∧ x' = ofExcept r

lemma approximates_ofExcept (r : Except ε α) :
    (ofExcept r : Run ε σ α).Approximates (ofExcept r) := .inr ⟨r, rfl, rfl⟩

lemma Approximates.bind {x x' : Run ε σ α} {f f' : α → Run ε σ β} (h : x.Approximates x')
    (hf : ∀ a, (f a).Approximates (f' a)) : (x >>= f).Approximates (x' >>= f') := by
  obtain rfl | ⟨r, rfl, rfl⟩ := h
  · exact .inl rfl
  · cases r with
    | ok a => exact hf a
    | error e => exact approximates_ofExcept (.error e)

lemma ofExcept_ok_bind {f : α → Run ε σ β} (a : α) : (ofExcept (.ok a) >>= f) = f a := rfl

lemma ofExcept_error_bind {f : α → Run ε σ β} (e : ε) :
    (ofExcept (.error e) >>= f) = ofExcept (.error e) := rfl

lemma current_bind {f : σ → Run ε σ β} (s : σ) : (current >>= f) s = f s s := rfl

lemma ofExcept_inj [Inhabited σ] {r r' : Except ε α}
    (h : (ofExcept r : Run ε σ α) = ofExcept r') : r = r' := by
  have hstate : (ofExcept r : Run ε σ α) default = ofExcept r' default := congrFun h default
  cases r <;> cases r' <;> simp_all [ofExcept, succeed, fail]

lemma ofExcept_ne_cutOff [Inhabited σ] (r : Except ε α) : (ofExcept r : Run ε σ α) ≠ cutOff := by
  intro h
  have hstate : (ofExcept r : Run ε σ α) default = cutOff default := congrFun h default
  cases r <;> cases hstate

lemma Approximates.eq [Inhabited σ] {x x' : Run ε σ α} (h : x.Approximates x') {r : Except ε α}
    (hx : x = ofExcept r) : x' = ofExcept r := by
  obtain rfl | ⟨r', rfl, rfl⟩ := h
  · exact absurd hx.symm (ofExcept_ne_cutOff r)
  · exact hx

/-- What a computation ends with that does not change with a greater depth is one and the same at
all depths. -/
lemma unique_of_approximates [Inhabited σ] {x : Nat → Run ε σ α}
    (h : ∀ {depth depth'}, depth ≤ depth' → (x depth).Approximates (x depth')) {depth depth' : Nat}
    {r r' : Except ε α} (hr : x depth = ofExcept r) (hr' : x depth' = ofExcept r') : r = r' :=
  ofExcept_inj (((h (le_max_left depth depth')).eq hr).symm.trans
    ((h (le_max_right depth depth')).eq hr'))

end Run

instance : Inhabited Walk := ⟨{}⟩

/-- The closed grammar behind `path`, resolved and closed by `close` in any case. -/
def behindAfresh (resolve : Resolver)
    (close : List String → String → Grammar → Run GrammarError Walk (List Sourced))
    (inProgress : List String) (path : String) : Run GrammarError Walk (List Sourced) := do
  if inProgress.contains path then Run.fail (.importCycle (inProgress ++ [path]))
  else close (inProgress ++ [path]) path (← Run.ofExcept (resolve path))

/-- The closed set of a grammar, for which every import is resolved and closed anew each time it is
met. -/
def closeAfresh (resolve : Resolver) :
    Nat → List String → String → Grammar → Run GrammarError Walk (List Sourced)
  | 0, _, _, _ => Run.cutOff
  | depth + 1, inProgress, origin, g => do
    let own ← Run.ofExcept (mergeDefinitions [] (g.definitions.map (⟨·, origin⟩)))
    mergeImports (behindAfresh resolve (closeAfresh resolve depth) inProgress) own g.imports

/-- Assembles a root grammar with nothing remembered on the way. -/
def Resolver.assembleAfresh (resolve : Resolver) (depth : Nat) (rootPath? : Option String)
    (root : Grammar) : Run GrammarError Walk Grammar := do
  let closed ← closeAfresh resolve depth rootPath?.toList (rootPath?.getD rootOrigin) root
  Run.ofExcept (finishAssembly root closed)

section Afresh

variable {resolve : Resolver} {depth depth' : Nat} {inProgress : List String} {path : String}
  {merged closed : List Sourced} {imports : List Import}

lemma behindAfresh_approximates
    {close close' : List String → String → Grammar → Run GrammarError Walk (List Sourced)}
    (h : ∀ inProgress origin g,
      (close inProgress origin g).Approximates (close' inProgress origin g)) :
    (behindAfresh resolve close inProgress path).Approximates
      (behindAfresh resolve close' inProgress path) := by
  unfold behindAfresh
  split
  · exact Run.approximates_ofExcept (.error _)
  · exact (Run.approximates_ofExcept _).bind fun g => h _ _ g

lemma mergeImports_approximates
    {closedAt closedAt' : String → Run GrammarError Walk (List Sourced)}
    (h : ∀ path, (closedAt path).Approximates (closedAt' path)) :
    (mergeImports closedAt merged imports).Approximates
      (mergeImports closedAt' merged imports) := by
  induction imports generalizing merged with
  | nil => exact Run.approximates_ofExcept (.ok merged)
  | cons i imports ih =>
    unfold mergeImports
    exact (h i.path).bind fun closed => (Run.approximates_ofExcept _).bind fun taken =>
      (Run.approximates_ofExcept _).bind fun next => ih

/-- A greater depth changes nothing where the recursion ended. -/
lemma closeAfresh_approximates (hdepth : depth ≤ depth') (inProgress : List String)
    (origin : String) (g : Grammar) :
    (closeAfresh resolve depth inProgress origin g).Approximates
      (closeAfresh resolve depth' inProgress origin g) := by
  induction depth generalizing depth' inProgress origin g with
  | zero => exact .inl rfl
  | succ depth ih =>
    obtain ⟨depth', rfl⟩ : ∃ n, depth' = n + 1 := ⟨depth' - 1, by omega⟩
    unfold closeAfresh
    exact (Run.approximates_ofExcept _).bind fun own =>
      mergeImports_approximates fun path => behindAfresh_approximates (ih (by omega))

lemma behindAfresh_approximates_of_le (hdepth : depth ≤ depth') :
    (behindAfresh resolve (closeAfresh resolve depth) inProgress path).Approximates
      (behindAfresh resolve (closeAfresh resolve depth') inProgress path) :=
  behindAfresh_approximates (closeAfresh_approximates hdepth)

end Afresh

namespace Walk

/-- The paths that the resolver was asked for, the latest first. -/
def asked (w : Walk) : List String := w.visits.filterMap List.getLast?

lemma asked_visit (w : Walk) (inProgress : List String) (path : String) :
    (w.visit (inProgress ++ [path])).asked = path :: w.asked := by
  simp [asked, visit]

lemma closed?_remember (w : Walk) (path path' : String) (closed : List Sourced) :
    (w.remember path closed).closed? path' =
      if path' = path then some closed else w.closed? path' := by
  simp only [remember, closed?, List.lookup_cons, beq_eq_decide]
  by_cases h : path' = path <;> simp [h]

/-- Whether none of the paths was closed. -/
def Avoids (w : Walk) (paths : List String) : Prop := ∀ path ∈ paths, w.closed? path = none

/-- Whether a walk remembers all that another one does. -/
def Extends (w' w : Walk) : Prop :=
  ∀ path closed, w.closed? path = some closed → w'.closed? path = some closed

variable {w w' w'' : Walk} {paths : List String}

lemma Extends.refl (w : Walk) : w.Extends w := fun _ _ h => h

lemma Extends.trans (h' : w''.Extends w') (h : w'.Extends w) : w''.Extends w :=
  fun path closed hw => h' path closed (h path closed hw)

lemma Extends.avoids (h : w'.Extends w) (hw' : w'.Avoids paths) : w.Avoids paths := by
  intro path hpath
  cases hclosed : w.closed? path with
  | none => rfl
  | some closed =>
    have hnone := hw' path hpath
    rw [h path closed hclosed] at hnone
    cases hnone

lemma Avoids.append {path : String} (h : w.Avoids paths) (hnew : w.closed? path = none) :
    w.Avoids (paths ++ [path]) := by
  intro path' hpath'
  rcases List.mem_append.mp hpath' with hpath' | hpath'
  · exact h path' hpath'
  · obtain rfl := List.mem_singleton.mp hpath'
    exact hnew

/-- What is true of a walk while some paths are in progress: it remembers what would be found anew,
and it asked for no path twice. -/
structure Faithful (resolve : Resolver) (inProgress : List String) (w : Walk) : Prop where
  avoids : w.Avoids inProgress
  afresh : ∀ path closed, w.closed? path = some closed → ∃ depth, ∀ paths, w.Avoids paths →
    behindAfresh resolve (closeAfresh resolve depth) paths path = Run.ofExcept (.ok closed)
  asked : ∀ path ∈ w.asked, path ∈ inProgress ∨ ∃ closed, w.closed? path = some closed
  distinct : w.asked.Nodup

variable {resolve : Resolver} {inProgress : List String} {path : String} {closed : List Sourced}
  {g : Grammar}

lemma Faithful.not_mem_asked (h : w.Faithful resolve inProgress) (hpath : path ∉ inProgress)
    (hnew : w.closed? path = none) : path ∉ w.asked := by
  intro hmem
  obtain hprogress | ⟨closed, hclosed⟩ := h.asked path hmem
  · exact hpath hprogress
  · rw [hnew] at hclosed
    cases hclosed

lemma Faithful.visit (h : w.Faithful resolve inProgress) (hpath : path ∉ inProgress)
    (hnew : w.closed? path = none) :
    (w.visit (inProgress ++ [path])).Faithful resolve (inProgress ++ [path]) := by
  refine ⟨h.avoids.append hnew, h.afresh, fun path' hpath' => ?_, ?_⟩
  · rw [asked_visit] at hpath'
    rcases List.mem_cons.mp hpath' with rfl | hpath'
    · exact .inl (by simp)
    · exact (h.asked path' hpath').imp_left (List.mem_append_left _)
  · rw [asked_visit]
    exact List.nodup_cons.mpr ⟨h.not_mem_asked hpath hnew, h.distinct⟩

lemma extends_remember (hnew : w.closed? path = none) : (w.remember path closed).Extends w := by
  intro path' closed' hclosed'
  have hne : path' ≠ path := by
    rintro rfl
    rw [hnew] at hclosed'
    cases hclosed'
  rw [closed?_remember, if_neg hne, hclosed']

lemma not_mem_of_avoids_remember (h : (w.remember path closed).Avoids paths) : path ∉ paths := by
  intro hmem
  have hnone := h path hmem
  rw [closed?_remember, if_pos rfl] at hnone
  cases hnone

/-- A grammar that was closed while `path` was in progress is remembered for it: the import paths
below it are remembered, so that they are not in progress when it is taken from the cache. -/
lemma Faithful.remember (h : w.Faithful resolve (inProgress ++ [path]))
    (hpath : path ∉ inProgress) (hresolve : resolve path = .ok g) {depth : Nat}
    (hclosed : ∀ paths, w.Avoids paths →
      closeAfresh resolve depth paths path g = Run.ofExcept (.ok closed)) :
    (w.remember path closed).Faithful resolve inProgress := by
  have hnew : w.closed? path = none := h.avoids path (by simp)
  have hextends : (w.remember path closed).Extends w := extends_remember hnew
  refine ⟨fun path' hpath' => ?_, fun path' closed' hclosed' => ?_, fun path' hpath' => ?_,
    h.distinct⟩
  · have hne : path' ≠ path := fun heq => hpath (heq ▸ hpath')
    rw [closed?_remember, if_neg hne]
    exact h.avoids path' (List.mem_append_left _ hpath')
  · rw [closed?_remember] at hclosed'
    split at hclosed'
    · next heq =>
      obtain rfl := Option.some.inj hclosed'
      subst heq
      refine ⟨depth, fun paths hpaths => ?_⟩
      have hnotin : path' ∉ paths := not_mem_of_avoids_remember hpaths
      rw [behindAfresh, if_neg (by simpa using hnotin), hresolve]
      exact hclosed _ ((hextends.avoids hpaths).append hnew)
    · obtain ⟨depth', hafresh⟩ := h.afresh path' closed' hclosed'
      exact ⟨depth', fun paths hpaths => hafresh paths (hextends.avoids hpaths)⟩
  · rcases h.asked path' hpath' with hprogress | ⟨closed', hclosed'⟩
    · rcases List.mem_append.mp hprogress with hprogress | hprogress
      · exact .inl hprogress
      · obtain rfl := List.mem_singleton.mp hprogress
        exact .inr ⟨closed, by rw [closed?_remember, if_pos rfl]⟩
    · exact .inr ⟨closed', hextends path' closed' hclosed'⟩

end Walk

/-- How a computation ends that remembers, if it began with the walk `w` at some depth, compared
with what is done afresh: with the same grammar, whatever paths that were not closed are in progress
then, with the same error, or both are cut off. -/
inductive Agrees (resolve : Resolver) (depth : Nat) (inProgress : List String) (w : Walk)
    (afresh : Nat → List String → Run GrammarError Walk (List Sourced)) :
    Outcome GrammarError Walk (List Sourced) → Prop
  | success {closed : List Sourced} {w' : Walk} (hw' : w'.Faithful resolve inProgress)
    (hextends : w'.Extends w) (hafresh : ∃ depth', ∀ paths, w'.Avoids paths →
      afresh depth' paths = Run.ofExcept (.ok closed)) :
    Agrees resolve depth inProgress w afresh (.success closed w')
  | failure {e : GrammarError} {w' : Walk} (hdistinct : w'.asked.Nodup)
    (hafresh : ∃ depth', afresh depth' inProgress = Run.ofExcept (.error e)) :
    Agrees resolve depth inProgress w afresh (.failure e w')
  | unfinished (hafresh : afresh depth inProgress = Run.cutOff) :
    Agrees resolve depth inProgress w afresh .unfinished

section Agreement

variable {resolve : Resolver} {depth : Nat} {inProgress : List String} {w : Walk} {path : String}

section Behind

variable {close : List String → String → Grammar → Run GrammarError Walk (List Sourced)}

lemma behindAfresh_of_mem (hpath : path ∈ inProgress) :
    behindAfresh resolve close inProgress path =
      Run.ofExcept (.error (.importCycle (inProgress ++ [path]))) := by
  rw [behindAfresh, if_pos (by simpa using hpath)]
  rfl

lemma behindAfresh_of_not_mem (hpath : path ∉ inProgress) :
    behindAfresh resolve close inProgress path =
      (Run.ofExcept (resolve path) >>= close (inProgress ++ [path]) path) := by
  rw [behindAfresh, if_neg (by simpa using hpath)]

lemma closedBehind_of_mem (hpath : path ∈ inProgress) :
    closedBehind resolve close inProgress path w =
      .failure (.importCycle (inProgress ++ [path])) w := by
  rw [closedBehind, if_pos (by simpa using hpath)]
  rfl

lemma closedBehind_of_closed (hpath : path ∉ inProgress) {closed : List Sourced}
    (h : w.closed? path = some closed) :
    closedBehind resolve close inProgress path w = .success closed w := by
  rw [closedBehind, if_neg (by simpa using hpath), Run.current_bind, h]
  rfl

/-- A path that is met for the first time is asked for, closed and remembered. -/
lemma closedBehind_of_new (hpath : path ∉ inProgress) (h : w.closed? path = none) :
    closedBehind resolve close inProgress path w =
      (Run.ofExcept (resolve path) >>= fun g =>
        close (inProgress ++ [path]) path g >>= fun closed =>
          Run.update (·.remember path closed) >>= fun _ => pure closed)
        (w.visit (inProgress ++ [path])) := by
  rw [closedBehind, if_neg (by simpa using hpath), Run.current_bind, h]
  rfl

end Behind

lemma agrees_closedBehind (hw : w.Faithful resolve inProgress)
    (hclose : ∀ g w', w'.Faithful resolve (inProgress ++ [path]) →
      Agrees resolve depth (inProgress ++ [path]) w' (closeAfresh resolve · · path g)
        (closeGrammar resolve depth (inProgress ++ [path]) path g w')) :
    Agrees resolve depth inProgress w
      (fun depth paths => behindAfresh resolve (closeAfresh resolve depth) paths path)
      (closedBehind resolve (closeGrammar resolve depth) inProgress path w) := by
  by_cases hpath : path ∈ inProgress
  · rw [closedBehind_of_mem hpath]
    exact .failure hw.distinct ⟨0, behindAfresh_of_mem hpath⟩
  cases hcached : w.closed? path with
  | some closed =>
    rw [closedBehind_of_closed hpath hcached]
    exact .success hw (.refl w) (hw.afresh path closed hcached)
  | none =>
    have hvisit := hw.visit hpath hcached
    rw [closedBehind_of_new hpath hcached]
    cases hresolve : resolve path with
    | error e =>
      refine .failure hvisit.distinct ⟨0, ?_⟩
      rw [behindAfresh_of_not_mem hpath, hresolve, Run.ofExcept_error_bind]
    | ok g =>
      have hafresh : ∀ depth', behindAfresh resolve (closeAfresh resolve depth') inProgress path =
          closeAfresh resolve depth' (inProgress ++ [path]) path g := by
        intro depth'
        rw [behindAfresh_of_not_mem hpath, hresolve, Run.ofExcept_ok_bind]
      have hclosed := hclose g _ hvisit
      rw [Run.ofExcept_ok_bind]
      cases hrun : closeGrammar resolve depth (inProgress ++ [path]) path g
          (w.visit (inProgress ++ [path])) with
      | success closed w' =>
        rw [hrun] at hclosed
        obtain ⟨hw', hextends, depth', hgrammar⟩ := hclosed
        have hremember := hw'.remember hpath hresolve hgrammar
        rw [Run.bind_of_success hrun]
        refine .success hremember ?_ (hremember.afresh path closed ?_)
        · exact (Walk.extends_remember (hw'.avoids path (by simp))).trans hextends
        · rw [Walk.closed?_remember, if_pos rfl]
      | failure e w' =>
        rw [hrun] at hclosed
        rw [Run.bind_of_failure hrun]
        cases hclosed with
        | failure hdistinct hgrammar =>
          obtain ⟨depth', hgrammar⟩ := hgrammar
          exact .failure hdistinct ⟨depth', (hafresh depth').trans hgrammar⟩
      | unfinished =>
        rw [hrun] at hclosed
        rw [Run.bind_of_unfinished hrun]
        cases hclosed with
        | unfinished hgrammar => exact .unfinished ((hafresh depth).trans hgrammar)

/-- Adds to `merged` what an import takes from the closed grammar behind its path. -/
def Import.mergeInto (i : Import) (merged behind : List Sourced) :
    Except GrammarError (List Sourced) := do
  mergeDefinitions merged (← i.select behind)

lemma mergeImports_cons (closedAt : String → Run GrammarError Walk (List Sourced))
    (merged : List Sourced) (i : Import) (imports : List Import) :
    mergeImports closedAt merged (i :: imports) =
      closedAt i.path >>= fun behind => Run.ofExcept (i.mergeInto merged behind) >>= fun next =>
        mergeImports closedAt next imports := by
  rw [mergeImports]
  congr 1
  funext behind
  rw [Import.mergeInto]
  cases i.select behind <;> rfl

/-- One import of a run that is made afresh, at a depth that is enough for the grammar behind it. -/
lemma mergeImports_cons_afresh {paths : List String} {merged behind : List Sourced} {i : Import}
    {depth' : Nat} (hdepth : depth ≤ depth')
    (h : behindAfresh resolve (closeAfresh resolve depth) paths i.path = Run.ofExcept (.ok behind))
    (imports : List Import) :
    mergeImports (behindAfresh resolve (closeAfresh resolve depth') paths) merged (i :: imports) =
      Run.ofExcept (i.mergeInto merged behind) >>= fun next =>
        mergeImports (behindAfresh resolve (closeAfresh resolve depth') paths) next imports := by
  rw [mergeImports_cons, (behindAfresh_approximates_of_le hdepth).eq h]
  rfl

lemma agrees_mergeImports (merged : List Sourced) (imports : List Import)
    (hw : w.Faithful resolve inProgress)
    (hbehind : ∀ path w, w.Faithful resolve inProgress → Agrees resolve depth inProgress w
      (fun depth paths => behindAfresh resolve (closeAfresh resolve depth) paths path)
      (closedBehind resolve (closeGrammar resolve depth) inProgress path w)) :
    Agrees resolve depth inProgress w
      (fun depth paths =>
        mergeImports (behindAfresh resolve (closeAfresh resolve depth) paths) merged imports)
      (mergeImports (closedBehind resolve (closeGrammar resolve depth) inProgress) merged
        imports w) := by
  induction imports generalizing merged w with
  | nil => exact .success hw (.refl w) ⟨0, fun _ _ => rfl⟩
  | cons i imports ih =>
    have hfirst := hbehind i.path w hw
    rw [mergeImports_cons]
    cases hrun : closedBehind resolve (closeGrammar resolve depth) inProgress i.path w with
    | failure e w' =>
      rw [hrun] at hfirst
      rw [Run.bind_of_failure hrun]
      cases hfirst with
      | failure hdistinct hafresh =>
        obtain ⟨depth', hafresh⟩ := hafresh
        refine .failure hdistinct ⟨depth', ?_⟩
        rw [mergeImports_cons, hafresh, Run.ofExcept_error_bind]
    | unfinished =>
      rw [hrun] at hfirst
      rw [Run.bind_of_unfinished hrun]
      cases hfirst with
      | unfinished hafresh =>
        refine .unfinished ?_
        rw [mergeImports_cons, hafresh]
        rfl
    | success behind w₁ =>
      rw [hrun] at hfirst
      obtain ⟨hw₁, hextends₁, depth₁, hafresh₁⟩ := hfirst
      rw [Run.bind_of_success hrun]
      cases hmerge : i.mergeInto merged behind with
      | error e =>
        refine .failure hw₁.distinct ⟨depth₁, ?_⟩
        rw [mergeImports_cons_afresh le_rfl (hafresh₁ _ hw₁.avoids), hmerge,
          Run.ofExcept_error_bind]
      | ok next =>
        have hrest := ih next hw₁
        rw [Run.ofExcept_ok_bind]
        generalize mergeImports _ next imports w₁ = o at hrest
        cases hrest with
        | success hw' hextends hafresh =>
          obtain ⟨depth₂, hafresh⟩ := hafresh
          refine .success hw' (hextends.trans hextends₁) ⟨max depth₁ depth₂, fun paths hpaths => ?_⟩
          have hbefore := hafresh₁ paths (hextends.avoids hpaths)
          rw [mergeImports_cons_afresh (le_max_left depth₁ depth₂) hbefore, hmerge,
            Run.ofExcept_ok_bind]
          exact (mergeImports_approximates fun path =>
            behindAfresh_approximates_of_le (le_max_right depth₁ depth₂)).eq (hafresh paths hpaths)
        | failure hdistinct hafresh =>
          obtain ⟨depth₂, hafresh⟩ := hafresh
          refine .failure hdistinct ⟨max depth₁ depth₂, ?_⟩
          rw [mergeImports_cons_afresh (le_max_left depth₁ depth₂) (hafresh₁ _ hw₁.avoids), hmerge,
            Run.ofExcept_ok_bind]
          exact (mergeImports_approximates fun path =>
            behindAfresh_approximates_of_le (le_max_right depth₁ depth₂)).eq hafresh
        | unfinished hafresh =>
          refine .unfinished ?_
          rw [mergeImports_cons]
          -- done afresh, the first import is cut off, or it ends as it did before
          have hbefore := hafresh₁ _ hw₁.avoids
          obtain hcut | ⟨r, hr, -⟩ :=
            @behindAfresh_approximates_of_le resolve depth depth inProgress i.path le_rfl
          · rw [hcut]
            rfl
          · have hsame := Run.unique_of_approximates behindAfresh_approximates_of_le hr hbefore
            rw [hr, hsame, Run.ofExcept_ok_bind, hmerge, Run.ofExcept_ok_bind, hafresh]

/-- Closing a grammar ends as it does when nothing is remembered. -/
theorem agrees_closeGrammar {origin : String} {g : Grammar} (hw : w.Faithful resolve inProgress) :
    Agrees resolve depth inProgress w (closeAfresh resolve · · origin g)
      (closeGrammar resolve depth inProgress origin g w) := by
  induction depth generalizing inProgress origin g w with
  | zero => exact .unfinished rfl
  | succ depth ih =>
    have hbehind : ∀ path w, w.Faithful resolve inProgress → Agrees resolve depth inProgress w
        (fun depth paths => behindAfresh resolve (closeAfresh resolve depth) paths path)
        (closedBehind resolve (closeGrammar resolve depth) inProgress path w) :=
      fun path w hw => agrees_closedBehind hw fun g w' hw' => ih hw'
    have hmerged := agrees_mergeImports (g.definitions.map (⟨·, origin⟩)) g.imports hw hbehind
    have hafresh : ∀ depth paths, closeAfresh resolve (depth + 1) paths origin g =
        mergeImports (behindAfresh resolve (closeAfresh resolve depth) paths)
          (g.definitions.map (⟨·, origin⟩)) g.imports := by
      intro depth paths
      rw [closeAfresh, mergeDefinitions_own, Run.ofExcept_ok_bind]
    rw [closeGrammar, mergeDefinitions_own, Run.ofExcept_ok_bind]
    generalize mergeImports _ _ g.imports w = o at hmerged
    cases hmerged with
    | success hw' hextends h =>
      obtain ⟨depth', h⟩ := h
      refine .success hw' hextends ⟨depth' + 1, fun paths hpaths => ?_⟩
      exact (hafresh _ _).trans (h paths hpaths)
    | failure hdistinct h =>
      obtain ⟨depth', h⟩ := h
      exact .failure hdistinct ⟨depth' + 1, (hafresh _ _).trans h⟩
    | unfinished h => exact .unfinished ((hafresh _ _).trans h)

end Agreement

lemma faithful_start (resolve : Resolver) (inProgress : List String) :
    ({} : Walk).Faithful resolve inProgress where
  avoids _ _ := rfl
  afresh _ _ h := nomatch h
  asked _ h := nomatch h
  distinct := List.nodup_nil

section Assemble

variable {resolve : Resolver} {depth depth' : Nat} {rootPath? : Option String} {root : Grammar}

lemma assembleAfresh_approximates (hdepth : depth ≤ depth') :
    (resolve.assembleAfresh depth rootPath? root).Approximates
      (resolve.assembleAfresh depth' rootPath? root) :=
  (closeAfresh_approximates hdepth _ _ _).bind fun _ => Run.approximates_ofExcept _

/-- Assembly ends as it does if nothing is remembered, or both are cut off. -/
lemma agrees_assemble (resolve : Resolver) (depth : Nat) (rootPath? : Option String)
    (root : Grammar) :
    (∃ r w, resolve.assemble depth rootPath? root {} = Run.ofExcept r w ∧ w.asked.Nodup ∧
      ∃ depth', resolve.assembleAfresh depth' rootPath? root = Run.ofExcept r) ∨
    resolve.assemble depth rootPath? root {} = .unfinished ∧
      resolve.assembleAfresh depth rootPath? root = Run.cutOff := by
  have hclosed : Agrees resolve depth rootPath?.toList {}
      (closeAfresh resolve · · (rootPath?.getD rootOrigin) root)
      (closeGrammar resolve depth rootPath?.toList (rootPath?.getD rootOrigin) root {}) :=
    agrees_closeGrammar (faithful_start resolve rootPath?.toList)
  simp only [Resolver.assemble, Resolver.assembleAfresh]
  cases hrun : closeGrammar resolve depth rootPath?.toList (rootPath?.getD rootOrigin) root {} with
  | success closed w =>
    rw [hrun] at hclosed
    obtain ⟨hw, -, depth', hafresh⟩ := hclosed
    refine .inl ⟨finishAssembly root closed, w, Run.bind_of_success hrun, hw.distinct, depth', ?_⟩
    rw [hafresh _ hw.avoids, Run.ofExcept_ok_bind]
  | failure e w =>
    rw [hrun] at hclosed
    cases hclosed with
    | failure hdistinct hafresh =>
      obtain ⟨depth', hafresh⟩ := hafresh
      refine .inl ⟨.error e, w, Run.bind_of_failure hrun, hdistinct, depth', ?_⟩
      rw [hafresh, Run.ofExcept_error_bind]
  | unfinished =>
    rw [hrun] at hclosed
    cases hclosed with
    | unfinished hafresh =>
      refine .inr ⟨Run.bind_of_unfinished hrun, ?_⟩
      rw [hafresh]
      rfl

/-- Assembly ends with the grammar or the error with which it ends if every import is resolved and
closed anew each time it is met, and it ends if that does. Wherever it ends, the resolver was asked
for no path twice. -/
theorem Resolver.exists_assemble_iff_afresh (resolve : Resolver) (rootPath? : Option String)
    (root : Grammar) :
    (∀ result, (∃ depth, (resolve.assemble depth rootPath? root {}).result? = some result) ↔
      ∃ depth, (resolve.assembleAfresh depth rootPath? root {}).result? = some result) ∧
    ∀ depth w, (resolve.assemble depth rootPath? root {}).state? = some w → w.asked.Nodup := by
  refine ⟨fun result => ⟨?_, ?_⟩, fun depth w h => ?_⟩
  · rintro ⟨depth, h⟩
    obtain ⟨r, w, hrun, -, depth', hafresh⟩ | ⟨hrun, -⟩ :=
      agrees_assemble resolve depth rootPath? root
    · rw [hrun, Run.result?_ofExcept] at h
      exact ⟨depth', by rw [hafresh, Run.result?_ofExcept, h]⟩
    · rw [hrun] at h
      cases h
  · rintro ⟨depth, h⟩
    obtain ⟨r, w, hrun, -, depth', hafresh⟩ | ⟨-, hcut⟩ :=
      agrees_assemble resolve depth rootPath? root
    · refine ⟨depth, ?_⟩
      obtain hcut | ⟨r', hr', -⟩ :=
        @assembleAfresh_approximates resolve depth depth rootPath? root le_rfl
      · rw [hcut] at h
        cases h
      · have hsame : r = r' := Run.unique_of_approximates assembleAfresh_approximates hafresh hr'
        rw [hr', Run.result?_ofExcept] at h
        rw [hrun, Run.result?_ofExcept, hsame, h]
    · rw [hcut] at h
      cases h
  · obtain ⟨r, w', hrun, hdistinct, -⟩ | ⟨hrun, -⟩ := agrees_assemble resolve depth rootPath? root
    · rw [hrun, Run.state?_ofExcept] at h
      exact Option.some.inj h ▸ hdistinct
    · rw [hrun] at h
      cases h

end Assemble

/-- Two grammars that import a third one: `import * from "base"` and `Left <- Base`, and
`import Base from "base"` and `Right <- 'r'`, a line each. -/
def diamond : Library :=
  [("left", ⟨[⟨"base", [], ⟨0, 20⟩⟩], [⟨"Left", .identifier "Base" ⟨29, 33⟩, ⟨21, 33⟩⟩], ⟨0, 33⟩,
      by decide⟩),
    ("right", ⟨[⟨"base", ["Base"], ⟨0, 23⟩⟩], [⟨"Right", .literal "r" ⟨33, 36⟩, ⟨24, 36⟩⟩], ⟨0, 36⟩,
      by decide⟩),
    ("base", ⟨[], [⟨"Base", .any ⟨8, 9⟩, ⟨0, 9⟩⟩], ⟨0, 9⟩, by decide⟩)]

/-- `import Left from "left"`, `import Right, Base from "right"` and `Root <- Left Right`, a line
each. -/
def diamondRoot : Grammar :=
  ⟨[⟨"left", ["Left"], ⟨0, 23⟩⟩, ⟨"right", ["Right", "Base"], ⟨24, 55⟩⟩],
    [⟨"Root", .sequence [.identifier "Left" ⟨64, 68⟩, .identifier "Right" ⟨69, 74⟩] ⟨64, 74⟩,
      ⟨56, 74⟩⟩], ⟨0, 74⟩, by decide⟩

theorem exists_assemble_iff_afresh_diamond : ∃ g w,
    diamond.resolve.assemble 4 (some "root") diamondRoot {} = .success g w ∧
    g.names = ["Root", "Left", "Base", "Right"] ∧ w.asked = ["right", "base", "left"] ∧
    w.asked.Nodup ∧ ∃ depth,
      (diamond.resolve.assembleAfresh depth (some "root") diamondRoot {}).result? =
        some (.ok g) := by
  obtain ⟨g, w, hrun, hnames, hasked⟩ : ∃ g w,
      diamond.resolve.assemble 4 (some "root") diamondRoot {} = .success g w ∧
      g.names = ["Root", "Left", "Base", "Right"] ∧ w.asked = ["right", "base", "left"] :=
    ⟨_, _, rfl, rfl, rfl⟩
  obtain ⟨hiff, hdistinct⟩ :=
    Resolver.exists_assemble_iff_afresh diamond.resolve (some "root") diamondRoot
  refine ⟨g, w, hrun, hnames, hasked, hdistinct 4 w (by rw [hrun]; rfl), ?_⟩
  exact (hiff (.ok g)).mp ⟨4, by rw [hrun]; rfl⟩

end LabeledPeg
