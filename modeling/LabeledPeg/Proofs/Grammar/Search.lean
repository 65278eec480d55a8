import LabeledPeg.Proofs.Grammar.Nodes
import LabeledPeg.Proofs.Grammar.Reachability
import Mathlib.Order.Bounds.Basic
import Mathlib.Data.Set.Basic

/-!
# Reachable rules, found with a queue

A search keeps the rules that it has yet to look at in a queue. A rule that it looks at for the first
time is found, and the rules that its body refers to come to the end of the queue, where a rule may
stand many times. The search ends, since only finitely many rules are there to be found, and it finds
what the rounds of the closure find.
-/

namespace LabeledPeg.Grammar

variable {g : Grammar} {roots found : List String} {name : String}

/-- The definition of a name, as one of the grammar. -/
def member? (g : Grammar) (name : String) : Option { d // d ∈ g.definitions } :=
  (g.definition? name).pmap Subtype.mk fun _ h => List.mem_of_find?_eq_some h

/-- The rules that an expression refers to, each once. -/
def referred (g : Grammar) (e : Expr) : List { d // d ∈ g.definitions } :=
  e.referencedNames.filterMap g.member?

lemma mem_names_of_mem {d : Definition} (h : d ∈ g.definitions) : d.name ∈ g.names :=
  List.mem_map_of_mem h

/-- A rule that is found leaves fewer names to be found. -/
lemma length_filter_notMem_cons_lt (hdefined : name ∈ g.names) (hnew : name ∉ found) :
    (g.names.filter fun other => decide (other ∉ name :: found)).length <
      (g.names.filter fun other => decide (other ∉ found)).length := by
  have hless : g.names.filter (fun other => decide (other ∉ name :: found)) =
      (g.names.filter fun other => decide (other ∉ found)).filter (· ≠ name) := by
    rw [List.filter_filter]
    refine List.filter_congr fun other _ => ?_
    simp
  rw [hless, List.length_filter_lt_length_iff_exists]
  exact ⟨name, by simp [hdefined, hnew], by simp⟩

/-- The names that a search finds which has found `found` and has a queue of rules to look at. -/
def searchFrom (g : Grammar) (found : List String) : List { d // d ∈ g.definitions } → List String
  | [] => found
  | d :: queue =>
    if d.1.name ∈ found then g.searchFrom found queue
    else g.searchFrom (d.1.name :: found) (queue ++ g.referred d.1.body)
termination_by queue => ((g.names.filter fun name => decide (name ∉ found)).length, queue.length)
decreasing_by
  · exact Prod.Lex.right _ (Nat.lt_succ_self _)
  · next hnew => exact Prod.Lex.left _ _ (length_filter_notMem_cons_lt (mem_names_of_mem d.2) hnew)

/-- The names that a search finds which begins with the rules of the names in `roots`, the latest one
first. Names without a definition are skipped. -/
def search (g : Grammar) (roots : List String) : List String :=
  g.searchFrom [] (roots.filterMap g.member?)

lemma member?_eq_some_iff {d : { d // d ∈ g.definitions }} :
    g.member? name = some d ↔ d.1.name = name := by
  unfold member?
  rw [Option.pmap_eq_some_iff]
  constructor
  · rintro ⟨d', _, hd', rfl⟩
    exact (definition?_eq_some_iff.mp hd').2
  · intro h
    exact ⟨d.1, d.2, definition?_eq_some_iff.mpr ⟨d.2, h⟩, rfl⟩

lemma exists_mem_filterMap_member? {names : List String} :
    (∃ d ∈ names.filterMap g.member?, d.1.name = name) ↔ name ∈ names ∧ name ∈ g.names := by
  constructor
  · rintro ⟨d, hd, rfl⟩
    obtain ⟨other, hother, hmember⟩ := List.mem_filterMap.mp hd
    obtain rfl := member?_eq_some_iff.mp hmember
    exact ⟨hother, mem_names_of_mem d.2⟩
  · rintro ⟨hname, hdefined⟩
    obtain ⟨d, hd, rfl⟩ := List.mem_map.mp hdefined
    exact ⟨⟨d, hd⟩, List.mem_filterMap.mpr ⟨_, hname, member?_eq_some_iff.mpr rfl⟩, rfl⟩

lemma exists_mem_referred {e : Expr} : (∃ d ∈ g.referred e, d.1.name = name) ↔
    (∃ r ∈ e.references, r.name = name) ∧ name ∈ g.names := by
  unfold referred Expr.referencedNames
  rw [exists_mem_filterMap_member?, List.mem_eraseDups, List.mem_map]

/-- Whether a name is found or stands in the queue. -/
def Noticed (found : List String) (queue : List { d // d ∈ g.definitions }) (name : String) : Prop :=
  name ∈ found ∨ ∃ d ∈ queue, d.1.name = name

/-- What holds all through a search from `roots`: nothing is found twice, all that is noticed can be
reached, and the roots are noticed and all that the rules refer to that are found. -/
structure Searches (g : Grammar) (roots found : List String)
    (queue : List { d // d ∈ g.definitions }) : Prop where
  nodup : found.Nodup
  reaches : ∀ name, Noticed found queue name → g.Reaches roots name
  root : ∀ name ∈ roots, name ∈ g.names → Noticed found queue name
  body : ∀ d ∈ g.definitions, d.name ∈ found → ∀ r ∈ d.body.references, r.name ∈ g.names →
    Noticed found queue r.name

namespace Searches

variable {d : { d // d ∈ g.definitions }} {queue : List { d // d ∈ g.definitions }}

lemma start : g.Searches roots [] (roots.filterMap g.member?) := by
  refine ⟨List.nodup_nil, fun name h => ?_, fun name hroot hdefined => ?_, fun d _ h => ?_⟩
  · obtain h | hqueue := h
    · cases h
    · obtain ⟨hroot, hdefined⟩ := exists_mem_filterMap_member?.mp hqueue
      exact .root hroot hdefined
  · exact .inr (exists_mem_filterMap_member?.mpr ⟨hroot, hdefined⟩)
  · cases h

/-- Looking at a rule a second time changes nothing. -/
lemma again (h : g.Searches roots found (d :: queue)) (hfound : d.1.name ∈ found) :
    g.Searches roots found queue := by
  have hstill : ∀ name, Noticed found (d :: queue) name → Noticed found queue name := by
    rintro name (hname | ⟨d', hd', rfl⟩)
    · exact .inl hname
    · obtain rfl | hqueue := List.mem_cons.mp hd'
      · exact .inl hfound
      · exact .inr ⟨d', hqueue, rfl⟩
  refine ⟨h.nodup, fun name hname => h.reaches name ?_, fun name hroot hdefined =>
    hstill name (h.root name hroot hdefined), fun d' hd' hname r hr hdefined =>
    hstill r.name (h.body d' hd' hname r hr hdefined)⟩
  exact hname.imp_right fun ⟨d', hqueue, heq⟩ => ⟨d', List.mem_cons_of_mem d hqueue, heq⟩

/-- A rule is found, and what its body refers to is noticed. -/
lemma visit (h : g.Searches roots found (d :: queue)) (hnew : d.1.name ∉ found) :
    g.Searches roots (d.1.name :: found) (queue ++ g.referred d.1.body) := by
  have hreaches : g.Reaches roots d.1.name := h.reaches _ (.inr ⟨d, List.mem_cons_self, rfl⟩)
  have hstill : ∀ name, Noticed found (d :: queue) name →
      Noticed (d.1.name :: found) (queue ++ g.referred d.1.body) name := by
    rintro name (hname | ⟨d', hd', rfl⟩)
    · exact .inl (List.mem_cons_of_mem _ hname)
    · obtain rfl | hqueue := List.mem_cons.mp hd'
      · exact .inl List.mem_cons_self
      · exact .inr ⟨d', List.mem_append_left _ hqueue, rfl⟩
  refine ⟨List.nodup_cons.mpr ⟨hnew, h.nodup⟩, fun name hname => ?_, fun name hroot hdefined =>
    hstill name (h.root name hroot hdefined), fun d' hd' hname r hr hdefined => ?_⟩
  · obtain hname | ⟨d', hd', rfl⟩ := hname
    · obtain rfl | hfound := List.mem_cons.mp hname
      · exact hreaches
      · exact h.reaches name (.inl hfound)
    · obtain hqueue | hreferred := List.mem_append.mp hd'
      · exact h.reaches _ (.inr ⟨d', List.mem_cons_of_mem d hqueue, rfl⟩)
      · obtain ⟨⟨r, hr, heq⟩, hdefined⟩ := exists_mem_referred.mp ⟨d', hreferred, rfl⟩
        exact heq ▸ .step hreaches d.2 hr (heq ▸ hdefined)
  · obtain hsame | hfound := List.mem_cons.mp hname
    · -- the rule that is looked at: names are defined once
      obtain rfl : d' = d.1 := List.inj_on_of_nodup_map g.distinct hd' d.2 hsame
      obtain ⟨next, hnext, heq⟩ := exists_mem_referred.mpr ⟨⟨r, hr, rfl⟩, hdefined⟩
      exact .inr ⟨next, List.mem_append_right _ hnext, heq⟩
    · exact hstill r.name (h.body d' hd' hfound r hr hdefined)

/-- What holds all through a search holds when the queue is empty. -/
lemma searchFrom (h : g.Searches roots found queue) :
    g.Searches roots (g.searchFrom found queue) [] := by
  fun_induction Grammar.searchFrom g found queue with
  | case1 => exact h
  | case2 found d queue hfound ih => exact ih (h.again hfound)
  | case3 found d queue hnew ih => exact ih (h.visit hnew)

end Searches

lemma searches_search (g : Grammar) (roots : List String) :
    g.Searches roots (g.search roots) [] := Searches.start.searchFrom

lemma mem_search_iff : name ∈ g.search roots ↔ g.Reaches roots name := by
  have h := g.searches_search roots
  have hnoticed : ∀ {name}, Noticed (g.search roots) ([] : List { d // d ∈ g.definitions }) name →
      name ∈ g.search roots := by
    rintro name (hname | ⟨d, hd, -⟩)
    · exact hname
    · cases hd
  constructor
  · exact fun hname => h.reaches name (.inl hname)
  · intro hreaches
    induction hreaches with
    | root hroot hdefined => exact hnoticed (h.root _ hroot hdefined)
    | step _ hd hr hdefined ih => exact hnoticed (h.body _ hd ih _ hr hdefined)

/-- Whether a set of names holds the roots that the grammar defines and, with each rule, all rules
whose names stand anywhere in its body. -/
structure IsReferenceClosed (g : Grammar) (roots : List String) (names : Set String) : Prop where
  root : ∀ name ∈ roots, name ∈ g.names → name ∈ names
  body : ∀ d ∈ g.definitions, d.name ∈ names → ∀ name span,
    (Expr.identifier name span).Within d.body → name ∈ g.names → name ∈ names

lemma isReferenceClosed_reaches : g.IsReferenceClosed roots {name | g.Reaches roots name} := by
  refine ⟨fun name hroot hdefined => .root hroot hdefined, ?_⟩
  intro d hd hreaches name span hwithin hdefined
  have hr : ⟨name, span⟩ ∈ d.body.references := Expr.mem_references_iff.mpr hwithin
  exact Reaches.step hreaches hd hr hdefined

lemma IsReferenceClosed.mem_of_reaches {names : Set String} (h : g.IsReferenceClosed roots names)
    (hreaches : g.Reaches roots name) : name ∈ names := by
  induction hreaches with
  | root hroot hdefined => exact h.root _ hroot hdefined
  | step _ hd hr hdefined ih => exact h.body _ hd ih _ _ (Expr.mem_references_iff.mp hr) hdefined

lemma Reaches.of_subset {roots' : List String} (hroots : ∀ name ∈ roots, name ∈ roots')
    (h : g.Reaches roots name) : g.Reaches roots' name := by
  induction h with
  | root hroot hdefined => exact .root (hroots _ hroot) hdefined
  | step _ hd hr hdefined ih => exact .step ih hd hr hdefined

lemma ordered_reachable (g : Grammar) (roots : List String) : g.Ordered (g.reachable roots) :=
  ordered_expandBy _ (ordered_filter _)

/-- The reachable names are the least closed set. The search with a queue ends with each of them found
once, and in what order and how often the roots are given makes no difference. -/
theorem isLeast_reachable (g : Grammar) (roots : List String) :
    IsLeast {names | g.IsReferenceClosed roots names} {name | name ∈ g.reachable roots} ∧
    (g.search roots).Perm (g.reachable roots) ∧
    ∀ roots', (∀ name, name ∈ roots' ↔ name ∈ roots) → g.reachable roots' = g.reachable roots := by
  have hreachable : {name | name ∈ g.reachable roots} = {name | g.Reaches roots name} :=
    Set.ext fun _ => mem_reachable_iff
  refine ⟨?_, ?_, fun roots' hroots => ?_⟩
  · rw [hreachable]
    exact ⟨isReferenceClosed_reaches, fun names hnames name => hnames.mem_of_reaches⟩
  · have hnodup : (g.reachable roots).Nodup := by
      rw [← g.ordered_reachable roots]
      exact g.distinct.filter _
    rw [List.perm_ext_iff_of_nodup (g.searches_search roots).nodup hnodup]
    exact fun name => mem_search_iff.trans mem_reachable_iff.symm
  · rw [← g.ordered_reachable roots', ← g.ordered_reachable roots]
    refine List.filter_congr fun name _ => ?_
    rw [Bool.eq_iff_iff, List.contains_iff_mem, List.contains_iff_mem, mem_reachable_iff,
      mem_reachable_iff]
    exact ⟨.of_subset fun name => (hroots name).mp, .of_subset fun name => (hroots name).mpr⟩

/-- `A <- !(#B)^l`, `B <- [C] A Gone?` as a tree with a reference in the class, `C <- A / C` and
`D <- B`. -/
def circle : Grammar :=
  ⟨[], [⟨"A", .notPredicate (.labeled "l" (.lexical (.identifier "B" {}) {}) {}) {}, {}⟩,
    ⟨"B", .sequence [.charClass [.identifier "C" {}] {}, .identifier "A" {},
      .optional (.identifier "Gone" {}) {}] {}, {}⟩,
    ⟨"C", .choice [.identifier "A" {}, .identifier "C" {}] {}, {}⟩,
    ⟨"D", .identifier "B" {}, {}⟩], {}, by decide⟩

/-- From one rule of a circle and a name that nothing defines, each of them given twice. -/
theorem isLeast_reachable_circle :
    IsLeast {names | circle.IsReferenceClosed ["Gone", "B", "Gone", "B"] names} {"A", "B", "C"} ∧
    (circle.search ["Gone", "B", "Gone", "B"]).Perm ["A", "B", "C"] ∧
    circle.reachable ["B", "Gone"] = ["A", "B", "C"] := by
  obtain ⟨hleast, hsearch, hroots⟩ := isLeast_reachable circle ["Gone", "B", "Gone", "B"]
  have hreachable : circle.reachable ["Gone", "B", "Gone", "B"] = ["A", "B", "C"] := by rfl
  have hsame : ∀ name, name ∈ ["B", "Gone"] ↔ name ∈ ["Gone", "B", "Gone", "B"] := by
    intro name
    simp only [List.mem_cons, List.not_mem_nil, or_false]
    tauto
  have hset : {name | name ∈ ["A", "B", "C"]} = ({"A", "B", "C"} : Set String) := by
    ext name
    simp
  rw [hreachable] at hleast hsearch hroots
  exact ⟨hset ▸ hleast, hsearch, hroots _ hsame⟩

end LabeledPeg.Grammar
