import LabeledPeg.Proofs.Grammar.Closure
import Mathlib.Order.Bounds.Basic

/-!
# The index of a grammar

A grammar is built if no name is defined twice, and its index then leads from every name to the place
of its definition and from no other name anywhere. If names repeat, it is the earliest definition with
a name from before it that is reported, with the first definition of that name.
-/

namespace LabeledPeg

/-- Whether an index leads from every name of a list to its place in it, and holds nothing else. -/
structure Indexes (index : List (String × Nat)) (names : List String) : Prop where
  lookup : ∀ name i, index.lookup name = some i ↔ names[i]? = some name
  mem : ∀ name i, (name, i) ∈ index ↔ names[i]? = some name

/-- Whether the name at a place of a list occurs at an earlier one. -/
def RepeatsAt (names : List String) (j : Nat) : Prop :=
  ∃ i < j, ∃ name, names[i]? = some name ∧ names[j]? = some name

section Names

variable {index : List (String × Nat)} {names : List String} {name : String}

lemma indexes_nil : Indexes [] [] := ⟨by simp, by simp⟩

lemma getElem?_snoc_eq_some_iff {other : String} {i : Nat} :
    (names ++ [name])[i]? = some other ↔
      names[i]? = some other ∨ i = names.length ∧ other = name := by
  obtain hlt | rfl | hgt := Nat.lt_trichotomy i names.length
  · have hne : i ≠ names.length := Nat.ne_of_lt hlt
    simp only [List.getElem?_append_left hlt, hne, false_and, or_false]
  · have hnone : names[names.length]? = none := List.getElem?_eq_none (Nat.le_refl _)
    rw [List.getElem?_concat_length, hnone, Option.some_inj]
    simp [eq_comm]
  · have hne : i ≠ names.length := Nat.ne_of_gt hgt
    have hlength : (names ++ [name]).length ≤ i := by
      rw [List.length_append, List.length_singleton]
      omega
    rw [List.getElem?_eq_none hlength, List.getElem?_eq_none (Nat.le_of_lt hgt)]
    simp [hne]

/-- A name that is new is entered under the place behind all others. -/
lemma Indexes.snoc (h : Indexes index names) (hnew : name ∉ names) :
    Indexes ((name, names.length) :: index) (names ++ [name]) := by
  constructor
  · intro other i
    rw [getElem?_snoc_eq_some_iff, List.lookup_cons]
    by_cases hother : other = name
    · subst hother
      have hnone : names[i]? ≠ some other := fun h => hnew (List.mem_of_getElem? h)
      simp [hnone, eq_comm]
    · simp [beq_eq_false_iff_ne.mpr hother, hother, h.lookup]
  · intro other i
    rw [getElem?_snoc_eq_some_iff, List.mem_cons, h.mem, Prod.mk.injEq]
    tauto

lemma isLeast_getElem? {rest : List String} (h : name ∉ names) :
    IsLeast {i | (names ++ name :: rest)[i]? = some name} names.length := by
  constructor
  · simp
  · intro i hi
    by_contra hlt
    have hmem : names[i]? = some name := by
      rw [← hi, List.getElem?_append_left (by omega)]
    exact h (List.mem_of_getElem? hmem)

lemma isLeast_repeatsAt {rest : List String} (hdistinct : names.Nodup) (h : name ∈ names) :
    IsLeast {j | RepeatsAt (names ++ name :: rest) j} names.length := by
  constructor
  · obtain ⟨i, hi⟩ := List.getElem?_of_mem h
    have hlt : i < names.length := (List.getElem?_eq_some_iff.mp hi).1
    exact ⟨i, hlt, name, by rwa [List.getElem?_append_left hlt], by simp⟩
  · rintro j ⟨i, hij, other, hi, hj⟩
    by_contra hlt
    rw [List.getElem?_append_left (by omega)] at hi hj
    exact List.nodup_iff_getElem?_ne_getElem?.mp hdistinct i j hij (by omega) (hi.trans hj.symm)

end Names

namespace Rule

variable {α : Type} {index : List (String × Nat)} {earlier rules : List (Rule α)}
  {first second : Rule α}

lemma indexes_enter {names : List String} (h : Indexes index names)
    (hdistinct : (names ++ rules.map Rule.name).Nodup) :
    Indexes (enter index names.length rules) (names ++ rules.map Rule.name) := by
  induction rules generalizing index names with
  | nil => simpa [enter] using h
  | cons rule rules ih =>
    rw [List.map_cons] at hdistinct ⊢
    have hnew : rule.name ∉ names := by
      intro hmem
      have hmiddle := (List.nodup_cons.mp (List.nodup_middle.mp hdistinct)).1
      exact hmiddle (List.mem_append_left _ hmem)
    rw [List.append_cons] at hdistinct ⊢
    have hrest := ih (h.snoc hnew) hdistinct
    rwa [List.length_append, List.length_singleton] at hrest

/-- The names before the first rule that repeats one are distinct. -/
lemma firstRepeat?_go_eq_some (hearlier : (earlier.map Rule.name).Nodup)
    (h : firstRepeat?.go earlier rules = some (first, second)) :
    ∃ before after, earlier ++ rules = before ++ second :: after ∧
      (before.map Rule.name).Nodup ∧ before.find? (·.name == second.name) = some first := by
  induction rules generalizing earlier with
  | nil => cases h
  | cons rule rules ih =>
    unfold firstRepeat?.go at h
    split at h
    · next found hfound =>
      obtain ⟨rfl, rfl⟩ := Prod.mk.inj (Option.some.inj h)
      exact ⟨earlier, rules, rfl, hearlier, hfound⟩
    · next hfound =>
      have hnew : rule.name ∉ earlier.map Rule.name := by
        simpa [List.find?_eq_none] using hfound
      rw [List.append_cons]
      refine ih ?_ h
      simpa using hearlier.concat hnew

/-- Whether `second` is the earliest rule whose name occurs before it, and `first` the first rule of
that name. -/
structure IsFirstRepeat (rules : List (Rule α)) (first second : Rule α) : Prop where
  earliest : ∃ j : Nat, rules[j]? = some second ∧ IsLeast {j | RepeatsAt (rules.map Rule.name) j} j
  foremost : ∃ i : Nat, rules[i]? = some first ∧
    IsLeast {i | (rules.map Rule.name)[i]? = some second.name} i

lemma isFirstRepeat_of_firstRepeat? (h : firstRepeat? rules = some (first, second)) :
    IsFirstRepeat rules first second := by
  obtain ⟨before, after, hrules, hdistinct, hfound⟩ := firstRepeat?_go_eq_some (by simp) h
  rw [List.nil_append] at hrules
  subst hrules
  constructor
  · have hmem : second.name ∈ before.map Rule.name := by
      have hsome : (before.find? (·.name == second.name)).isSome := by rw [hfound, Option.isSome_some]
      simpa using hsome
    refine ⟨before.length, by simp, ?_⟩
    rw [List.map_append, List.map_cons, ← List.length_map Rule.name]
    exact isLeast_repeatsAt hdistinct hmem
  · obtain ⟨hname, earlier, later, rfl, hearlier⟩ := List.find?_eq_some_iff_append.mp hfound
    have hfirst : first.name = second.name := by simpa using hname
    have hnew : second.name ∉ earlier.map Rule.name := by
      simpa using hearlier
    refine ⟨earlier.length, by simp, ?_⟩
    rw [List.append_assoc, List.map_append, List.cons_append, List.map_cons, hfirst,
      ← List.length_map Rule.name]
    exact isLeast_getElem? hnew

end Rule

namespace Grammar

lemma indexes (g : Grammar) : Indexes g.index g.names :=
  Rule.indexes_enter indexes_nil g.distinct

/-- A definition is found where the index leads to. -/
lemma definition?_eq_bind_indexOf? (g : Grammar) (name : String) :
    g.definition? name = (g.indexOf? name).bind (g.definitions[·]?) := by
  ext d
  rw [definition?_eq_some_iff, Option.bind_eq_some_iff]
  constructor
  · rintro ⟨hd, rfl⟩
    obtain ⟨i, hi⟩ := List.getElem?_of_mem hd
    refine ⟨i, (g.indexes.lookup d.name i).mpr ?_, hi⟩
    rw [names, List.getElem?_map, hi, Option.map_some]
  · rintro ⟨i, hname, hi⟩
    have hd := (g.indexes.lookup name i).mp hname
    rw [names, List.getElem?_map, hi, Option.map_some, Option.some_inj] at hd
    exact ⟨List.mem_of_getElem? hi, hd⟩

/-- A grammar is built if and only if no name is defined twice. It is then made of what it was built
from, its index leads from a name to a place if and only if the definition at the place has the name,
and a look-up finds every definition under its name and nothing else. If names repeat, the error
names the earliest definition whose name occurred before it, and the first one of that name. -/
theorem build_indexes (imports : List Import) (definitions : List Definition) (span : Span) :
    ((∃ g, build imports definitions span = .ok g) ↔ (definitions.map Rule.name).Nodup) ∧
    (∀ g, build imports definitions span = .ok g →
      g.imports = imports ∧ g.definitions = definitions ∧ g.span = span ∧
      (∀ name i, g.indexOf? name = some i ↔ (definitions.map Rule.name)[i]? = some name) ∧
      (∀ name i, (name, i) ∈ g.index ↔ (definitions.map Rule.name)[i]? = some name) ∧
      (∀ name, g.definition? name = (g.indexOf? name).bind (definitions[·]?)) ∧
      ∀ name d, g.definition? name = some d ↔ d ∈ definitions ∧ d.name = name) ∧
    (¬ (definitions.map Rule.name).Nodup → ∃ first second,
      Rule.IsFirstRepeat definitions first second ∧
      build imports definitions span =
        .error (.duplicateDefinition second.name first.span second.span)) := by
  refine ⟨⟨?_, fun h => ?_⟩, ?_, fun h => ?_⟩
  · rintro ⟨g, hbuild⟩
    obtain ⟨-, rfl, -⟩ := build_eq_ok hbuild
    exact g.distinct
  · obtain ⟨g, hbuild, -⟩ := exists_build imports span h
    exact ⟨g, hbuild⟩
  · intro g hbuild
    obtain ⟨rfl, rfl, rfl⟩ := build_eq_ok hbuild
    exact ⟨rfl, rfl, rfl, g.indexes.lookup, g.indexes.mem, g.definition?_eq_bind_indexOf?,
      fun name d => definition?_eq_some_iff⟩
  · unfold build
    split
    · next first second hrepeat =>
      exact ⟨first, second, Rule.isFirstRepeat_of_firstRepeat? hrepeat, rfl⟩
    · next hnone => exact absurd (Rule.nodup_of_firstRepeat?_eq_none hnone) h

/-- A rule for any character, at a place of a text. -/
def anyRule (name : String) (start : Nat) : Definition :=
  ⟨name, .any ⟨start + 5, start + 6⟩, ⟨start, start + 6⟩⟩

/-- Two names occur twice, and the first one of them to come again is not the first one of all. -/
theorem build_indexes_twice :
    (∃ g, build [] [anyRule "A" 0, anyRule "B" 7] ⟨0, 13⟩ = .ok g ∧ g.indexOf? "B" = some 1 ∧
      g.definition? "B" = some (anyRule "B" 7)) ∧
    ∃ first second, Rule.IsFirstRepeat [anyRule "A" 0, anyRule "B" 7, anyRule "C" 14,
        anyRule "B" 21, anyRule "A" 28] first second ∧
      first.span = ⟨7, 13⟩ ∧ second.span = ⟨21, 27⟩ := by
  constructor
  · have hall := build_indexes [] [anyRule "A" 0, anyRule "B" 7] ⟨0, 13⟩
    obtain ⟨g, hbuild⟩ := hall.1.mpr (by decide)
    obtain ⟨-, -, -, hindex, -, -, hdefinition⟩ := hall.2.1 g hbuild
    exact ⟨g, hbuild, (hindex "B" 1).mpr rfl, (hdefinition "B" _).mpr ⟨by simp, rfl⟩⟩
  · obtain ⟨first, second, hrepeat, hbuild⟩ := (build_indexes [] [anyRule "A" 0, anyRule "B" 7,
      anyRule "C" 14, anyRule "B" 21, anyRule "A" 28] ⟨0, 34⟩).2.2 (by decide)
    have herror : build [] [anyRule "A" 0, anyRule "B" 7, anyRule "C" 14, anyRule "B" 21,
        anyRule "A" 28] ⟨0, 34⟩ = .error (.duplicateDefinition "B" ⟨7, 13⟩ ⟨21, 27⟩) := rfl
    obtain ⟨-, hfirst, hsecond⟩ :=
      GrammarError.duplicateDefinition.inj (Except.error.inj (hbuild.symm.trans herror))
    exact ⟨first, second, hrepeat, hfirst, hsecond⟩

end Grammar

end LabeledPeg
