import LabeledPeg.Proofs.Grammar.Import
import LabeledPeg.Proofs.Grammar.Rewriting

/-!
# Implicit spacing is sugar

Spacing before the items of a sequence can as well be written out. A grammar whose bodies all stand
below `lexical`, with the spacing rule named wherever the compiler would match spacing, is compiled to
the same code, or refused with the same error. The two runs of the compiler differ in their counters
only: in the second one implicit spacing is switched off throughout.
-/

namespace LabeledPeg

namespace Expr

mutual

/-- A node with the spacing rule named before each item of every sequence in it that takes implicit
spacing, if the node stands where sequences do. -/
def spelled (spaced : Bool) : Expr → Expr
  | charClass members span => charClass (allSpelled spaced members) span
  | optional body span => optional (body.spelled spaced) span
  | zeroOrMore body span => zeroOrMore (body.spelled spaced) span
  | oneOrMore body span => oneOrMore (body.spelled spaced) span
  | andPredicate body span => andPredicate (body.spelled spaced) span
  | notPredicate body span => notPredicate (body.spelled spaced) span
  | lexical body span => lexical (body.spelled false) span
  | labeled label body span => labeled label (body.spelled spaced) span
  | sequence items span =>
    if spaced && !allSyntactic items then
      sequence
        ((allSpelled spaced items).flatMap fun item => [identifier spacingName span, item]) span
    else sequence (allSpelled spaced items) span
  | choice alternatives span => choice (allSpelled spaced alternatives) span
  | e => e

/-- The nodes of a list with spacing written out. -/
def allSpelled (spaced : Bool) : List Expr → List Expr
  | [] => []
  | item :: items => item.spelled spaced :: allSpelled spaced items

end

lemma allSpelled_eq_map (spaced : Bool) (items : List Expr) :
    allSpelled spaced items = items.map (spelled spaced) := by
  induction items with
  | nil => simp [allSpelled]
  | cons item items ih => simp [allSpelled, ih]

/-- Where no spacing is taken there is nothing to write out. -/
theorem spelled_false (e : Expr) : e.spelled false = e := by
  have hitems : ∀ items : List Expr, (∀ e ∈ items, e.spelled false = e) →
      allSpelled false items = items := by
    intro items ih
    rw [allSpelled_eq_map]
    exact (List.map_congr_left ih).trans (List.map_id items)
  induction e using inductionOn with
  | charClass members span ih => simp only [spelled, hitems members ih]
  | sequence items span ih => simp [spelled, hitems items ih]
  | choice alternatives span ih => simp only [spelled, hitems alternatives ih]
  | _ => simp_all only [spelled]

end Expr

/-- The grammar with all spacing written out, and implicit spacing switched off. -/
def Grammar.spelled (g : Grammar) : Grammar :=
  g.mapBodies fun d => .lexical (d.body.spelled (!g.quietRules.contains d.name)) d.body.span

namespace Compiler

variable {α β : Type} {c c' : Counters}

instance : LawfulMonad Compiler := by
  apply LawfulMonad.mk' Compiler
  · intro α x
    funext c
    change (x c).bind (fun value => (pure value : Compiler α)) = x c
    cases x c <;> rfl
  · intro α β value next
    rfl
  · intro α β γ x next last
    funext c
    change ((x c).bind next).bind last = (x c).bind fun value => (next value >>= last : Compiler γ)
    cases x c <;> rfl

/-- Whether two steps end with the same result or error, and leave their counters as they were. -/
def Alike (c c' : Counters) (x x' : Compiler α) : Prop :=
  ∃ r, x c = Run.ofExcept r c ∧ x' c' = Run.ofExcept r c'

lemma alike_pure (value : α) : Alike c c' (pure value) (pure value) := ⟨.ok value, rfl, rfl⟩

lemma alike_fail (error : GrammarError) :
    Alike c c' (Run.fail error : Compiler α) (Run.fail error) :=
  ⟨.error error, rfl, rfl⟩

lemma Alike.bind {x x' : Compiler α} {next next' : α → Compiler β} (h : Alike c c' x x')
    (hnext : ∀ value, Alike c c' (next value) (next' value)) :
    Alike c c' (x >>= next) (x' >>= next') := by
  obtain ⟨r, hx, hx'⟩ := h
  cases r with
  | ok value =>
    obtain ⟨r, hr, hr'⟩ := hnext value
    exact ⟨r, (Run.bind_of_success hx).trans hr, (Run.bind_of_success hx').trans hr'⟩
  | error e => exact ⟨.error e, Run.bind_of_failure hx, Run.bind_of_failure hx'⟩

lemma Alike.map {x x' : Compiler α} (h : Alike c c' x x') (f : α → β) :
    Alike c c' (do return f (← x)) (do return f (← x')) :=
  h.bind fun _ => alike_pure _

/-- Whether two runs of the compiler stand at the same place, and the second one below `lexical`. -/
structure Below (c c' : Counters) : Prop where
  closures_eq : c'.closures = c.closures
  lexical_pos : 0 < c'.lexical

lemma Alike.nested {x x' : Compiler α} (hc : Below c c')
    (h : ∀ d d', Below d d' → d.spaced = c.spaced → Alike d d' x x') :
    Alike c c' (nested x) (nested x') := by
  let enter : Counters → Counters := fun c => { c with closures := c.closures + 1 }
  have henter : Below (enter c) (enter c') := ⟨congrArg (· + 1) hc.closures_eq, hc.lexical_pos⟩
  obtain ⟨r, hr, hr'⟩ := h (enter c) (enter c') henter rfl
  exact ⟨r, bracket_ofExcept hr rfl, bracket_ofExcept hr' rfl⟩

lemma Alike.withoutSpacing {x x' : Compiler α} (hc : Below c c')
    (h : ∀ d d', Below d d' → d.spaced = false → Alike d d' x x') :
    Alike c c' (withoutSpacing x) (withoutSpacing x') := by
  let enter : Counters → Counters := fun c => { c with lexical := c.lexical + 1 }
  have henter : Below (enter c) (enter c') := ⟨hc.closures_eq, Nat.succ_pos _⟩
  obtain ⟨r, hr, hr'⟩ := h (enter c) (enter c') henter (by simp [enter, Counters.spaced])
  exact ⟨r, bracket_ofExcept hr rfl, bracket_ofExcept hr' rfl⟩

/-- A sequence takes implicit spacing in the first run only. -/
lemma Alike.spaces {items items' : List Expr} {next next' : Bool → Compiler α} (hc : Below c c')
    (h : Alike c c' (next (c.spaced && !Expr.allSyntactic items)) (next' false)) :
    Alike c c' (spaces items >>= next) (spaces items' >>= next') := by
  obtain ⟨r, hr, hr'⟩ := h
  have hspaces : Compiler.spaces items' c' = .success false c' := by
    simp [Compiler.spaces, hc.lexical_pos.ne']
  exact ⟨r, hr, (Run.bind_of_success hspaces).trans hr'⟩

lemma alike_site (hc : Below c c') : Alike c c' site site := by
  refine ⟨.ok c.site, rfl, ?_⟩
  rw [Counters.site, ← hc.closures_eq]
  rfl

variable {g g' : Grammar} (hdefines : ∀ name, g'.defines name = g.defines name)
include hdefines

lemma alike_reference (hc : Below c c') (name : String) (span : Span) :
    Alike c c' (reference g name span) (reference g' name span) := by
  apply (alike_site hc).bind
  intro here
  rw [hdefines]
  split
  · exact alike_pure _
  · split
    · exact alike_pure _
    · exact alike_fail _

/-- A step of implicit spacing is what a reference to the spacing rule is compiled to. -/
lemma alike_spacing (hc : Below c c') (span : Span) :
    Alike c c' (spacing g) (reference g' spacingName span) := by
  apply (alike_site hc).bind
  intro here
  rw [hdefines]
  split
  · exact alike_pure _
  · exact alike_pure _

end Compiler

namespace Expr

open Compiler

variable {g g' : Grammar} {quiet quiet' : List String} {c c' : Counters}

lemma alike_compileItems {items items' : List Expr}
    (h : List.Forall₂ (fun e e' => Alike c c' (e.compile g quiet) (e'.compile g' quiet'))
      items items') :
    Alike c c' (compileItems g quiet false items) (compileItems g' quiet' false items') := by
  induction h with
  | nil =>
    simp only [compileItems]
    exact alike_pure _
  | cons hitem _ ih =>
    simp only [compileItems]
    apply (alike_pure _).bind
    intro before
    apply hitem.bind
    intro code
    exact ih.map _

lemma alike_spacedItems (hdefines : ∀ name, g'.defines name = g.defines name) (hc : Below c c')
    (span : Span) {items items' : List Expr}
    (h : List.Forall₂ (fun e e' => Alike c c' (e.compile g quiet) (e'.compile g' quiet'))
      items items') :
    Alike c c' (compileItems g quiet true items)
      (compileItems g' quiet' false
        (items'.flatMap fun item => [identifier spacingName span, item])) := by
  induction h with
  | nil =>
    simp only [List.flatMap_nil, compileItems]
    exact alike_pure _
  | cons hitem _ ih =>
    simp only [List.flatMap_cons, List.cons_append, List.nil_append, compileItems, compile,
      spacingBefore, if_true, Bool.false_eq_true, if_false, bind_assoc, pure_bind]
    apply (alike_spacing hdefines hc span).bind
    intro gap
    apply hitem.bind
    intro code
    exact ih.bind fun after => alike_pure _

/-- Below `lexical`, an expression with its spacing written out is compiled to what it is compiled to
with implicit spacing. -/
theorem alike_spelled (hdefines : ∀ name, g'.defines name = g.defines name) {e : Expr}
    (he : e.isPlain = true) (hc : Below c c') :
    Alike c c' (e.compile g quiet) ((e.spelled c.spaced).compile g' quiet') := by
  have hitems : ∀ {items : List Expr} {c d d' : Counters}, allPlain items = true →
      (∀ e ∈ items, ∀ {c c'}, e.isPlain = true → Below c c' →
        Alike c c' (e.compile g quiet) ((e.spelled c.spaced).compile g' quiet')) →
      Below d d' → d.spaced = c.spaced →
      List.Forall₂ (fun e e' => Alike d d' (e.compile g quiet) (e'.compile g' quiet')) items
        (allSpelled c.spaced items) := by
    intro items c d d' hplain ih hd hspaced
    rw [allSpelled_eq_map, List.forall₂_map_right_iff, List.forall₂_same]
    intro e hmem
    rw [← hspaced]
    exact ih e hmem (allPlain_iff.mp hplain e hmem) hd
  have hchoice : ∀ (items : List Expr) (span : Span) {c c' : Counters}, allPlain items = true →
      (∀ e ∈ items, ∀ {c c'}, e.isPlain = true → Below c c' →
        Alike c c' (e.compile g quiet) ((e.spelled c.spaced).compile g' quiet')) →
      Below c c' → Alike c c' ((choice items span).compile g quiet)
        ((choice (allSpelled c.spaced items) span).compile g' quiet') := by
    intro items span c c' hplain ih hc
    match items with
    | [] =>
      simp only [allSpelled, compile]
      exact alike_fail _
    | [only] =>
      simp only [allSpelled, compile]
      exact ih only (by simp) (allPlain_iff.mp hplain only (by simp)) hc
    | first :: second :: others =>
      have hnested := Alike.nested hc fun d d' hd hspaced =>
        alike_compileItems (hitems hplain ih hd hspaced)
      simp only [allSpelled] at hnested
      simp only [allSpelled, compile]
      exact hnested.map _
  have hnested : ∀ {body : Expr} {c c' : Counters}, (∀ {c c'}, Below c c' →
        Alike c c' (body.compile g quiet) ((body.spelled c.spaced).compile g' quiet')) →
      Below c c' → Alike c c' (nested (body.compile g quiet))
        (nested ((body.spelled c.spaced).compile g' quiet')) := by
    intro body c c' ih hc
    apply Alike.nested hc
    intro d d' hd hspaced
    rw [← hspaced]
    exact ih hd
  induction e using inductionOn generalizing c c' with
  | any | literal | range =>
    simp only [spelled, compile]
    exact (alike_site hc).map _
  | identifier name span =>
    simp only [spelled, compile]
    exact alike_reference hdefines hc name span
  | charClass members span ih =>
    rw [spelled, compile_charClass, compile_charClass]
    exact hchoice members span he (fun e he => ih e he) hc
  | choice alternatives span ih =>
    rw [spelled]
    exact hchoice alternatives span he (fun e he => ih e he) hc
  | optional body span ih =>
    simp only [spelled, compile]
    refine Alike.map (Alike.nested hc fun d d' hd hspaced => ?_) _
    rw [← hspaced]
    exact (ih he hd).map _
  | zeroOrMore body span ih | oneOrMore body span ih | andPredicate body span ih
  | notPredicate body span ih =>
    simp only [spelled, compile]
    exact (hnested (ih he) hc).map _
  | lexical body span ih =>
    simp only [spelled, compile]
    apply Alike.withoutSpacing hc
    intro d d' hd hspaced
    rw [← hspaced]
    exact ih he hd
  | labeled label body span ih =>
    simp only [spelled, compile]
    refine Alike.map (Alike.nested hc fun d d' hd hspaced => ?_) _
    rw [← hspaced]
    exact (ih he hd).bind fun code => (alike_site hd).map _
  | sequence items span ih =>
    have hplain : allPlain items = true := he
    cases hgaps : c.spaced && !allSyntactic items with
    | true =>
      simp only [spelled, hgaps, if_true, compile]
      apply Alike.spaces hc
      rw [hgaps]
      refine Alike.map (Alike.nested hc fun d d' hd hspaced => ?_) _
      exact alike_spacedItems hdefines hd span (hitems hplain (fun e he => ih e he) hd hspaced)
    | false =>
      simp only [spelled, hgaps, Bool.false_eq_true, if_false, compile]
      apply Alike.spaces hc
      rw [hgaps]
      refine Alike.map (Alike.nested hc fun d d' hd hspaced => ?_) _
      exact alike_compileItems (hitems hplain (fun e he => ih e he) hd hspaced)
  | definition | imported | grammar => cases he

end Expr

namespace Grammar

open Compiler

variable {g : Grammar}

lemma alike_compileDefinitions {definitions : List Definition} {g' : Grammar}
    (hdefines : ∀ name, g'.defines name = g.defines name) (quiet quiet' : List String)
    (h : ∀ d ∈ definitions, d.body.isPlain = true) :
    Alike {} {} (Expr.compileDefinitions g quiet definitions)
      (Expr.compileDefinitions g' quiet' (definitions.map fun d =>
        { d with body := .lexical (d.body.spelled (!quiet.contains d.name)) d.body.span })) := by
  induction definitions with
  | nil =>
    simp only [List.map_nil, Expr.compileDefinitions]
    exact alike_pure _
  | cons d definitions ih =>
    have hrule : Alike {} {} (inDefinition (quiet.contains d.name) (d.body.compile g quiet))
        (inDefinition (quiet'.contains d.name) ((Expr.lexical
          (d.body.spelled (!quiet.contains d.name)) d.body.span).compile g' quiet')) := by
      let q := quiet.contains d.name
      let q' := quiet'.contains d.name
      have hbelow : Below ⟨1, 0, 0, q⟩ ⟨1, 0, 1, q'⟩ := ⟨rfl, Nat.one_pos⟩
      have hspaced : Counters.spaced ⟨1, 0, 0, q⟩ = !q := by simp [Counters.spaced]
      obtain ⟨r, hr, hr'⟩ : Alike ⟨1, 0, 0, q⟩ ⟨1, 0, 1, q'⟩ (d.body.compile g quiet)
          ((d.body.spelled !q).compile g' quiet') :=
        hspaced ▸ Expr.alike_spelled hdefines (h d (by simp)) hbelow
      have hlexical : (withoutSpacing ((d.body.spelled !q).compile g' quiet')) ⟨1, 0, 0, q'⟩ =
          Run.ofExcept r ⟨1, 0, 0, q'⟩ := bracket_ofExcept hr' rfl
      simp only [Expr.compile]
      exact ⟨r, bracket_ofExcept hr rfl, bracket_ofExcept hlexical rfl⟩
    simp only [List.map_cons, Expr.compileDefinitions]
    apply hrule.bind
    intro code
    exact (ih fun d hd => h d (by simp [hd])).map _

theorem compile_spelled (h : g.isPlain = true) : g.spelled.compile = g.compile := by
  have hplain : ∀ d ∈ g.definitions, d.body.isPlain = true := List.all_eq_true.mp h
  unfold compile compiler
  have himports : g.spelled.imports = g.imports := rfl
  rw [himports]
  cases g.imports with
  | cons i imports => rfl
  | nil =>
    have hdefines : ∀ name, g.spelled.defines name = g.defines name := defines_mapBodies
    obtain ⟨r, hr, hr'⟩ := (alike_compileDefinitions hdefines g.quietRules g.spelled.quietRules
      hplain).map Program.mk
    exact congrArg Compiler.result (hr'.trans hr.symm)

/-- Implicit spacing is sugar. For every grammar that was read or comes out of assembly, writing the
spacing out changes nothing in what the compiler gives, neither the code nor the error. -/
theorem compile_spelled_of_read_or_assembled (hg : g.IsRead ∨ g.Assembled) :
    g.spelled.compile = g.compile := by
  apply compile_spelled
  rcases hg with hread | hassembled
  · exact List.all_eq_true.mpr fun d hd => (hread.isNormal d hd).wellFormed.isPlain
  · exact hassembled.isPlain_and_validate.1

end Grammar

/-- `S <- 'a' (S / #('b' S))`, with a spacing rule that uses another rule. -/
def margins : Grammar where
  imports := []
  definitions := [
    ⟨"S", .sequence [.literal "a" {}, .choice [.identifier "S" {},
      .lexical (.sequence [.literal "b" {}, .identifier "S" {}] {}) {}] {}] {}, {}⟩,
    ⟨"Spacing", .sequence [.zeroOrMore (.identifier "Blank" {}) {},
      .notPredicate (.literal "b" {}) {}] {}, {}⟩,
    ⟨"Blank", .literal " " {}, {}⟩]
  span := {}
  distinct := by decide

theorem assembled_margins : margins.Assembled := by
  refine ⟨fun path => .error (.importNotFound path ""), 1, none, margins, {}, by rfl, ?_, by rfl⟩
  intro path found h
  cases h

/-- Spacing is written out in the first rule, and not below `lexical` or in the spacing rule. -/
theorem compile_spelled_margins :
    margins.spelled.definitions.map Rule.text =
      ["S <- #(Spacing 'a' Spacing (S / #('b' S)))", "Spacing <- #(Blank* !'b')",
        "Blank <- #' '"] ∧
      margins.spelled.compile = margins.compile :=
  ⟨rfl, Grammar.compile_spelled_of_read_or_assembled (.inr assembled_margins)⟩

end LabeledPeg
