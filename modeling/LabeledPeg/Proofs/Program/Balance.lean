import LabeledPeg.Proofs.Program.Faults

/-!
# The counters of the compiler are balanced

What the compiler counts up at a node it counts down behind it, whether it has code for the node or
refuses it. A definition is the exception: it begins the count of closures anew and leaves the
spacing rule behind, wherever it stands, and what was counted outside of it is lost. So the count is
short behind a definition that stands inside a closure, and the compiler is cut off where it leaves
the closure.
-/

namespace LabeledPeg

namespace Counters

/-- The counters behind a definition: no closure is counted, and no spacing rule is being compiled. -/
def cleared (c : Counters) : Counters := { c with closures := 0, inSpacingRule := false }

/-- Whether counters are what they were, or cleared. -/
def Settled (c d : Counters) : Prop := d = c ∨ d = c.cleared

@[simp] lemma cleared_cleared (c : Counters) : c.cleared.cleared = c.cleared := rfl

lemma Settled.cleared {c d : Counters} (h : c.Settled d) : d.cleared = c.cleared := by
  obtain rfl | rfl := h <;> rfl

end Counters

namespace Compiler

variable {α β : Type} {x : Compiler α} {next : α → Compiler β}

/-! ## Every step -/

/-- Whether a step leaves the counters as they were, or cleared, also when it fails. -/
def Settles (x : Compiler α) : Prop :=
  ∀ c : Counters, x.Ensures c.Settled (fun _ => True) fun _ => True

lemma Settles.settled (h : Settles x) {c d : Counters} (hd : (x c).state? = some d) :
    c.Settled d :=
  (h c c (.inl rfl)).keeps_of_state? hd

lemma settles_pure (value : α) : Settles (pure value) := fun _ => Run.ensures_pure trivial

lemma settles_fail (error : GrammarError) : Settles (Run.fail error : Compiler α) :=
  fun _ => Run.ensures_fail trivial

lemma Settles.bind (h : Settles x) (hnext : ∀ value, Settles (next value)) :
    Settles (x >>= next) :=
  fun c => (h c).bind fun value _ => hnext value c

lemma Settles.map (h : Settles x) (f : α → β) : Settles (do return f (← x)) :=
  h.bind fun _ => settles_pure _

lemma settles_site : Settles site := fun _ _ hs => .success trivial hs

lemma settles_spaces (items : List Expr) : Settles (spaces items) := fun _ _ hs => .success trivial hs

lemma settles_reference (g : Grammar) (name : String) (span : Span) :
    Settles (reference g name span) := by
  apply settles_site.bind
  intro here
  split
  · exact settles_pure _
  · split
    · exact settles_pure _
    · exact settles_fail _

lemma settles_spacingBefore (g : Grammar) (spaced : Bool) : Settles (spacingBefore g spaced) := by
  have hspacing : Settles (spacing g) := by
    apply settles_site.bind
    intro here
    split <;> exact settles_pure _
  rw [spacingBefore]
  split
  · exact hspacing.map _
  · exact settles_pure _

/-- What a bracket leaves is what its `leave` makes of the counters that the step inside leaves. -/
lemma ensures_bracket {enter : Counters → Counters} {leave : Counters → Option Counters}
    {keeps : Counters → Prop} (h : Settles x)
    (hleave : ∀ s d d', keeps s → (enter s).Settled d → leave d = some d' → keeps d') :
    (bracket enter leave x).Ensures keeps (fun _ => True) fun _ => True := by
  intro s hs
  have hx := h (enter s) (enter s) (.inl rfl)
  unfold bracket
  generalize x (enter s) = o at hx ⊢
  cases hx with
  | @success value d _ hd =>
    cases hd' : leave d with
    | none => simpa [Outcome.filterMapState, hd'] using .unfinished
    | some d' => simpa [Outcome.filterMapState, hd'] using .success trivial (hleave s d d' hs hd hd')
  | @failure error d _ hd =>
    cases hd' : leave d with
    | none => simpa [Outcome.filterMapState, hd'] using .unfinished
    | some d' => simpa [Outcome.filterMapState, hd'] using .failure trivial (hleave s d d' hs hd hd')
  | unfinished => exact .unfinished

lemma Settles.nested (h : Settles x) : Settles (Compiler.nested x) := by
  refine fun c => ensures_bracket h fun s d d' hs hd hleave => ?_
  obtain rfl | rfl := hd
  · exact Option.some.inj hleave ▸ hs
  -- a definition was passed inside the closure: nothing is left to count down
  · cases hleave

lemma Settles.withoutSpacing (h : Settles x) : Settles (Compiler.withoutSpacing x) := by
  refine fun c => ensures_bracket h fun s d d' hs hd hleave => ?_
  obtain rfl | rfl := hd
  · exact Option.some.inj hleave ▸ hs
  · exact Option.some.inj hleave ▸ .inr hs.cleared

lemma Settles.inDefinition (h : Settles x) (quiet : Bool) : Settles (inDefinition quiet x) := by
  refine fun c => ensures_bracket h fun s d d' hs hd hleave => ?_
  obtain rfl | rfl := hd <;> exact Option.some.inj hleave ▸ .inr hs.cleared

/-! ## Steps that pass a definition -/

/-- Whether a step clears the counters, if it ends with a value. -/
def Clears (x : Compiler α) : Prop := ∀ c value d, x c = .success value d → d = c.cleared

lemma Settles.bind_clears (h : Settles x) (hnext : ∀ value, Clears (next value)) :
    Clears (x >>= next) := by
  intro c value e hrun
  obtain ⟨a, d, hx, hrest⟩ := Run.bind_eq_success_iff.mp hrun
  have hd : c.Settled d := h.settled (by rw [hx]; rfl)
  exact (hnext a d value e hrest).trans hd.cleared

lemma Clears.bind (h : Clears x) (hnext : ∀ value, Settles (next value)) :
    Clears (x >>= next) := by
  intro c value e hrun
  obtain ⟨a, d, hx, hrest⟩ := Run.bind_eq_success_iff.mp hrun
  obtain rfl := h c a d hx
  have hsettled : c.cleared.Settled e := (hnext a).settled (by rw [hrest]; rfl)
  obtain rfl | rfl := hsettled <;> rfl

lemma Clears.map (h : Clears x) (f : α → β) : Clears (do return f (← x)) :=
  h.bind fun _ => settles_pure _

/-- Whether a step never ends with a value: it is refused or cut off. -/
def Fruitless (x : Compiler α) : Prop := ∀ c value d, x c ≠ .success value d

lemma Fruitless.clears (h : Fruitless x) : Clears x := fun c value d hrun => absurd hrun (h c value d)

lemma fruitless_fail (error : GrammarError) : Fruitless (Run.fail error : Compiler α) := by
  intro c value d hrun
  cases hrun

lemma Fruitless.bind (h : Fruitless x) (next : α → Compiler β) : Fruitless (x >>= next) := by
  intro c value d hrun
  obtain ⟨a, c', hx, -⟩ := Run.bind_eq_success_iff.mp hrun
  exact h c a c' hx

lemma fruitless_bind (x : Compiler α) (h : ∀ value, Fruitless (next value)) :
    Fruitless (x >>= next) := by
  intro c value d hrun
  obtain ⟨a, c', -, hnext⟩ := Run.bind_eq_success_iff.mp hrun
  exact h a c' value d hnext

/-- A closure is fruitless if the count of closures is lost inside it. -/
lemma Clears.nested (h : Clears x) : Fruitless (Compiler.nested x) := by
  intro c value d hrun
  obtain ⟨d', hx, hleave⟩ := Outcome.filterMapState_eq_success_iff.mp hrun
  obtain rfl := h _ _ _ hx
  cases hleave

lemma Clears.withoutSpacing (h : Clears x) : Clears (Compiler.withoutSpacing x) := by
  intro c value d hrun
  obtain ⟨d', hx, hleave⟩ := Outcome.filterMapState_eq_success_iff.mp hrun
  obtain rfl := h _ _ _ hx
  exact (Option.some.inj hleave).symm

lemma clears_inDefinition (h : Settles x) (quiet : Bool) : Clears (inDefinition quiet x) := by
  intro c value d hrun
  obtain ⟨d', hx, hleave⟩ := Outcome.filterMapState_eq_success_iff.mp hrun
  obtain rfl | rfl := h.settled (by rw [hx]; rfl) <;> exact (Option.some.inj hleave).symm

end Compiler

namespace Expr

open Compiler

variable {g : Grammar} {quiet : List String}

lemma settles_compileItems (spaced : Bool) {items : List Expr}
    (h : ∀ e ∈ items, Settles (e.compile g quiet)) :
    Settles (compileItems g quiet spaced items) := by
  induction items with
  | nil =>
    simp only [compileItems]
    exact settles_pure _
  | cons item items ih =>
    simp only [compileItems]
    apply (settles_spacingBefore g spaced).bind
    intro before
    apply (h item (by simp)).bind
    intro code
    exact (ih fun e he => h e (by simp [he])).map _

lemma settles_choice {items : List Expr} (span : Span)
    (h : ∀ e ∈ items, Settles (e.compile g quiet)) :
    Settles ((choice items span).compile g quiet) := by
  match items with
  | [] =>
    simp only [compile]
    exact settles_fail _
  | [only] =>
    simp only [compile]
    exact h only (by simp)
  | first :: second :: others =>
    simp only [compile]
    exact (settles_compileItems false h).nested.map _

lemma settles_compileDefinitions {definitions : List Definition}
    (h : ∀ d ∈ definitions, Settles (d.body.compile g quiet)) :
    Settles (compileDefinitions g quiet definitions) := by
  induction definitions with
  | nil =>
    simp only [compileDefinitions]
    exact settles_pure _
  | cons d definitions ih =>
    simp only [compileDefinitions]
    apply ((h d (by simp)).inDefinition _).bind
    intro code
    exact (ih fun d hd => h d (by simp [hd])).map _

lemma settles_compile (e : Expr) : Settles (e.compile g quiet) := by
  induction e using inductionOn with
  | any | literal | range =>
    simp only [compile]
    exact settles_site.map _
  | identifier name span =>
    simp only [compile]
    exact settles_reference g name span
  | charClass members span ih =>
    rw [compile_charClass]
    exact settles_choice span ih
  | choice alternatives span ih => exact settles_choice span ih
  | optional body span ih =>
    simp only [compile]
    exact (ih.map _).nested.map _
  | zeroOrMore body span ih | oneOrMore body span ih | andPredicate body span ih
  | notPredicate body span ih =>
    simp only [compile]
    exact ih.nested.map _
  | lexical body span ih =>
    simp only [compile]
    exact ih.withoutSpacing
  | labeled label body span ih =>
    simp only [compile]
    exact (ih.bind fun attempt => settles_site.map _).nested.map _
  | sequence items span ih =>
    simp only [compile]
    exact (settles_spaces items).bind fun spaced => (settles_compileItems spaced ih).nested.map _
  | definition rule ih =>
    obtain ⟨name, body, span⟩ := rule
    simp only [compile]
    exact (ih.inDefinition _).map _
  | imported clause =>
    simp only [compile]
    exact settles_fail _
  | grammar imports definitions span ih =>
    cases imports with
    | cons i others =>
      simp only [compile]
      exact settles_fail _
    | nil =>
      simp only [compile]
      exact (settles_compileDefinitions ih).map _

/-- Every node, with whatever below it, leaves the counters as they were, or as they are behind a
definition, also where it is refused. -/
theorem settled_compile (e : Expr) {c d : Counters} (h : (e.compile g quiet c).state? = some d) :
    c.Settled d :=
  (settles_compile e).settled h

/-- The compiler is always inside as many definitions and `lexical` nodes behind a node as before
it. -/
theorem depth_lexical_compile (e : Expr) {c d : Counters}
    (h : (e.compile g quiet c).state? = some d) : d.depth = c.depth ∧ d.lexical = c.lexical := by
  obtain rfl | rfl := settled_compile e h <;> exact ⟨rfl, rfl⟩

/-- A node that has no definition below it is never cut off and leaves all counters as they were, also
where it is refused. -/
theorem compile_counters {e : Expr} (hplain : e.isPlain = true) (c : Counters) :
    (e.compile g quiet c).state? = some c := by
  have hjudges : (e.compile g quiet).Judges (e.Faulted g) := judges_compile hplain
  obtain ⟨r, hrun, -⟩ := hjudges c
  rw [hrun, Run.state?_ofExcept]

lemma compile_definition_counters {d : Definition} (hplain : d.body.isPlain = true) (c : Counters) :
    ((definition d).compile g quiet c).state? = some c.cleared := by
  obtain ⟨name, body, span⟩ := d
  have hjudges : (body.compile g quiet).Judges (body.Faulted g) := judges_compile hplain
  obtain ⟨r, hrun, -⟩ := hjudges ⟨c.depth + 1, 0, c.lexical, quiet.contains name⟩
  have hbody : inDefinition (quiet.contains name) (body.compile g quiet) c =
      Run.ofExcept r c.cleared := bracket_ofExcept hrun rfl
  simp only [compile]
  cases r with
  | ok code => rw [Run.bind_of_success hbody]; rfl
  | error e => rw [Run.bind_of_failure hbody]; rfl

/-- A definition inside an expression puts the counters back only where it stands inside no closure
and outside the rules that take no spacing. -/
theorem compile_definition_counters_iff {d : Definition} (hplain : d.body.isPlain = true)
    (c : Counters) :
    ((definition d).compile g quiet c).state? = some c ↔
      c.closures = 0 ∧ c.inSpacingRule = false := by
  rw [compile_definition_counters hplain, Option.some.injEq]
  constructor
  · intro h
    rw [← h]
    exact ⟨rfl, rfl⟩
  · obtain ⟨depth, closures, lexical, inSpacingRule⟩ := c
    rintro ⟨rfl, rfl⟩
    rfl

/-- Inside a closure that holds nothing but a definition the compiler is cut off, wherever it is. -/
theorem compile_zeroOrMore_definition {d : Definition} (hplain : d.body.isPlain = true)
    (span : Span) (c : Counters) :
    (zeroOrMore (definition d) span).compile g quiet c = .unfinished := by
  let inside : Counters := { c with closures := c.closures + 1 }
  have hbody : ((definition d).compile g quiet inside).state? = some inside.cleared :=
    compile_definition_counters hplain inside
  have hnested : nested ((definition d).compile g quiet) c = .unfinished := by
    unfold nested bracket
    change ((definition d).compile g quiet inside).filterMapState _ = .unfinished
    generalize (definition d).compile g quiet inside = o at hbody ⊢
    cases o with
    | success code c' => obtain rfl := Option.some.inj hbody; rfl
    | failure e c' => obtain rfl := Option.some.inj hbody; rfl
    | unfinished => cases hbody
  simp only [compile]
  exact Run.bind_of_unfinished hnested

/-! ## Definitions inside closures -/

/-- Whether a node is compiled inside a closure of its own. -/
def isClosure : Expr → Bool
  | charClass (_ :: _ :: _) _ | choice (_ :: _ :: _) _ => true
  | optional _ _ | zeroOrMore _ _ | oneOrMore _ _ | andPredicate _ _ | notPredicate _ _
  | labeled _ _ _ | sequence _ _ => true
  | _ => false

/-- Whether the count of closures begins anew in a node. -/
def beginsAnew : Expr → Bool
  | definition _ | grammar _ (_ :: _) _ => true
  | _ => false

lemma clears_compileItems (spaced : Bool) {items : List Expr} {e : Expr} (he : e ∈ items)
    (h : Clears (e.compile g quiet)) : Clears (compileItems g quiet spaced items) := by
  induction items with
  | nil => cases he
  | cons item items ih =>
    simp only [compileItems]
    apply (settles_spacingBefore g spaced).bind_clears
    intro before
    rcases List.mem_cons.mp he with rfl | hmem
    · exact h.bind fun code => (settles_compileItems spaced fun e _ => settles_compile e).map _
    · exact (settles_compile item).bind_clears fun code => (ih hmem).map _

lemma fruitless_choice {items : List Expr} (span : Span) {e : Expr} (he : e ∈ items)
    (hclosure : (choice items span).isClosure = true) (h : Clears (e.compile g quiet)) :
    Fruitless ((choice items span).compile g quiet) := by
  match items with
  | [] => cases he
  | [only] => cases hclosure
  | first :: second :: others =>
    simp only [compile]
    exact (clears_compileItems false he h).nested.bind _

/-- A closure is fruitless if the count of closures is lost in a node right below it. -/
lemma fruitless_of_child {e child : Expr} (hclosure : e.isClosure = true)
    (hchild : child ∈ e.children) (h : Clears (child.compile g quiet)) :
    Fruitless (e.compile g quiet) := by
  cases e with
  | charClass members span =>
    rw [compile_charClass]
    refine fruitless_choice span hchild ?_ h
    match members with
    | [] | [_] => cases hclosure
    | _ :: _ :: _ => rfl
  | choice alternatives span => exact fruitless_choice span hchild hclosure h
  | optional body span =>
    obtain rfl := List.mem_singleton.mp hchild
    simp only [compile]
    exact (h.map _).nested.bind _
  | zeroOrMore body span | oneOrMore body span | andPredicate body span | notPredicate body span =>
    obtain rfl := List.mem_singleton.mp hchild
    simp only [compile]
    exact h.nested.bind _
  | labeled label body span =>
    obtain rfl := List.mem_singleton.mp hchild
    simp only [compile]
    exact (h.bind fun attempt => settles_site.map _).nested.bind _
  | sequence items span =>
    simp only [compile]
    exact fruitless_bind _ fun spaced => (clears_compileItems spaced hchild h).nested.bind _
  | any | literal | range | identifier | lexical | definition | imported | grammar => cases hclosure

/-- A node clears the counters if the count begins anew in it, and if a node right below it does. -/
lemma clears_of_beginsAnew {e : Expr} (h : e.beginsAnew = true) : Clears (e.compile g quiet) := by
  cases e with
  | definition rule =>
    obtain ⟨name, body, span⟩ := rule
    simp only [compile]
    exact (clears_inDefinition (settles_compile body) _).map _
  | grammar imports definitions span =>
    cases imports with
    | cons i others =>
      simp only [compile]
      exact (fruitless_fail _).clears
    | nil =>
      cases definitions with
      | nil => cases h
      | cons d definitions =>
        obtain ⟨name, body, span⟩ := d
        simp only [compile, compileDefinitions]
        refine Clears.map (Clears.bind (clears_inDefinition (settles_compile body) _) ?_) _
        exact fun code => (settles_compileDefinitions fun d _ => settles_compile d.body).map _
  | _ => cases h

lemma clears_of_child {e child : Expr} (hchild : child ∈ e.children)
    (h : Clears (child.compile g quiet)) : Clears (e.compile g quiet) := by
  by_cases hclosure : e.isClosure = true
  · exact (fruitless_of_child hclosure hchild h).clears
  cases e with
  | any | literal | range | identifier | imported => cases hchild
  | charClass items span | choice items span =>
    cases items with
    | nil => cases hchild
    | cons only others =>
      cases others with
      | nil =>
        obtain rfl := List.mem_singleton.mp hchild
        simp only [compile]
        exact h
      | cons second others => exact absurd rfl hclosure
  | lexical body span =>
    obtain rfl := List.mem_singleton.mp hchild
    simp only [compile]
    exact h.withoutSpacing
  | definition rule => exact clears_of_beginsAnew rfl
  | grammar imports definitions span =>
    cases definitions with
    | nil => cases hchild
    | cons d definitions => exact clears_of_beginsAnew rfl
  | optional | zeroOrMore | oneOrMore | andPredicate | notPredicate | labeled | sequence =>
    exact absurd rfl hclosure

/-- A closure that holds a definition, however deep, has no code: the compiler refuses the grammar, or
it is cut off where it would count the closures below zero. -/
theorem compile_ne_success {e node : Expr} (hclosure : e.isClosure = true) (hnode : node.Within e)
    (hanew : node.beginsAnew = true) (c : Counters) (code : Code) (d : Counters) :
    e.compile g quiet c ≠ .success code d := by
  have hclears {e : Expr} (h : node.Within e) : Clears (e.compile g quiet) := by
    induction h with
    | self => exact clears_of_beginsAnew hanew
    | deeper hchild _ ih => exact clears_of_child hchild ih
  cases hnode with
  | self =>
    cases e with
    | definition | grammar => cases hclosure
    | _ => cases hanew
  | deeper hchild h => exact fruitless_of_child hclosure hchild (hclears h) c code d

/-- In a sequence of a definition and a literal the compiler is cut off behind the literal. -/
example : Grammar.compile ⟨[], [⟨"S", .sequence [.definition ⟨"D", .literal "a" {}, {}⟩,
    .literal "b" {}] {}, {}⟩], {}, by decide⟩ = .error .cutOff := by rfl

end Expr

namespace Grammar

variable {g : Grammar}

/-- The compiler ends with the counters it began with, if no definition stands inside another. -/
theorem compiler_counters (hplain : g.isPlain = true) : (g.compiler {}).state? = some {} := by
  obtain ⟨r, hrun, -⟩ := judges_compiler hplain
  rw [hrun, Run.state?_ofExcept]

end Grammar

end LabeledPeg
