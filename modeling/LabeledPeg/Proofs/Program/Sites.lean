import LabeledPeg.Proofs.Program.Compile
import LabeledPeg.Proofs.Program.Faults

/-!
# Where the leaves of a rule stand

The targets write every sequence, choice, repetition, lookahead and labeled fragment as a function of
its own. A leaf of the code is marked as nested exactly if it lies below such a fragment, so a mark
tells a target whether the leaf stands directly in the procedure of its rule.
-/

namespace LabeledPeg

/-- The mark of a leaf that lies below a fragment with a function of its own, or below none. -/
def CallSite.of (below : Bool) : CallSite := if below then .nested else .rule

namespace Code

/-- The mark of a leaf. -/
def site? : Code → Option CallSite
  | throw _ site | call _ site | builtin _ site | literal _ site | range _ _ site | any site =>
    some site
  | sequence _ | choice _ | empty | repetition _ _ | lookahead _ _ | labeled _ | procedure _ _
  | program _ => none

/-- A leaf, and whether it lies below a fragment with a function of its own. -/
structure Leaf where
  code : Code
  below : Bool

/-- Whether a leaf is marked by where it lies. -/
def Leaf.Marked (leaf : Leaf) : Prop := leaf.code.site? = some (.of leaf.below)

mutual

/-- The leaves of a fragment, in order. `below` tells of those that no fragment in it is written
around. A procedure begins anew. -/
def leaves (below : Bool) : Code → List Leaf
  | sequence items | choice items => allLeaves true items
  | repetition _ body | lookahead _ body | labeled body => body.leaves true
  | procedure _ body => body.leaves false
  | program procedures => procedureLeaves procedures
  | empty => []
  | throw label site => [⟨throw label site, below⟩]
  | call rule site => [⟨call rule site, below⟩]
  | builtin rule site => [⟨builtin rule site, below⟩]
  | literal value site => [⟨literal value site, below⟩]
  | range lo hi site => [⟨range lo hi site, below⟩]
  | any site => [⟨any site, below⟩]

/-- The leaves of a list of fragments. -/
def allLeaves (below : Bool) : List Code → List Leaf
  | [] => []
  | code :: codes => code.leaves below ++ allLeaves below codes

/-- The leaves of a list of procedures. -/
def procedureLeaves : List (Procedure Code) → List Leaf
  | [] => []
  | ⟨_, body⟩ :: procedures => body.leaves false ++ procedureLeaves procedures

end

lemma allLeaves_eq_flatMap (below : Bool) (codes : List Code) :
    allLeaves below codes = codes.flatMap (leaves below) := by
  induction codes with
  | nil => simp only [allLeaves, List.flatMap_nil]
  | cons code codes ih => simp only [allLeaves, ih, List.flatMap_cons]

end Code

namespace Code

/-- Whether every leaf of a fragment is marked by where it lies. -/
def AllMarked (below : Bool) (code : Code) : Prop := ∀ leaf ∈ code.leaves below, leaf.Marked

lemma marked_allLeaves {codes : List Code} (h : ∀ c ∈ codes, c.AllMarked true) :
    ∀ leaf ∈ allLeaves true codes, leaf.Marked := by
  rw [allLeaves_eq_flatMap]
  intro leaf hleaf
  obtain ⟨c, hc, hmem⟩ := List.mem_flatMap.mp hleaf
  exact h c hc leaf hmem

lemma allMarked_throw (label : String) : (throw label .nested).AllMarked true := by
  simp [AllMarked, leaves, Leaf.Marked, site?, CallSite.of]

end Code

namespace Expr

open Code

variable {g : Grammar}

lemma allMarked_nameCode (name : String) (below : Bool) :
    (g.nameCode name (.of below)).AllMarked below := by
  unfold Grammar.nameCode
  split
  · simp [AllMarked, leaves, Leaf.Marked, site?]
  · split <;> simp [AllMarked, leaves, Leaf.Marked, site?]

lemma allMarked_codes {items : List Expr} {spaced : Bool}
    (h : ∀ e ∈ items, (e.code g spaced .nested).AllMarked true) :
    ∀ c ∈ codes g spaced items, c.AllMarked true := by
  rw [codes_eq_map]
  exact List.forall_mem_map.mpr h

lemma allMarked_stepCodes (gaps : Bool) {codes : List Code} (h : ∀ c ∈ codes, c.AllMarked true) :
    ∀ c ∈ g.stepCodes gaps codes, c.AllMarked true := by
  unfold Grammar.stepCodes
  split
  · intro c hc
    obtain ⟨step, hstep, hmem⟩ := List.mem_flatMap.mp hc
    rcases List.mem_pair.mp hmem with rfl | rfl
    · exact allMarked_nameCode spacingName true
    · exact h c hstep
  · exact h

/-- A choice of one alternative is that alternative, and no fragment around it. -/
lemma allMarked_choice {items : List Expr} {span : Span}
    (h : ∀ e ∈ items, ∀ spaced below, (e.code g spaced (.of below)).AllMarked below) (spaced below : Bool) :
    ((choice items span).code g spaced (.of below)).AllMarked below := by
  match items with
  | [] => simp [AllMarked, code, codes, leaves, allLeaves]
  | [only] =>
    simp only [code]
    exact h only List.mem_cons_self spaced below
  | first :: second :: others =>
    simp only [code, AllMarked, leaves]
    exact marked_allLeaves (allMarked_codes fun e he => h e he spaced true)

/-- In the code of an expression every leaf is marked by where it lies. -/
theorem allMarked_code (e : Expr) (spaced below : Bool) :
    (e.code g spaced (.of below)).AllMarked below := by
  induction e using inductionOn generalizing spaced below with
  | any | literal | range => simp [AllMarked, code, leaves, Leaf.Marked, site?]
  | identifier name span =>
    simp only [code]
    exact allMarked_nameCode name below
  | charClass members span ih =>
    rw [code_charClass]
    exact allMarked_choice ih spaced below
  | choice alternatives span ih => exact allMarked_choice ih spaced below
  | optional body span ih =>
    have hbody : (body.code g spaced .nested).AllMarked true := ih spaced true
    have hempty : Code.empty.AllMarked true := by simp [AllMarked, leaves]
    simp only [code, AllMarked, leaves]
    exact marked_allLeaves (by simp [hbody, hempty])
  | zeroOrMore body span ih | oneOrMore body span ih | andPredicate body span ih
  | notPredicate body span ih =>
    simp only [code, AllMarked, leaves]
    exact ih spaced true
  | lexical body span ih =>
    simp only [code]
    exact ih false below
  | labeled label body span ih =>
    have hbody : (body.code g spaced .nested).AllMarked true := ih spaced true
    simp only [code, AllMarked, leaves]
    exact marked_allLeaves (by simp [hbody, allMarked_throw])
  | sequence items span ih =>
    simp only [code, AllMarked, leaves]
    exact marked_allLeaves (allMarked_stepCodes _ (allMarked_codes fun e he => ih e he spaced true))
  | definition | imported | grammar => simp [AllMarked, code, leaves]

end Expr

/-- In the parser of a grammar of expressions every leaf is marked as nested exactly if it lies
below a fragment with a function of its own. -/
theorem Grammar.allMarked_of_compile {g : Grammar} {p : Program} (hplain : g.isPlain = true)
    (h : g.compile = .ok p) : ∀ q ∈ p.procedures, q.body.AllMarked false := by
  have hvalid := validate_of_compile hplain h
  obtain rfl : g.program = p := Except.ok.inj ((compile_eq_program hplain hvalid).symm.trans h)
  rw [program]
  exact List.forall_mem_map.mpr fun d _ => d.body.allMarked_code _ false

end LabeledPeg
