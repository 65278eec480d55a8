import LabeledPeg.Proofs.Grammar.Equality
import LabeledPeg.Proofs.Program.Faults
import LabeledPeg.Proofs.Program.Sharing
import LabeledPeg.Proofs.Source.Value

/-!
# Rules are compiled one by one

The code of a rule depends on its body, on which of the names in it are defined, on whether there is a
spacing rule and on what that rule reaches. A grammar that holds the rules of another one, in any
order, and more that none of these refers to, agrees with it on all of this.
-/

namespace LabeledPeg

namespace Grammar

/-- Whether `g'` has the rules of `g` in some order, spans apart, and of the others none that `g`
refers to and no spacing rule. -/
structure Extends (g' g : Grammar) : Prop where
  kept : ∀ d ∈ g.definitions, ∃ d' ∈ g'.definitions,
    d'.name = d.name ∧ d'.body.unspanned = d.body.unspanned
  spacing_mem : spacingName ∈ g'.names → spacingName ∈ g.names
  mentioned_mem : ∀ d ∈ g.definitions, ∀ r ∈ d.body.references, r.name ∈ g'.names → r.name ∈ g.names

namespace Extends

variable {g g' : Grammar} {name : String}

lemma shares_of_mem (h : g'.Extends g) (hname : name ∈ g.names) : g.Shares g' name := by
  obtain ⟨d, hd, rfl⟩ := List.mem_map.mp hname
  obtain ⟨d', hd', hname', hbody⟩ := h.kept d hd
  rw [Shares, definition?_eq_some_iff.mpr ⟨hd, rfl⟩, definition?_eq_some_iff.mpr ⟨hd', hname'⟩]
  simp only [Option.map_some, hbody]

/-- A name that both grammars define or none is shared. -/
lemma shares (h : g'.Extends g) (hname : name ∈ g'.names → name ∈ g.names) : g.Shares g' name := by
  by_cases hmem : name ∈ g.names
  · exact h.shares_of_mem hmem
  · have hnone : g.definition? name = none := definition?_eq_none_iff.mpr hmem
    have hnone' : g'.definition? name = none := definition?_eq_none_iff.mpr (mt hname hmem)
    rw [Shares, hnone, hnone']

lemma sharedBy (h : g'.Extends g) : g.SharedBy g' (· ∈ g.names) where
  shares _ := h.shares_of_mem
  spacing := h.shares h.spacing_mem
  reached _ hreaches := by
    cases hreaches with
    | root _ hdefined => exact hdefined
    | step _ _ _ hdefined => exact hdefined
  references d hd _ r hr := ⟨h.shares (h.mentioned_mem d hd r hr), id⟩

end Extends

/-- A grammar keeps the code of its rules when they are put in another order, and other rules are
added that no body mentions and that are not the spacing rule. -/
theorem body?_eq_of_extends {g g' : Grammar} (hg : g.FromTexts) (hg' : g'.FromTexts)
    (hextends : g'.Extends g) {p p' : Program} (hp : g.compile = .ok p) (hp' : g'.compile = .ok p') :
    ∀ name ∈ g.names, ∃ code, p.body? name = some code ∧ p'.body? name = some code := by
  have hprogram {g : Grammar} (hg : g.FromTexts) {p : Program} (hp : g.compile = .ok p) :
      g.program = p := by
    have hcompile := compile_eq_program hg.isPlain (validate_of_compile hg.isPlain hp)
    exact Except.ok.inj (hcompile.symm.trans hp)
  obtain rfl := hprogram hg hp
  obtain rfl := hprogram hg' hp'
  intro name hname
  obtain ⟨d, hd, rfl⟩ := List.mem_map.mp hname
  have hbody : g.program.body? d.name = _ := body?_program
  rw [definition?_eq_some_iff.mpr ⟨hd, rfl⟩, Option.map_some] at hbody
  exact ⟨_, hbody, hextends.sharedBy.body?_program hname ▸ hbody⟩

end Grammar

/-- `List <- Item (',' Item)* EOF`, `Item <- [a-z]` and `Spacing <- ' '*`, each in a line. -/
def roster : Grammar where
  imports := []
  definitions := [
    ⟨"List", .sequence [.identifier "Item" ⟨8, 12⟩, .zeroOrMore (.sequence [.literal "," ⟨14, 17⟩,
      .identifier "Item" ⟨18, 22⟩] ⟨14, 22⟩) ⟨13, 24⟩, .identifier "EOF" ⟨25, 28⟩] ⟨8, 29⟩, ⟨0, 29⟩⟩,
    ⟨"Item", .charClass [.range 'a' 'z' ⟨38, 41⟩] ⟨37, 42⟩, ⟨29, 43⟩⟩,
    ⟨"Spacing", .zeroOrMore (.literal " " ⟨54, 57⟩) ⟨54, 58⟩, ⟨43, 58⟩⟩]
  span := ⟨0, 58⟩
  distinct := by decide

/-- A text that is read as `roster`. -/
def rosterText : {text : String // Grammar.read text = .ok roster} :=
  ⟨"List <- Item (',' Item)* EOF\nItem <- [a-z]\nSpacing <- ' '*", by decide +kernel⟩

/-- The same rules the other way round, with `Pair <- List End` and `End <- Spacing .` around
them. -/
def pairing : Grammar where
  imports := []
  definitions := [
    ⟨"Spacing", .zeroOrMore (.literal " " ⟨11, 14⟩) ⟨11, 15⟩, ⟨0, 16⟩⟩,
    ⟨"Pair", .sequence [.identifier "List" ⟨24, 28⟩, .identifier "End" ⟨29, 32⟩] ⟨24, 33⟩, ⟨16, 33⟩⟩,
    ⟨"Item", .charClass [.range 'a' 'z' ⟨42, 45⟩] ⟨41, 46⟩, ⟨33, 47⟩⟩,
    ⟨"List", .sequence [.identifier "Item" ⟨55, 59⟩, .zeroOrMore (.sequence [.literal "," ⟨61, 64⟩,
      .identifier "Item" ⟨65, 69⟩] ⟨61, 69⟩) ⟨60, 71⟩, .identifier "EOF" ⟨72, 75⟩] ⟨55, 76⟩, ⟨47, 76⟩⟩,
    ⟨"End", .sequence [.identifier "Spacing" ⟨83, 90⟩, .any ⟨91, 92⟩] ⟨83, 92⟩, ⟨76, 92⟩⟩]
  span := ⟨0, 92⟩
  distinct := by decide

/-- A text that is read as `pairing`. -/
def pairingText : {text : String // Grammar.read text = .ok pairing} :=
  ⟨"Spacing <- ' '*\nPair <- List End\nItem <- [a-z]\nList <- Item (',' Item)* EOF\nEnd <- Spacing .",
    by decide +kernel⟩

lemma pairing_extends_roster : pairing.Extends roster where
  kept := by simp [roster, pairing, Expr.unspanned, Expr.allUnspanned]
  spacing_mem := by decide
  mentioned_mem := by decide

/-- A rule with spacing between its items, in the repetition too, is compiled to the same code
behind the rules that were added. -/
theorem body?_eq_of_extends_pairing : ∃ p p', roster.compile = .ok p ∧ pairing.compile = .ok p' ∧
    p.names = ["List", "Item", "Spacing"] ∧
    p'.names = ["Spacing", "Pair", "Item", "List", "End"] ∧
    ∀ name ∈ roster.names, ∃ code, p.body? name = some code ∧ p'.body? name = some code := by
  have hcompile : roster.compile = .ok roster.program := by rfl
  have hcompile' : pairing.compile = .ok pairing.program := by rfl
  exact ⟨_, _, hcompile, hcompile', by rfl, by rfl, Grammar.body?_eq_of_extends
    (.inl ⟨_, rosterText.2⟩) (.inl ⟨_, pairingText.2⟩) pairing_extends_roster hcompile hcompile'⟩

end LabeledPeg
