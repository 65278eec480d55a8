import LabeledPeg.Proofs.Grammar.Assembly
import LabeledPeg.Proofs.Program.Sharing

/-!
# Imported rules keep their meaning

What an import selects is in the grammar that the root assembles to, and in the one that the imported
grammar assembles to alone, with the same bodies. The two parsers match it in the same way if the two
grammars agree on what a body can call without saying so: the built-in names, and what implicit
spacing reaches.
-/

namespace LabeledPeg

open Parse

namespace Sources

variable {sources sources' : Sources} {g behind : Grammar} {i : Import} {path : String}

lemma reached_import (hi : i ∈ g.imports) : sources.Reached g i.path := ⟨i, hi, .refl⟩

/-- Two collections of sources are the same to a grammar if they have the same behind every path that
it reaches. -/
def Alike (sources sources' : Sources) (g : Grammar) : Prop :=
  ∀ path, sources.Reached g path → sources' path = sources path

lemma Alike.symm (h : sources.Alike sources' g) : sources'.Alike sources g := by
  rintro path ⟨i, hi, hleads⟩
  -- along a path of imports, both collections have the same behind every import
  have hreached : sources.Reached g path := by
    induction hleads with
    | refl => exact reached_import hi
    | tail _ hedge ih =>
      obtain ⟨from', hfrom, i', hi', rfl⟩ := hedge
      obtain ⟨i₀, hi₀, hleads₀⟩ := ih
      rw [h _ ⟨i₀, hi₀, hleads₀⟩] at hfrom
      exact ⟨i₀, hi₀, hleads₀.tail ⟨from', hfrom, i', hi', rfl⟩⟩
  exact (h path hreached).symm

lemma Belongs.reference {selection : Option (List String)} {d d' : Definition} {r : Reference}
    (h : sources.Belongs g selection d) (hr : r ∈ d.body.references) (hd' : sources.Closed g d')
    (hname : d'.name = r.name) : sources.Belongs g selection d' := by
  cases selection with
  | none => exact hd'
  | some names => exact .needed h hr hd' hname

end Sources

namespace Grammar

/-- Whether two grammars agree on a name: neither defines it, or both with one body text. -/
def AgreesOn (g g' : Grammar) (name : String) : Prop :=
  (g.definition? name).map (·.body.text) = (g'.definition? name).map (·.body.text)

variable {g g' : Grammar} {name : String}

lemma AgreesOn.shares (hg : ∀ d ∈ g.definitions, d.body.IsNormal)
    (hg' : ∀ d ∈ g'.definitions, d.body.IsNormal) (h : g.AgreesOn g' name) : g.Shares g' name := by
  unfold AgreesOn at h
  unfold Shares
  cases hd : g.definition? name with
  | none =>
    rw [hd] at h
    rw [Option.map_eq_none_iff.mp h.symm]
  | some d =>
    rw [hd] at h
    obtain ⟨d', hd', htext⟩ := Option.map_eq_some_iff.mp h.symm
    -- the text of a body that was read says all but its spans
    have hunspanned : d'.body.unspanned = d.body.unspanned :=
      (hg' d' (definition?_eq_some_iff.mp hd').1).unspanned_eq
        (hg d (definition?_eq_some_iff.mp hd).1) htext
    rw [hd', Option.map_some, Option.map_some, hunspanned]

end Grammar

namespace Library

variable {library : Library} {rootPath? : Option String} {root g : Grammar}

section Read

variable (hlibrary : ∀ entry ∈ library, entry.2.IsRead) (hroot : root.IsRead)
  (h : library.assemble rootPath? root = some (.ok g))
include hlibrary hroot h

end Read

variable {path? : Option String} {behind alone : Grammar} {selection : Option (List String)}

end Library

/-- `Pair <- 'a' 'b'` and `Spacing <- ' '*`, a line each. -/
def pairs : Grammar :=
  ⟨[], [⟨"Pair", .sequence [.literal "a" ⟨8, 11⟩, .literal "b" ⟨12, 15⟩] ⟨8, 16⟩, ⟨0, 16⟩⟩,
    ⟨"Spacing", .zeroOrMore (.literal " " ⟨27, 30⟩) ⟨27, 31⟩, ⟨16, 31⟩⟩], ⟨0, 31⟩, by decide⟩

end LabeledPeg
