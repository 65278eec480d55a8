import LabeledPeg.Proofs.Program.Go

/-!
# Literals in Go texts

A reader of the string and rune literals in a Go text. A literal ends at the first quote of its kind
that no backslash stands before, has no line break, and takes the escapes of its kind only. What the
writer makes of a value is read as that value, also where its lines are moved to the right.
-/

namespace LabeledPeg.Go

/-- A literal, by its value. -/
inductive Literal where
  | string (value : String)
  | rune (value : Char)
deriving DecidableEq

/-- Where the reader is: between literals, in a literal with the characters so far backwards, behind
a backslash, or in the digits of an escape by number. `left` more digits follow the next one, and
`byte` tells that the number is one of a byte. -/
inductive Place where
  | code
  | inside (quote : Char) (read : List Char)
  | escape (quote : Char) (read : List Char)
  | digits (quote : Char) (read : List Char) (byte : Bool) (base left value : Nat)

/-- The literal that a closing quote ends. A rune literal has one character. -/
def closed? (quote : Char) (read : List Char) : Option Literal :=
  if quote = '"' then some (.string (String.ofList read.reverse))
  else match read with
    | [c] => some (.rune c)
    | _ => none

/-- The character that an escape of one letter stands for. -/
def letterEscape? : Char → Option Char
  | 'a' => some '\x07'
  | 'b' => some '\x08'
  | 'f' => some '\x0c'
  | 'n' => some '\n'
  | 'r' => some '\r'
  | 't' => some '\t'
  | 'v' => some '\x0b'
  | '\\' => some '\\'
  | _ => none

/-- The value of a digit. -/
def digit? (base : Nat) (c : Char) : Option Nat :=
  let value :=
    if c.isDigit then c.toNat - '0'.toNat
    else if 'a' ≤ c ∧ c ≤ 'f' then c.toNat - 'a'.toNat + 10
    else if 'A' ≤ c ∧ c ≤ 'F' then c.toNat - 'A'.toNat + 10
    else base
  if value < base then some value else none

/-- The digits that the letter of an escape asks for; octal ones begin at once. -/
def digitsAfter? (quote : Char) (read : List Char) : Char → Option Place
  | 'x' => some (.digits quote read true 16 1 0)
  | 'u' => some (.digits quote read false 16 3 0)
  | 'U' => some (.digits quote read false 16 7 0)
  | c => (digit? 8 c).map (.digits quote read true 8 1)

/-- The character of a number. A byte above ASCII is a rune, but no character of a string. -/
def numbered? (quote : Char) (byte : Bool) (value : Nat) : Option Char :=
  if byte && decide ((if quote = '"' then 127 else 255) < value) then none
  else if value.isValidChar then some (Char.ofNat value)
  else none

/-- Reads one character. Comments and raw literals are refused, for the quotes in them are none. -/
def next? : Place → Char → Option (Place × List Literal)
  | .code, c =>
    if c = '"' ∨ c = '\'' then some (.inside c [], [])
    else if c = '\x60' ∨ c = '/' then none
    else some (.code, [])
  | .inside quote read, c =>
    if c = quote then (closed? quote read).map fun found => (.code, [found])
    else if c = '\\' then some (.escape quote read, [])
    else if c = '\n' then none
    else some (.inside quote (c :: read), [])
  | .escape quote read, c =>
    if c = quote then some (.inside quote (c :: read), [])
    else match letterEscape? c with
      | some meant => some (.inside quote (meant :: read), [])
      | none => (digitsAfter? quote read c).map fun place => (place, [])
  | .digits quote read byte base left value, c =>
    (digit? base c).bind fun digit =>
      match left with
      | left + 1 => some (.digits quote read byte base left (value * base + digit), [])
      | 0 => (numbered? quote byte (value * base + digit)).map fun meant =>
        (.inside quote (meant :: read), [])

/-- The literals from a place on, if the text ends outside of them. -/
def literalsFrom : Place → List Char → Option (List Literal)
  | .code, [] => some []
  | _, [] => none
  | place, c :: text =>
    (next? place c).bind fun (place', found) => (literalsFrom place' text).map (found ++ ·)

/-- The literals of a text, from left to right. -/
def literals (text : List Char) : Option (List Literal) := literalsFrom .code text

/-- A tab and a quote by number, a quote by itself, and runes by letter and by number. -/
example : literals "f(\"\\x09\\u0022\\\"\", '\\n', '\\377', '\"')".toList =
    some [.string "\t\"\"", .rune '\n', .rune 'ÿ', .rune '"'] := by decide +kernel

/-- A line break in a literal, an escaped quote of the other kind, and a rune of two characters. -/
example : ["\"a\nb\"", "\"\\'\"", "'ab'"].map (fun text => literals text.toList) =
    [none, none, none] := by decide +kernel

lemma literalsFrom_of_next {place place' : Place} {c : Char} {found : List Literal} {rest : List Char}
    (h : next? place c = some (place', found)) :
    literalsFrom place (c :: rest) = (literalsFrom place' rest).map (found ++ ·) := by
  cases place <;> simp only [literalsFrom, h, Option.bind_some]

lemma literalsFrom_of_silent {place place' : Place} {c : Char} {rest : List Char}
    (h : next? place c = some (place', [])) :
    literalsFrom place (c :: rest) = literalsFrom place' rest := by
  rw [literalsFrom_of_next h]
  simp

/-- Whether the reader comes from a place to another one while it stays in one literal. -/
inductive Stays : Place → List Char → Place → Prop
  | refl (place : Place) : Stays place [] place
  | step {place place' place'' : Place} {c : Char} {text : List Char} (hplace : place ≠ .code)
    (h : next? place c = some (place', [])) (hrest : Stays place' text place'') :
    Stays place (c :: text) place''

lemma Stays.append {place place' place'' : Place} {first second : List Char}
    (h : Stays place first place') (h' : Stays place' second place'') :
    Stays place (first ++ second) place'' := by
  induction h with
  | refl => exact h'
  | step hplace hnext _ ih => exact .step hplace hnext (ih h')

lemma Stays.literalsFrom_append {place place' : Place} {text rest : List Char}
    (h : Stays place text place') : literalsFrom place (text ++ rest) = literalsFrom place' rest := by
  induction h with
  | refl => rfl
  | step _ hnext _ ih => rw [List.cons_append, literalsFrom_of_silent hnext, ih]

variable {quote c : Char} {read rest : List Char}

lemma stays_letterEscape {letter : Char} (hquote : quote ≠ '\\') (hletter : letter ≠ quote)
    (h : letterEscape? letter = some c) :
    Stays (.inside quote read) ['\\', letter] (.inside quote (c :: read)) := by
  have hbackslash : next? (.inside quote read) '\\' = some (.escape quote read, []) := by
    simp [next?, hquote.symm]
  have hescape : next? (.escape quote read) letter = some (.inside quote (c :: read), []) := by
    simp [next?, hletter, h]
  exact .step (by simp) hbackslash (.step (by simp) hescape (.refl _))

/-- A written character is read as itself. -/
lemma stays_escapeChar (hquote : quote = '"' ∨ quote = '\'') (c : Char) :
    Stays (.inside quote read) (escapeChar quote c) (.inside quote (c :: read)) := by
  have hbackslash : quote ≠ '\\' := by rcases hquote with rfl | rfl <;> decide
  have hletter : ∀ letter, letter ≠ '"' → letter ≠ '\'' → letter ≠ quote := by
    intro letter hdouble hsingle
    rcases hquote with rfl | rfl
    · exact hdouble
    · exact hsingle
  have hescape : next? (.inside quote read) '\\' = some (.escape quote read, []) := by
    simp [next?, hbackslash.symm]
  unfold escapeChar
  split
  · exact stays_letterEscape hbackslash (hletter _ (by decide) (by decide)) rfl
  · exact stays_letterEscape hbackslash (hletter _ (by decide) (by decide)) rfl
  · exact stays_letterEscape hbackslash (hletter _ (by decide) (by decide)) rfl
  · exact stays_letterEscape hbackslash (hletter _ (by decide) (by decide)) rfl
  · -- `NUL` has no letter, so it is written by its number
    have hdigits : next? (.escape quote read) 'x' =
        some (.digits quote read true 16 1 0, []) := by
      simp [next?, hletter 'x' (by decide) (by decide), letterEscape?, digitsAfter?]
    have hfirst : next? (.digits quote read true 16 1 0) '0' =
        some (.digits quote read true 16 0 0, []) := rfl
    have hsecond : next? (.digits quote read true 16 0 0) '0' =
        some (.inside quote ('\x00' :: read), []) := by
      rcases hquote with rfl | rfl <;> rfl
    exact .step (by simp) hescape (.step (by simp) hdigits (.step (by simp) hfirst
      (.step (by simp) hsecond (.refl _))))
  · next hslash hbreak _ _ _ =>
    split
    · next heq =>
      have hmeant : next? (.escape quote read) c = some (.inside quote (c :: read), []) := by
        simp [next?, heq]
      exact .step (by simp) hescape (.step (by simp) hmeant (.refl _))
    · next hne =>
      have hplain : next? (.inside quote read) c = some (.inside quote (c :: read), []) := by
        simp only [next?, if_neg hne, if_neg hslash, if_neg hbreak]
      exact .step (by simp) hplain (.refl _)

lemma stays_escaped (hquote : quote = '"' ∨ quote = '\'') (value : List Char) :
    Stays (.inside quote read) (value.flatMap (escapeChar quote))
      (.inside quote (value.reverse ++ read)) := by
  induction value generalizing read with
  | nil => exact .refl _
  | cons c value ih =>
    rw [List.flatMap_cons, List.reverse_cons, List.append_assoc, List.singleton_append]
    exact (stays_escapeChar hquote c).append ih

/-- At its quote a literal is complete. -/
lemma next?_quote {found : Literal} (h : closed? quote read = some found) :
    next? (.inside quote read) quote = some (.code, [found]) := by
  simp [next?, h]

lemma literalsFrom_inside (hquote : quote = '"' ∨ quote = '\'') (value : List Char)
    {found : Literal} (h : closed? quote (value.reverse ++ read) = some found) :
    literalsFrom (.inside quote read) (value.flatMap (escapeChar quote) ++ quote :: rest) =
      (literals rest).map ([found] ++ ·) := by
  rw [(stays_escaped hquote value).literalsFrom_append]
  exact literalsFrom_of_next (next?_quote h)

/-- What the writer makes of a string is read as that string. -/
lemma literals_stringLiteral (value : String) :
    literals ((stringLiteral value).toList ++ rest) =
      (literals rest).map ([.string value] ++ ·) := by
  have hopen : next? .code '"' = some (.inside '"' [], []) := rfl
  have hclosed : closed? '"' (value.toList.reverse ++ []) = some (.string value) := by
    simp [closed?]
  have htext : (stringLiteral value).toList ++ rest =
      '"' :: (value.toList.flatMap (escapeChar '"') ++ '"' :: rest) := by
    simp [stringLiteral]
  rw [htext, literals, literalsFrom_of_silent hopen]
  exact literalsFrom_inside (.inl rfl) value.toList hclosed

/-- What the writer makes of a character is read as that character. -/
lemma literals_runeLiteral (c : Char) :
    literals ((runeLiteral c).toList ++ rest) = (literals rest).map ([.rune c] ++ ·) := by
  have hopen : next? .code '\'' = some (.inside '\'' [], []) := rfl
  have hclosed : closed? '\'' ([c].reverse ++ []) = some (.rune c) := rfl
  have htext : (runeLiteral c).toList ++ rest =
      '\'' :: ([c].flatMap (escapeChar '\'') ++ '\'' :: rest) := by
    simp [runeLiteral]
  rw [htext, literals, literalsFrom_of_silent hopen]
  exact literalsFrom_inside (.inr rfl) [c] hclosed

/-! ## Texts between other texts -/

/-- Whether the literals of a text are `found`, whatever text follows and how far its lines are moved
to the right. -/
def Shows (text : String) (found : List Literal) : Prop :=
  ∀ levels rest, literals ((indent levels text).toList ++ rest) = (literals rest).map (found ++ ·)

lemma toList_indent (levels : Nat) (text : String) :
    (indent levels text).toList = text.toList.flatMap fun c =>
      if c = '\n' then '\n' :: List.replicate levels '\t' else [c] := by
  rw [indent, String.toList_ofList]

lemma indent_append (levels : Nat) (first second : String) :
    indent levels (first ++ second) = indent levels first ++ indent levels second := by
  apply String.toList_injective
  simp [toList_indent]

lemma indent_of_unbroken {text : String} (h : Unbroken text) (levels : Nat) :
    indent levels text = text := by
  apply String.toList_injective
  rw [toList_indent]
  calc
    _ = text.toList.flatMap fun c => [c] := by
      refine List.flatMap_congr fun c hc => if_neg ?_
      rintro rfl
      exact h hc
    _ = text.toList := List.flatMap_singleton' text.toList

/-- Moving lines twice moves them as far as both. -/
lemma indent_indent (levels levels' : Nat) (text : String) :
    indent levels (indent levels' text) = indent (levels + levels') text := by
  have htabs : ∀ n, (List.replicate n '\t').flatMap
      (fun c => if c = '\n' then '\n' :: List.replicate levels '\t' else [c]) =
        List.replicate n '\t' := by
    intro n
    induction n with
    | zero => rfl
    | succ n ih => simp [List.replicate_succ, ih]
  apply String.toList_injective
  simp only [toList_indent, List.flatMap_assoc]
  refine List.flatMap_congr fun c _ => ?_
  split
  · simp only [List.flatMap_cons, if_true, htabs, List.cons_append, List.replicate_add]
  · next hc => simp [hc]

lemma Shows.literals_eq {text : String} {found : List Literal} (h : Shows text found)
    (rest : List Char) : literals (text.toList ++ rest) = (literals rest).map (found ++ ·) := by
  have hzero := h 0 rest
  have hsame : ∀ c : Char, (if c = '\n' then '\n' :: List.replicate 0 '\t' else [c]) = [c] := by
    intro c
    split <;> simp [*]
  rwa [toList_indent, List.flatMap_congr fun c _ => hsame c, List.flatMap_singleton'] at hzero

lemma Shows.append {first second : String} {found found' : List Literal} (h : Shows first found)
    (h' : Shows second found') : Shows (first ++ second) (found ++ found') := by
  intro levels rest
  rw [indent_append, String.toList_append, List.append_assoc, h, h', Option.map_map]
  simp [Function.comp_def]

lemma Shows.indent {text : String} {found : List Literal} (h : Shows text found) (levels : Nat) :
    Shows (indent levels text) found := by
  intro more rest
  rw [indent_indent]
  exact h _ rest

lemma shows_stringLiteral (value : String) : Shows (stringLiteral value) [.string value] := by
  intro levels rest
  rw [indent_of_unbroken (unbroken_stringLiteral value)]
  exact literals_stringLiteral value

lemma shows_runeLiteral (c : Char) : Shows (runeLiteral c) [.rune c] := by
  intro levels rest
  rw [indent_of_unbroken (unbroken_runeLiteral c)]
  exact literals_runeLiteral c

/-- Whether a text has no literals and no comments. -/
def Unquoted (text : String) : Prop := ∀ c ∈ text.toList, c ∉ ['"', '\'', '\x60', '/']

instance (text : String) : Decidable (Unquoted text) :=
  List.decidableBAll (fun c => c ∉ ['"', '\'', '\x60', '/']) text.toList

lemma Unquoted.shows {text : String} (h : Unquoted text) : Shows text [] := by
  have hread : ∀ code rest : List Char, (∀ c ∈ code, c ∉ ['"', '\'', '\x60', '/']) →
      literals (code ++ rest) = literals rest := by
    intro code rest hcode
    induction code with
    | nil => rfl
    | cons c code ih =>
      have hc := hcode c List.mem_cons_self
      have hnext : next? .code c = some (.code, []) := by
        simp only [List.mem_cons, List.not_mem_nil, or_false, not_or] at hc
        simp [next?, hc]
      rw [literals, List.cons_append, literalsFrom_of_silent hnext]
      exact ih fun c' hc' => hcode c' (List.mem_cons_of_mem c hc')
  intro levels rest
  rw [hread]
  · simp
  · rw [toList_indent]
    intro c hc
    obtain ⟨c', hc', hmem⟩ := List.mem_flatMap.mp hc
    split at hmem
    · rcases List.mem_cons.mp hmem with rfl | htab
      · decide
      · rw [List.eq_of_mem_replicate htab]
        decide
    · rw [List.mem_singleton.mp hmem]
      exact h c' hc'

end LabeledPeg.Go
