import LabeledPeg.Proofs.Program.Lexis

/-!
# Go texts token by token

A reader of the words, marks and literals of a Go text. A word is as long as possible, and a line
break stands in no literal, so a text is read in the same way wherever its lines begin.
-/

namespace LabeledPeg.Go

open Text

/-- A word, a mark of one character, or a literal. -/
inductive Token where
  | word (chars : List Char)
  | mark (c : Char)
  | literal (value : Literal)
deriving DecidableEq

/-- Where the reader is: in a literal, or behind the characters of a word, which stand backwards. -/
structure Scanner where
  place : Place := .code
  word : List Char := []

namespace Scanner

/-- The word that ends here, if there is one. -/
def words (s : Scanner) : List Token := if s.word = [] then [] else [.word s.word.reverse]

/-- What a character stands for that is in no word and in no literal. A quote belongs to the literal
that it opens. -/
def marks (c : Char) : List Token :=
  if c ∈ [' ', '\t', '\n', '"', '\''] then [] else [.mark c]

/-- Reads one character. -/
def next? (s : Scanner) (c : Char) : Option (Scanner × List Token) :=
  match s.place with
  | .code =>
    if isAsciiContinue c then some (⟨.code, c :: s.word⟩, [])
    else (Go.next? .code c).map fun step => (⟨step.1, []⟩, s.words ++ marks c)
  | place =>
    if c = '\n' then none
    else (Go.next? place c).map fun step => (⟨step.1, []⟩, step.2.map .literal)

/-- Reads a text. -/
def scan (s : Scanner) : List Char → Option (Scanner × List Token)
  | [] => some (s, [])
  | c :: text =>
    (s.next? c).bind fun step => (step.1.scan text).map fun rest => (rest.1, step.2 ++ rest.2)

end Scanner

/-- The tokens of a text, if it does not end in a literal. -/
def tokens? (text : List Char) : Option (List Token) :=
  (Scanner.scan {} (text ++ ['\n'])).map Prod.snd

example : tokens? "x1 := f(\"a b\"+y)".toList =
    some [.word ['x', '1'], .mark ':', .mark '=', .word ['f'], .mark '(', .literal (.string "a b"),
      .mark '+', .word ['y'], .mark ')'] := by decide +kernel

variable {s s' s'' : Scanner} {first second text : List Char} {found found' : List Token}

namespace Scanner

lemma scan_cons {c : Char} (h : s.next? c = some (s', found)) (h' : s'.scan text = some (s'', found')) :
    s.scan (c :: text) = some (s'', found ++ found') := by
  simp only [scan, h, Option.bind_some, h', Option.map_some]

lemma scan_eq_cons {c : Char} (h : s.scan (c :: text) = some (s', found)) :
    ∃ s₁ found₁ found₂, s.next? c = some (s₁, found₁) ∧ s₁.scan text = some (s', found₂) ∧
      found = found₁ ++ found₂ := by
  rw [scan] at h
  obtain ⟨⟨s₁, found₁⟩, hnext, hrest⟩ := Option.bind_eq_some_iff.mp h
  obtain ⟨⟨s₂, found₂⟩, hscan, heq⟩ := Option.map_eq_some_iff.mp hrest
  obtain ⟨rfl, rfl⟩ := Prod.mk.inj heq
  exact ⟨s₁, found₁, found₂, hnext, hscan, rfl⟩

lemma scan_append (h : s.scan first = some (s', found)) (h' : s'.scan second = some (s'', found')) :
    s.scan (first ++ second) = some (s'', found ++ found') := by
  induction first generalizing s found with
  | nil =>
    obtain ⟨rfl, rfl⟩ := Prod.mk.inj (Option.some.inj h)
    exact h'
  | cons c first ih =>
    obtain ⟨s₁, found₁, found₂, hnext, hrest, rfl⟩ := scan_eq_cons h
    rw [List.cons_append, List.append_assoc]
    exact scan_cons hnext (ih hrest)

lemma scan_eq_append (h : s.scan (first ++ second) = some (s', found)) :
    ∃ s₁ found₁ found₂, s.scan first = some (s₁, found₁) ∧ s₁.scan second = some (s', found₂) ∧
      found = found₁ ++ found₂ := by
  induction first generalizing s found with
  | nil => exact ⟨s, [], found, rfl, h, rfl⟩
  | cons c first ih =>
    obtain ⟨s₁, found₁, others, hnext, hrest, rfl⟩ := scan_eq_cons h
    obtain ⟨s₂, found₂, found₃, hfirst, hsecond, rfl⟩ := ih hrest
    exact ⟨s₂, found₁ ++ found₂, found₃, scan_cons hnext hfirst, hsecond, by simp⟩

lemma scan_tabs (levels : Nat) : scan {} (List.replicate levels '\t') = some ({}, []) := by
  induction levels with
  | zero => rfl
  | succ levels ih =>
    have hnext : next? {} '\t' = some ({}, []) := rfl
    exact scan_cons hnext ih

/-- A line break ends a word, and is followed by as many tabs as there may be. -/
lemma scan_newline (word : List Char) (levels : Nat) :
    scan ⟨.code, word⟩ ('\n' :: List.replicate levels '\t') = some ({}, words ⟨.code, word⟩) := by
  have hnewline : next? ⟨.code, word⟩ '\n' = some ({}, words ⟨.code, word⟩) := by
    simp [next?, Go.next?, marks, show isAsciiContinue '\n' = false by decide]
  simpa using scan_cons hnewline (scan_tabs levels)

lemma next?_newline (h : s.next? '\n' = some (s', found)) :
    s.place = .code ∧ s' = {} ∧ found = s.words := by
  obtain ⟨place, word⟩ := s
  cases place with
  | code =>
    simp [next?, Go.next?, marks, show isAsciiContinue '\n' = false by decide] at h
    exact ⟨rfl, h.1.symm, h.2.symm⟩
  | inside | escape | digits => simp [next?] at h

/-- Lines that are moved to the right have the same tokens. -/
lemma scan_indent (levels : Nat) {text : String} (h : s.scan text.toList = some (s', found)) :
    s.scan (indent levels text).toList = some (s', found) := by
  rw [toList_indent]
  generalize text.toList = chars at h
  induction chars generalizing s found with
  | nil => exact h
  | cons c chars ih =>
    obtain ⟨s₁, found₁, found₂, hnext, hrest, rfl⟩ := scan_eq_cons h
    rw [List.flatMap_cons]
    refine scan_append ?_ (ih hrest)
    by_cases hc : c = '\n'
    · subst hc
      obtain ⟨hplace, rfl, rfl⟩ := next?_newline hnext
      obtain ⟨place, word⟩ := s
      obtain rfl : place = .code := hplace
      rw [if_pos rfl]
      exact scan_newline word levels
    · rw [if_neg hc]
      simpa using scan_cons hnext (rfl : scan s₁ [] = some (s₁, []))

/-- The characters of a name go on with the word before them. -/
lemma scan_word {name : List Char} (h : ∀ c ∈ name, isAsciiContinue c = true) (word : List Char) :
    scan ⟨.code, word⟩ name = some (⟨.code, name.reverse ++ word⟩, []) := by
  induction name generalizing word with
  | nil => rfl
  | cons c name ih =>
    have hnext : next? ⟨.code, word⟩ c = some (⟨.code, c :: word⟩, []) := by
      simp [next?, h c List.mem_cons_self]
    have hrest := ih (fun c hc => h c (List.mem_cons_of_mem _ hc)) (c :: word)
    simpa using scan_cons hnext hrest

/-- A word ends at a character that is in no word. -/
lemma scan_behind_word {word : List Char} (hword : word ≠ []) {c : Char}
    (hc : isAsciiContinue c = false) (h : scan {} (c :: text) = some (s', found)) :
    scan ⟨.code, word⟩ (c :: text) = some (s', .word word.reverse :: found) := by
  obtain ⟨s₁, found₁, found₂, hnext, hrest, rfl⟩ := scan_eq_cons h
  have hstep : next? ⟨.code, word⟩ c = some (s₁, .word word.reverse :: found₁) := by
    simp only [next?, hc, Bool.false_eq_true, if_false] at hnext ⊢
    obtain ⟨step, hplace, heq⟩ := Option.map_eq_some_iff.mp hnext
    obtain ⟨rfl, rfl⟩ := Prod.mk.inj heq
    rw [hplace]
    simp [words, hword]
  exact scan_cons hstep hrest

/-- Inside a literal there are no tokens. -/
lemma scan_stays {place place' : Place} (h : Stays place text place') (hunbroken : '\n' ∉ text) :
    scan ⟨place, []⟩ text = some (⟨place', []⟩, []) := by
  induction h with
  | refl => rfl
  | @step place place' place'' c text hplace hnext _ ih =>
    obtain ⟨hc, htext⟩ := not_or.mp (mt List.mem_cons.mpr hunbroken)
    have hscanner : next? ⟨place, []⟩ c = some (⟨place', []⟩, []) := by
      cases place with
      | code => exact absurd rfl hplace
      | inside | escape | digits => simp [next?, hnext, Ne.symm hc]
    exact scan_cons hscanner (ih htext)

/-- What the writer makes of a string or a character is one token. -/
lemma scan_escaped {quote : Char} (hquote : quote = '"' ∨ quote = '\'') {value : List Char}
    {literal : Literal} (h : closed? quote value.reverse = some literal) :
    scan {} (quote :: value.flatMap (escapeChar quote) ++ [quote]) = some ({}, [.literal literal]) := by
  have hopen : next? {} quote = some (⟨.inside quote [], []⟩, []) := by
    rcases hquote with rfl | rfl <;> rfl
  have hunbroken : '\n' ∉ value.flatMap (escapeChar quote) := by
    intro hmem
    obtain ⟨c, -, hc⟩ := List.mem_flatMap.mp hmem
    exact not_mem_escapeChar quote c hc
  have hstays : Stays (.inside quote []) (value.flatMap (escapeChar quote))
      (.inside quote (value.reverse ++ [])) := stays_escaped hquote value
  have hinside := scan_stays hstays hunbroken
  have hclose : next? ⟨.inside quote value.reverse, []⟩ quote = some ({}, [.literal literal]) := by
    have hbreak : quote ≠ '\n' := by rcases hquote with rfl | rfl <;> decide
    simp [next?, hbreak, next?_quote h]
  rw [List.append_nil] at hinside
  simpa using scan_cons hopen (scan_append hinside (scan_cons hclose rfl))

end Scanner

/-- Whether a text that begins and ends between words has the tokens `found`. -/
def Tokenizes (text : String) (found : List Token) : Prop :=
  Scanner.scan {} text.toList = some ({}, found)

variable {text text' : String}

lemma Tokenizes.append (h : Tokenizes text found) (h' : Tokenizes text' found') :
    Tokenizes (text ++ text') (found ++ found') := by
  rw [Tokenizes, String.toList_append]
  exact Scanner.scan_append h h'

/-- A line is read as before when the lines that it ends are moved to the right. -/
lemma Tokenizes.indent (h : Tokenizes (text ++ "\n") found) (levels : Nat) :
    Tokenizes (indent levels text ++ "\n") found := by
  rw [Tokenizes, String.toList_append] at h ⊢
  obtain ⟨s, found₁, found₂, htext, hbreak, rfl⟩ := Scanner.scan_eq_append h
  exact Scanner.scan_append (Scanner.scan_indent levels htext) hbreak

lemma tokenizes_stringLiteral (value : String) :
    Tokenizes (stringLiteral value) [.literal (.string value)] := by
  have hclosed : closed? '"' value.toList.reverse = some (.string value) := by simp [closed?]
  rw [Tokenizes, stringLiteral, String.toList_ofList]
  exact Scanner.scan_escaped (.inl rfl) hclosed

lemma tokenizes_runeLiteral (c : Char) : Tokenizes (runeLiteral c) [.literal (.rune c)] := by
  have hscan := Scanner.scan_escaped (.inr rfl) (rfl : closed? '\'' [c].reverse = some (.rune c))
  rw [Tokenizes, runeLiteral, String.toList_ofList]
  simpa using hscan

/-- A name ends where a text goes on that does not begin with a word. -/
lemma Tokenizes.behind_name (h : Tokenizes text found) {c : Char} {others : List Char}
    (htext : text.toList = c :: others) (hc : isAsciiContinue c = false) {name : String}
    (hname : isAsciiIdentifier name = true) :
    Tokenizes (name ++ text) (.word name.toList :: found) := by
  have hne : name.toList.reverse ≠ [] := by
    obtain ⟨first, tail, hlist, -⟩ := isAsciiIdentifier_iff.mp hname
    simp [hlist]
  have hword := Scanner.scan_word (isAsciiContinue_of_mem hname) []
  rw [List.append_nil] at hword
  rw [Tokenizes, htext] at h
  have hbehind := Scanner.scan_behind_word hne hc h
  rw [List.reverse_reverse] at hbehind
  rw [Tokenizes, String.toList_append, htext]
  exact Scanner.scan_append hword hbehind

end LabeledPeg.Go
