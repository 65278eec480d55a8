import LabeledPeg.Proofs.Grammar.Normal
import LabeledPeg.Proofs.Source.Reader
import LabeledPeg.Source.Token

/-!
# Tokens are read back

Identifiers, quoted texts and classes are read as what they were written for, whatever follows them
as long as it does not go on with the token.
-/

namespace LabeledPeg

open Text

namespace Text

/-- A character is written as itself, or behind a backslash as what stands for it there. -/
lemma EscapeStyle.encodeChar_cases {style : EscapeStyle} (h : ∀ m ∈ style.marked, unescape m = m)
    (c : Char) : (∃ escaped, style.encodeChar c = ['\\', escaped] ∧ unescape escaped = c) ∨
      style.encodeChar c = [c] ∧ c ∉ style.marked := by
  unfold encodeChar
  by_cases hmarked : c ∈ style.marked
  · exact .inl ⟨c, by simp [hmarked], h c hmarked⟩
  · cases hletter : (if style.controls then controlLetter? c else none) with
    | some letter =>
      have hcontrol : controlLetter? c = some letter := by
        split at hletter
        · exact hletter
        · cases hletter
      exact .inl ⟨letter, by simp [hmarked], unescape_of_controlLetter? hcontrol⟩
    | none => exact .inr ⟨by simp [hmarked], hmarked⟩

lemma unescape_marked_literalStyle : ∀ m ∈ literalStyle.marked, unescape m = m := by
  simp [literalStyle, unescape]

lemma unescape_marked_classStyle : ∀ m ∈ classStyle.marked, unescape m = m := by
  simp [classStyle, unescape]

lemma unescape_marked_pathStyle : ∀ m ∈ pathStyle.marked, unescape m = m := by
  simp [pathStyle, unescape]

end Text

namespace Source

lemma quotedBody_encode {style : EscapeStyle} (h : ∀ m ∈ style.marked, unescape m = m)
    {quote : Char} (hquote : quote ∈ style.marked) (hbackslash : '\\' ∈ style.marked)
    (hne : quote ≠ '\\') (cs rest : List Char) (offset : Nat) :
    ∃ offset', quotedBody quote offset (cs.flatMap style.encodeChar ++ quote :: rest) =
      (cs, ⟨offset', quote :: rest⟩) := by
  induction cs generalizing offset with
  | nil => exact ⟨offset, by simp [quotedBody, hne]⟩
  | cons c cs ih =>
    rcases style.encodeChar_cases h c with ⟨escaped, hencode, hescaped⟩ | ⟨hencode, hmarked⟩
    · obtain ⟨offset', hrest⟩ := ih (offset + 1 + escaped.utf8Size)
      exact ⟨offset', by simp [hencode, quotedBody, hrest, hescaped]⟩
    · obtain ⟨offset', hrest⟩ := ih (offset + c.utf8Size)
      have hcq : c ≠ quote := fun heq => hmarked (heq ▸ hquote)
      have hcb : c ≠ '\\' := fun heq => hmarked (heq ▸ hbackslash)
      exact ⟨offset', by simp [hencode, quotedBody, hrest, hcq, hcb]⟩

lemma classChar?_encodeChar (c : Char) (rest : List Char) (offset : Nat) :
    ∃ offset', classChar? ⟨offset, classStyle.encodeChar c ++ rest⟩ = some (c, ⟨offset', rest⟩) := by
  rcases classStyle.encodeChar_cases unescape_marked_classStyle c with
    ⟨escaped, hencode, hescaped⟩ | ⟨hencode, hmarked⟩
  · refine ⟨offset + 1 + escaped.utf8Size, ?_⟩
    simp [hencode, classChar?, hescaped]
  · simp only [classStyle, List.mem_cons, List.not_mem_nil, or_false, not_or] at hmarked
    refine ⟨offset + c.utf8Size, ?_⟩
    simp [hencode, classChar?, hmarked]

lemma head?_encodeChar_classStyle (c : Char) (rest : List Char) :
    ∀ c' ∈ (classStyle.encodeChar c ++ rest).head?, c' ≠ '-' ∧ c' ≠ ']' := by
  rcases classStyle.encodeChar_cases unescape_marked_classStyle c with
    ⟨escaped, hencode, -⟩ | ⟨hencode, hmarked⟩
  · rw [hencode]
    simp
  · simp only [classStyle, List.mem_cons, List.not_mem_nil, or_false, not_or] at hmarked
    rw [hencode]
    simp [hmarked]

lemma identifierTail_append {cs rest : List Char} (hcs : ∀ c ∈ cs, isAsciiContinue c = true)
    (hrest : ∀ c ∈ rest.head?, isAsciiContinue c = false) (offset : Nat) :
    ∃ offset', identifierTail offset (cs ++ rest) = (cs, ⟨offset', rest⟩) := by
  induction cs generalizing offset with
  | nil =>
    cases rest with
    | nil => exact ⟨offset, rfl⟩
    | cons c rest => exact ⟨offset, by simp [identifierTail, hrest c rfl]⟩
  | cons c cs ih =>
    obtain ⟨offset', hrest⟩ := ih (fun c hc => hcs c (by simp [hc])) (offset + c.utf8Size)
    exact ⟨offset', by simp [identifierTail, hcs c (by simp), hrest]⟩

namespace Reader

variable {rest : List Char}

lemma takes_identifier {name : String} (hname : isAsciiIdentifier name = true)
    (hrest : ∀ c ∈ rest.head?, isAsciiContinue c = false) :
    Takes identifier (fun value => value = name) (name.toList ++ rest) rest := by
  obtain ⟨c, cs, hchars, hc, hcs⟩ := isAsciiIdentifier_iff.mp hname
  have htail : Takes (ofCursor fun cursor => some (identifierTail cursor.offset cursor.rest))
      (fun tail => tail = cs) (cs ++ rest) rest := by
    intro offset
    obtain ⟨offset', h⟩ := identifierTail_append hcs hrest offset
    exact ⟨cs, offset', congrArg some h, rfl⟩
  rw [hchars, List.cons_append]
  refine ((takes_oneOf hc).bind fun first hfirst => htail.bind fun tail htail => ?_).named _
  refine takes_pure ?_
  rw [hfirst, htail, ← hchars, String.ofList_toList]

lemma takes_quotedWith {style : EscapeStyle} (h : ∀ m ∈ style.marked, unescape m = m) {quote : Char}
    (hquote : quote ∈ style.marked) (hbackslash : '\\' ∈ style.marked) (hne : quote ≠ '\\')
    (value : String) : Takes (quotedWith quote) (fun value' => value' = value)
      (quote :: (style.encode value).toList ++ quote :: rest) rest := by
  have hbody : Takes (ofCursor fun cursor => some (quotedBody quote cursor.offset cursor.rest))
      (fun body => body = value.toList) ((style.encode value).toList ++ quote :: rest)
      (quote :: rest) := by
    intro offset
    obtain ⟨offset', hread⟩ := quotedBody_encode h hquote hbackslash hne value.toList rest offset
    exact ⟨value.toList, offset', by rw [EscapeStyle.toList_encode]; exact congrArg some hread, rfl⟩
  rw [List.cons_append]
  refine (takes_symbol quote).bind fun _ _ => hbody.bind fun body hvalue => ?_
  refine (takes_symbol quote).bind fun _ _ => takes_pure ?_
  rw [hvalue, String.ofList_toList]

lemma takes_literal (value : String) : Takes literal (fun e => ∃ span, e = .literal value span)
    ((literalText value).toList ++ rest) rest := by
  have hquoted : Takes (quotedWith '\'') (fun value' => value' = value)
      ('\'' :: (literalStyle.encode value).toList ++ '\'' :: rest) rest :=
    takes_quotedWith unescape_marked_literalStyle (by decide) (by decide) (by decide) value
  have htext : (literalText value).toList ++ rest =
      '\'' :: (literalStyle.encode value).toList ++ '\'' :: rest := by
    simp [literalText]
  rw [htext]
  refine (hquoted.orElse.spanned.bind fun valued hvalue => takes_pure ?_).named _
  exact ⟨valued.2, by rw [hvalue]⟩

lemma takes_path (value : String) : Takes path (fun value' => value' = value)
    ('"' :: (pathStyle.encode value).toList ++ '"' :: rest) rest :=
  (takes_quotedWith unescape_marked_pathStyle (by decide) (by decide) (by decide) value).named _

lemma takes_classChar (c : Char) :
    Takes classChar (fun c' => c' = c) (classStyle.encodeChar c ++ rest) rest := by
  refine Takes.named (fun offset => ?_) _
  obtain ⟨offset', h⟩ := classChar?_encodeChar c rest offset
  exact ⟨c, offset', h, rfl⟩

lemma takes_classRange (lo hi : Char) :
    Takes classRange (fun bounds => bounds = (lo, hi)) ((rangeText lo hi).toList ++ rest) rest := by
  have htext : (rangeText lo hi).toList ++ rest =
      classStyle.encodeChar lo ++ ('-' :: (classStyle.encodeChar hi ++ rest)) := by
    simp [rangeText]
  rw [htext]
  refine ((takes_classChar lo).bind fun lo' hlo => (takes_symbol '-').bind fun _ _ =>
    (takes_classChar hi).bind fun hi' hhi => takes_pure ?_).named _
  rw [hlo, hhi]

lemma refuses_classRange (c : Char) (hrest : ∀ c' ∈ rest.head?, c' ≠ '-') :
    Refuses classRange (classStyle.encodeChar c ++ rest) :=
  ((takes_classChar c).bind_refuses fun _ _ => (refuses_token hrest).bind).named _

lemma takes_classMember {e : Expr} (he : e.IsClassMember)
    (hrest : ∀ c' ∈ rest.head?, c' ≠ '-') :
    Takes classMember (fun e' => e'.unspanned = e.unspanned) (e.memberText.toList ++ rest) rest := by
  refine Takes.named (fun offset => ?_) _
  match e with
  | .range lo hi span =>
    refine Takes.orElse ((takes_classRange lo hi).spanned.bind fun valued hvalue => ?_) offset
    exact takes_pure (by simp only [Expr.unspanned, hvalue])
  | .literal value span =>
    obtain ⟨c, hc⟩ : ∃ c, value.toList = [c] := by
      apply List.length_eq_one_iff.mp
      rw [String.length_toList]
      exact he
    have hvalue : c.toString = value := by
      rw [← String.toList_inj, hc]
      simp
    have htext : (Expr.literal value span).memberText.toList ++ rest =
        classStyle.encodeChar c ++ rest := by
      simp [Expr.memberText, hc]
    rw [htext]
    refine Refuses.orElse_takes (refuses_classRange c hrest).spanned.bind
      ((takes_classChar c).spanned.bind fun valued hvalued => takes_pure ?_) offset
    rw [hvalued, hvalue]
    simp only [Expr.unspanned]

lemma refuses_classMember (hrest : rest.head? = some ']') : Refuses classMember rest := by
  obtain ⟨rest, rfl⟩ : ∃ rest', rest = ']' :: rest' := by
    cases rest with
    | nil => simp at hrest
    | cons c rest => exact ⟨rest, by simpa using hrest⟩
  have hchar : Refuses classChar (']' :: rest) := by
    refine Refuses.named (fun offset => ?_) _
    simp [classChar?]
  have hrange : Refuses classRange (']' :: rest) := hchar.bind.named _
  refine Refuses.named (fun offset => ?_) _
  exact Refuses.orElse hrange.spanned.bind hchar.spanned.bind offset

/-- A class member does not begin with what would make a range of it and the member before. -/
lemma head?_memberText {e : Expr} (he : e.IsClassMember) :
    ∃ c cs, e.memberText.toList = c :: cs ∧ c ≠ '-' := by
  have hencode : ∀ c, ∃ c' cs, classStyle.encodeChar c = c' :: cs ∧ c' ≠ '-' := by
    intro c
    have hhead := head?_encodeChar_classStyle c []
    rw [List.append_nil] at hhead
    cases hchars : classStyle.encodeChar c with
    | nil =>
      rcases classStyle.encodeChar_cases unescape_marked_classStyle c with ⟨_, h, -⟩ | ⟨h, -⟩ <;>
        simp [h] at hchars
    | cons c' cs => exact ⟨c', cs, rfl, (hhead c' (by simp [hchars])).1⟩
  match e with
  | .range lo hi span =>
    obtain ⟨c, cs, hlo, hc⟩ := hencode lo
    exact ⟨c, _, by simp [Expr.memberText, rangeText, hlo]; rfl, hc⟩
  | .literal value span =>
    obtain ⟨c, hvalue⟩ : ∃ c, value.toList = [c] := by
      apply List.length_eq_one_iff.mp
      rw [String.length_toList]
      exact he
    obtain ⟨c', cs, hchars, hc'⟩ := hencode c
    exact ⟨c', cs, by simp [Expr.memberText, hvalue, hchars], hc'⟩

/-- What values have to be that are equal to nodes up to spans. -/
def upToSpans (nodes : List Expr) : List (Expr → Prop) :=
  nodes.map fun node e => e.unspanned = node.unspanned

lemma head?_memberTexts {members : List Expr} (h : ∀ e ∈ members, e.IsClassMember) :
    ∀ c ∈ (members.flatMap (·.memberText.toList) ++ ']' :: rest).head?, c ≠ '-' := by
  cases members with
  | nil => simp
  | cons e members =>
    obtain ⟨c, cs, htext, hc⟩ := head?_memberText (h e (by simp))
    simp [htext, hc]

lemma series_classMember {members : List Expr} (h : ∀ e ∈ members, e.IsClassMember) :
    Series (succeed ()) classMember (upToSpans members)
      (members.flatMap (·.memberText.toList) ++ ']' :: rest) (']' :: rest) := by
  induction members with
  | nil => exact .stop (takes_pure trivial) (refuses_classMember rfl)
  | cons e members ih =>
    have hmembers : ∀ e ∈ members, e.IsClassMember := fun e he => h e (by simp [he])
    rw [List.flatMap_cons, List.append_assoc]
    exact .more (takes_pure trivial) (takes_classMember (h e (by simp)) (head?_memberTexts hmembers))
      (ih hmembers)

lemma takes_charClass {members : List Expr} (h : ∀ e ∈ members, e.IsClassMember) (span : Span) :
    Takes charClass (fun e => e.unspanned = (Expr.charClass members span).unspanned)
      ((Expr.charClass members span).text.toList ++ rest) rest := by
  have htext : (Expr.charClass members span).text.toList ++ rest =
      '[' :: (members.flatMap (·.memberText.toList) ++ ']' :: rest) := by
    simp [Expr.text, Expr.memberTexts_eq_map, String.toList_join, List.flatMap_map]
  have hmembers : Takes (many (succeed ()) classMember)
      (fun values => values.map Expr.unspanned = members.map Expr.unspanned)
      (members.flatMap (·.memberText.toList) ++ ']' :: rest) (']' :: rest) := by
    cases members with
    | nil =>
      refine (Refuses.many (refuses_classMember rfl)).mono fun values hvalues => ?_
      rw [hvalues]
    | cons e members =>
      have hrest : ∀ e ∈ members, e.IsClassMember := fun e he => h e (by simp [he])
      rw [List.flatMap_cons, List.append_assoc]
      have hfollows : ∀ c ∈ (members.flatMap (·.memberText.toList) ++ ']' :: rest).head?, c ≠ '-' :=
        head?_memberTexts hrest
      have hfirst := takes_classMember (h e (by simp)) hfollows
      have hlength : members.length ≤ (members.flatMap (·.memberText.toList)).length := by
        refine length_le_length_flatMap fun e he => ?_
        obtain ⟨c, cs, htext, -⟩ := head?_memberText (hrest e he)
        simp [htext]
      have hmany := hfirst.many (series_classMember hrest) (by
        simp only [upToSpans, List.length_map, List.length_append]
        omega)
      refine hmany.mono fun values hvalues => ?_
      have hfit : Fit (upToSpans (e :: members)) values := hvalues
      exact hfit.map_eq
  rw [htext]
  refine (Takes.spanned ((takes_symbol '[').bind fun _ _ => hmembers.bind fun values hvalues =>
    (takes_symbol ']').bind fun _ _ => takes_pure hvalues)).bind
      (fun valued hvalues => takes_pure ?_) |>.named _
  simp only [Expr.unspanned, Expr.allUnspanned_eq_map, hvalues]

end Reader

end Source

end LabeledPeg
