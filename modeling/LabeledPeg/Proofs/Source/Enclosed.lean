import LabeledPeg.Proofs.Source.Lockstep

/-!
# Enclosed tokens in lockstep

What is between quotes, or between the brackets of a class, is read character by character up to the
closing one. Two texts that go on alike up to there are read alike.
-/

namespace LabeledPeg.Source

/-- Whether two texts go on alike for a number of characters, an escape counted as one, up to where
each of them stops. -/
inductive Along (close : Char) (stop stop' : List Char) : Nat → List Char → List Char → Prop
  | stop : Along close stop stop' 0 stop stop'
  | escaped {n : Nat} {c : Char} {source source' : List Char}
    (hrest : Along close stop stop' n source source') :
    Along close stop stop' (n + 1) ('\\' :: c :: source) ('\\' :: c :: source')
  | plain {n : Nat} {c : Char} {source source' : List Char} (hclose : c ≠ close)
    (hbackslash : c ≠ '\\') (hrest : Along close stop stop' n source source') :
    Along close stop stop' (n + 1) (c :: source) (c :: source')

/-- How two enclosed texts that go on alike can end. -/
inductive Meets (close : Char) : List Char → List Char → Prop
  | closed (behind behind' : List Char) : Meets close (close :: behind) (close :: behind')
  | unclosed {stop : List Char} (h : stop = [] ∨ stop = ['\\']) : Meets close stop stop

section Along

variable {close c : Char} {stop stop' source source' inside behind behind' : List Char} {n : Nat}

lemma Along.le_length (h : Along close stop stop' n source source') :
    n ≤ source.length ∧ n ≤ source'.length := by
  induction h with
  | stop => exact ⟨Nat.zero_le _, Nat.zero_le _⟩
  | escaped _ ih => exact ⟨by simp; omega, by simp; omega⟩
  | plain _ _ _ ih => exact ⟨by simp; omega, by simp; omega⟩

lemma along_of_closed (h : lengthBefore close inside + 1 = inside.length)
    (behind behind' : List Char) :
    ∃ n, Along close (close :: behind) (close :: behind') n (inside ++ behind)
      (inside ++ behind') := by
  fun_induction lengthBefore close inside with
  | case1 => simp at h
  | case2 c rest ih =>
    obtain ⟨n, hrest⟩ := ih (by simpa using h)
    exact ⟨n + 1, .escaped hrest⟩
  | case3 rest =>
    obtain rfl : rest = [] := by simpa using h
    exact ⟨0, .stop⟩
  | case4 c rest hescape hne ih =>
    have hrest : lengthBefore close rest + 1 = rest.length := by simpa using h
    obtain ⟨c', rest', rfl⟩ := List.exists_cons_of_length_pos (by omega : 0 < rest.length)
    obtain ⟨n, halong⟩ := ih hrest
    exact ⟨n + 1, .plain hne (fun heq => hescape c' rest' heq rfl) halong⟩

lemma along_of_unclosed (h : lengthBefore close inside = inside.length) :
    ∃ n stop, (stop = [] ∨ stop = ['\\']) ∧ Along close stop stop n inside inside := by
  fun_induction lengthBefore close inside with
  | case1 => exact ⟨0, [], .inl rfl, .stop⟩
  | case2 c rest ih =>
    obtain ⟨n, stop, hstop, hrest⟩ := ih (by simpa using h)
    exact ⟨n + 1, stop, hstop, .escaped hrest⟩
  | case3 rest => simp at h
  | case4 c rest hescape hne ih =>
    by_cases hc : c = '\\'
    · subst hc
      cases rest with
      | nil => exact ⟨0, ['\\'], .inr rfl, .stop⟩
      | cons c' rest' => exact absurd rfl (hescape c' rest' rfl)
    · obtain ⟨n, stop, hstop, hrest⟩ := ih (by simpa using h)
      exact ⟨n + 1, stop, hstop, .plain hne hc hrest⟩

end Along

namespace Reader

open Cursor

variable {α : Type} {rel : α → α → Prop} {r : Reader α} {all : List (List Char)} {n : Nat}
  {close : Char} {stop stop' : List Char} {cursor cursor' : Cursor}

/-- A reader of enclosed texts that reads alike what goes on alike, and is over behind the closing
character, looks at the first token only. -/
lemma oneToken_of_along {opening : Char} (hclosing : closing? opening = some close)
    (hrefuses : ∀ source, (∀ c ∈ source.head?, c ≠ opening) → Refuses r source)
    (h : ∀ n stop stop' source source', Meets close stop stop' →
      Along close stop stop' n source source' → ∀ offset offset',
        Agree r r ⟨offset, opening :: source⟩ ⟨offset', opening :: source'⟩
          fun value value' next next' =>
            rel value value' ∧ stop = close :: next.rest ∧ stop' = close :: next'.rest) :
    OneToken rel r := by
  have hclose := (closing?_eq_some hclosing).1
  refine ⟨hrefuses [] (by simp), fun piece behind behind' hends hends' hgap offset offset' => ?_⟩
  obtain ⟨c, inside, rfl⟩ := List.exists_cons_of_ne_nil hends.ne_nil
  by_cases hc : c = opening
  · subst hc
    rcases hends.of_closing hclosing with hlength | ⟨hlength, hnone⟩
    · obtain ⟨n, halong⟩ := along_of_closed hlength behind behind'
      refine (h n _ _ _ _ (.closed behind behind') halong offset offset').mono
        fun value value' next next' hread => ?_
      obtain ⟨hrel, hnext, hnext'⟩ := hread
      refine ⟨hrel, fun close' hclose' => ?_, (List.cons.inj hnext).2.symm,
        (List.cons.inj hnext').2.symm⟩
      obtain rfl := Option.some.inj (hclosing.symm.trans hclose')
      omega
    · -- Nothing stands behind the token, so that both texts are the same, and they are refused.
      have hnone' : behind'.head? = none := by
        rcases hends'.of_closing hclosing with hlength' | ⟨-, hnone'⟩
        · omega
        · exact hnone'
      obtain rfl := List.head?_eq_none_iff.mp hnone
      obtain rfl := List.head?_eq_none_iff.mp hnone'
      obtain ⟨n, stop, hstop, halong⟩ := along_of_unclosed hlength
      rw [List.cons_append, List.append_nil]
      refine (h n _ _ _ _ (.unclosed hstop) halong offset offset').mono
        fun value value' next next' hread => ?_
      obtain ⟨-, hnext, -⟩ := hread
      rw [hnext] at hstop
      exact absurd hstop (by simp [hclose])
  · exact agree_of_refuses (hrefuses _ (by simpa using hc)) (hrefuses _ (by simpa using hc))

lemma agree_symbol (c : Char) (offset offset' : Nat) (rest rest' : List Char) :
    Agree (token [c]) (token [c]) ⟨offset, c :: rest⟩ ⟨offset', c :: rest'⟩ fun _ _ next next' =>
      next.rest = rest ∧ next'.rest = rest' := by
  have htrue : ∀ _ _ : Unit, True → True → True := fun _ _ _ _ => trivial
  exact (agree_of_takes (takes_symbol c) (takes_symbol c) htrue).mono fun _ _ _ _ hread => hread.2

/-- Behind what goes on alike the closing character stands in both texts, or in none. -/
lemma agree_closing (hend : Meets close stop stop') (hclose : close ≠ '\\') (offset offset' : Nat) :
    Agree (token [close]) (token [close]) ⟨offset, stop⟩ ⟨offset', stop'⟩ fun _ _ next next' =>
      stop = close :: next.rest ∧ stop' = close :: next'.rest := by
  cases hend with
  | closed behind behind' =>
    exact (agree_symbol close offset offset' behind behind').mono
      fun _ _ next next' hread => ⟨by rw [hread.1], by rw [hread.2]⟩
  | unclosed h =>
    have hne : ∀ c ∈ stop.head?, c ≠ close := by
      rcases h with rfl | rfl
      · simp
      · simpa using hclose.symm
    exact agree_of_refuses (refuses_token hne) (refuses_token hne)

/-! ## Quoted texts -/

lemma quotedBody_of_meets (hend : Meets close stop stop') (hclose : close ≠ '\\') (offset : Nat) :
    quotedBody close offset stop = ([], ⟨offset, stop⟩) ∧
      quotedBody close offset stop' = ([], ⟨offset, stop'⟩) := by
  have hquote : ∀ behind,
      quotedBody close offset (close :: behind) = ([], ⟨offset, close :: behind⟩) := by
    intro behind
    simp [quotedBody, hclose]
  cases hend with
  | closed behind behind' => exact ⟨hquote behind, hquote behind'⟩
  | unclosed h =>
    rcases h with rfl | rfl
    · exact ⟨rfl, rfl⟩
    · simp [quotedBody]

lemma quotedBody_along {source source' : List Char} (hend : Meets close stop stop')
    (hclose : close ≠ '\\') (h : Along close stop stop' n source source') (offset offset' : Nat) :
    ∃ body next next', quotedBody close offset source = (body, ⟨next, stop⟩) ∧
      quotedBody close offset' source' = (body, ⟨next', stop'⟩) := by
  induction h generalizing offset offset' with
  | stop =>
    exact ⟨[], offset, offset', (quotedBody_of_meets hend hclose offset).1,
      (quotedBody_of_meets hend hclose offset').2⟩
  | @escaped n c source source' _ ih =>
    obtain ⟨body, next, next', hread, hread'⟩ :=
      ih (offset + 1 + c.utf8Size) (offset' + 1 + c.utf8Size)
    refine ⟨Text.unescape c :: body, next, next', ?_, ?_⟩
    · rw [quotedBody, hread]
    · rw [quotedBody, hread']
  | @plain n c source source' hne hbackslash _ ih =>
    obtain ⟨body, next, next', hread, hread'⟩ := ih (offset + c.utf8Size) (offset' + c.utf8Size)
    refine ⟨c :: body, next, next', ?_, ?_⟩
    · simp [quotedBody, hne, hbackslash, hread]
    · simp [quotedBody, hne, hbackslash, hread']

lemma oneToken_quotedWith {quote : Char} (hquote : closing? quote = some quote) :
    OneToken Eq (quotedWith quote) := by
  have hclose := (closing?_eq_some hquote).1
  refine oneToken_of_along hquote (fun source hsource => (refuses_token hsource).bind)
    fun n stop stop' source source' hend halong offset offset' => ?_
  refine (agree_symbol quote offset offset' source source').bind fun _ _ start start' hstart => ?_
  obtain ⟨start, rest⟩ := start
  obtain ⟨start', rest'⟩ := start'
  obtain ⟨rfl, rfl⟩ := hstart
  obtain ⟨body, next, next', hread, hread'⟩ := quotedBody_along hend hclose halong start start'
  have hbody : Agree (ofCursor fun cursor => some (quotedBody quote cursor.offset cursor.rest))
      (ofCursor fun cursor => some (quotedBody quote cursor.offset cursor.rest))
      ⟨start, rest⟩ ⟨start', rest'⟩ fun body body' behind behind' =>
        body = body' ∧ behind = ⟨next, stop⟩ ∧ behind' = ⟨next', stop'⟩ :=
    agree_of_some (congrArg some hread) (congrArg some hread') ⟨rfl, rfl, rfl⟩
  refine hbody.bind fun body body' behind behind' hsame => ?_
  obtain ⟨rfl, rfl, rfl⟩ := hsame
  exact (agree_closing hend hclose next next').bind fun _ _ _ _ hover => agree_pure ⟨rfl, hover⟩

lemma oneToken_path : OneToken Eq path := (oneToken_quotedWith rfl).named _

lemma alike_path : Alike all n Eq path path := alike_of_token oneToken_path

lemma oneToken_literal : OneToken Is literal := by
  refine (((oneToken_quotedWith rfl).orElse (oneToken_quotedWith rfl)).spanned ?_).named _
  intro read read' hread
  simp only [Is, Expr.unspanned, hread]

lemma alike_literal : Alike all n Is literal literal := alike_of_token oneToken_literal

/-! ## Classes -/

lemma agree_classChar (hend : Meets ']' stop stop')
    (h : Along ']' stop stop' n cursor.rest cursor'.rest) :
    Agree classChar classChar cursor cursor' fun c c' next next' =>
      c = c' ∧ ∃ m < n, Along ']' stop stop' m next.rest next'.rest := by
  refine Agree.named ?_ _
  obtain ⟨offset, rest⟩ := cursor
  obtain ⟨offset', rest'⟩ := cursor'
  cases h with
  | stop =>
    cases hend with
    | closed => exact agree_of_none rfl rfl
    | unclosed hstop =>
      rcases hstop with rfl | rfl
      · exact agree_of_none rfl rfl
      · exact agree_of_none rfl rfl
  | escaped hrest => exact agree_of_some rfl rfl ⟨rfl, _, Nat.lt_succ_self _, hrest⟩
  | @plain n c source source' hne hbackslash hrest =>
    have hread : ∀ offset source, classChar? ⟨offset, c :: source⟩ =
        some (c, ⟨offset + c.utf8Size, source⟩) := by
      intro offset source
      simp [classChar?, hne, hbackslash]
    exact agree_of_some (hread offset source) (hread offset' source')
      ⟨rfl, n, Nat.lt_succ_self n, hrest⟩

lemma agree_dash (hend : Meets ']' stop stop')
    (h : Along ']' stop stop' n cursor.rest cursor'.rest) :
    Agree (token ['-']) (token ['-']) cursor cursor' fun _ _ next next' =>
      ∃ m < n, Along ']' stop stop' m next.rest next'.rest := by
  obtain ⟨offset, rest⟩ := cursor
  obtain ⟨offset', rest'⟩ := cursor'
  have hrefuses : ∀ {c source source'}, c ≠ '-' →
      Agree (token ['-']) (token ['-']) ⟨offset, c :: source⟩ ⟨offset', c :: source'⟩
        fun _ _ next next' => ∃ m < n, Along ']' stop stop' m next.rest next'.rest :=
    fun hne =>
      agree_of_refuses (refuses_token (by simpa using hne)) (refuses_token (by simpa using hne))
  cases h with
  | stop =>
    cases hend with
    | closed => exact hrefuses (by decide)
    | unclosed hstop =>
      rcases hstop with rfl | rfl
      · exact agree_of_none rfl rfl
      · exact hrefuses (by decide)
  | escaped => exact hrefuses (by decide)
  | @plain n c source source' _ _ hrest =>
    by_cases hc : c = '-'
    · subst hc
      refine (agree_symbol '-' offset offset' source source').mono fun _ _ next next' hread => ?_
      exact ⟨n, Nat.lt_succ_self n, by rwa [hread.1, hread.2]⟩
    · exact hrefuses hc

lemma agree_classRange (hend : Meets ']' stop stop')
    (h : Along ']' stop stop' n cursor.rest cursor'.rest) :
    Agree classRange classRange cursor cursor' fun bounds bounds' next next' =>
      bounds = bounds' ∧ ∃ m < n, Along ']' stop stop' m next.rest next'.rest := by
  refine Agree.named ((agree_classChar hend h).bind fun lo lo' _ _ hlo => ?_) _
  obtain ⟨rfl, k, hk, hrest⟩ := hlo
  refine (agree_dash hend hrest).bind fun _ _ _ _ hdash => ?_
  obtain ⟨j, hj, hrest⟩ := hdash
  refine (agree_classChar hend hrest).bind fun hi hi' _ _ hhi => ?_
  obtain ⟨rfl, m, hm, hrest⟩ := hhi
  exact agree_pure ⟨rfl, m, by omega, hrest⟩

lemma agree_classMember (hend : Meets ']' stop stop')
    (h : Along ']' stop stop' n cursor.rest cursor'.rest) :
    Agree classMember classMember cursor cursor' fun e e' next next' =>
      Is e e' ∧ ∃ m < n, Along ']' stop stop' m next.rest next'.rest := by
  refine Agree.named (Agree.congr (Agree.orElse ?_ ?_) rfl rfl) _
  · refine (agree_classRange hend h).spanned.bind fun read read' _ _ hread => ?_
    obtain ⟨hbounds, hrest⟩ := hread
    exact agree_pure ⟨by simp only [Is, Expr.unspanned, hbounds], hrest⟩
  · refine (agree_classChar hend h).spanned.bind fun read read' _ _ hread => ?_
    obtain ⟨hc, hrest⟩ := hread
    exact agree_pure ⟨by simp only [Is, Expr.unspanned, hc], hrest⟩

/-- A class is over where its members are. -/
lemma agree_bracket (hend : Meets ']' stop stop')
    (h : Along ']' stop stop' n cursor.rest cursor'.rest) :
    Agree (token [']']) (token [']']) cursor cursor' fun _ _ next next' =>
      stop = ']' :: next.rest ∧ stop' = ']' :: next'.rest := by
  obtain ⟨offset, rest⟩ := cursor
  obtain ⟨offset', rest'⟩ := cursor'
  cases h with
  | stop => exact agree_closing hend (by decide) offset offset'
  | escaped => exact agree_of_refuses (refuses_token (by simp)) (refuses_token (by simp))
  | plain hne =>
    exact agree_of_refuses (refuses_token (by simpa using hne)) (refuses_token (by simpa using hne))

lemma agree_classMembers (hend : Meets ']' stop stop')
    (h : Along ']' stop stop' n cursor.rest cursor'.rest) :
    Agree (many (succeed ()) classMember) (many (succeed ()) classMember) cursor cursor'
      fun members members' next next' =>
        List.Forall₂ Is members members' ∧ ∃ m ≤ n, Along ']' stop stop' m next.rest next'.rest := by
  have hbetween : ∀ m (cursor cursor' : Cursor), Along ']' stop stop' m cursor.rest cursor'.rest →
      Agree (succeed ()) (succeed ()) cursor cursor' fun _ _ next next' =>
        Along ']' stop stop' m next.rest next'.rest := fun _ _ _ hrest => agree_pure hrest
  obtain ⟨hlength, hlength'⟩ := h.le_length
  exact agree_many hbetween (fun _ _ _ _ hrest => agree_classMember hend hrest) hlength hlength' h h

lemma map_unspanned_of_forall₂ {items items' : List Expr} (h : List.Forall₂ Is items items') :
    items'.map Expr.unspanned = items.map Expr.unspanned :=
  Fit.map_eq (fit_map_iff.mpr h)

lemma oneToken_charClass : OneToken Is charClass := by
  refine oneToken_of_along (show closing? '[' = some ']' from rfl)
    (fun source hsource => Refuses.node (refuses_token hsource).bind _)
    fun n stop stop' source source' hend halong offset offset' => Agree.named ?_ _
  refine Agree.bind (Agree.spanned (q := fun members members' next next' =>
    List.Forall₂ Is members members' ∧ stop = ']' :: next.rest ∧ stop' = ']' :: next'.rest) ?_)
    fun read read' _ _ hread => agree_pure ⟨?_, hread.2⟩
  · refine (agree_symbol '[' offset offset' source source').bind fun _ _ start start' hstart => ?_
    rw [← hstart.1, ← hstart.2] at halong
    refine (agree_classMembers hend halong).bind fun members members' _ _ hmembers => ?_
    obtain ⟨hmembers, k, -, hrest⟩ := hmembers
    exact (agree_bracket hend hrest).bind fun _ _ _ _ hover => agree_pure ⟨hmembers, hover⟩
  · have hmembers := map_unspanned_of_forall₂ hread.1
    simp only [Is, Expr.unspanned, Expr.allUnspanned_eq_map, hmembers]

lemma alike_charClass : Alike all n Is charClass charClass := alike_of_token oneToken_charClass

end Reader

end LabeledPeg.Source
