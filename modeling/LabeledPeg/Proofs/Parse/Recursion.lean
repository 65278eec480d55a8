import LabeledPeg.Proofs.Grammar.Closure
import LabeledPeg.Proofs.Parse.Orderly
import LabeledPeg.Proofs.Parse.Stable
import LabeledPeg.Proofs.Semantics.Phrase

/-!
# A parser diverges only by left recursion

A rule that returns does so at some least depth, and the rules that it calls return at smaller ones,
so no rule is entered again at the place where it is being matched. A rule that does not return calls
one that does not return either, and so on to any depth; since there are only so many pairs of a rule
and a place, one pair comes again.
-/

namespace LabeledPeg

open Parse

namespace Course

variable {α : Type} {calls : String → Prop} {limit : Nat} {s s' : State} {c : Course α}
  {rule : String} {invoke invoke' : String → Action (Option Tree)}
  {inside : String → State → List Event}

/-- Whether a run calls a rule in some state, if rules do what `invoke` does. -/
inductive Meets (invoke : String → Action (Option Tree)) (rule : String) (s : State) :
    Course α → Prop
  | here {onSuccess : Option Tree → State → Course α} {onFailure : Failure → State → Course α} :
    Meets invoke rule s (.call rule s onSuccess onFailure)
  | event {e : Event} {rest : Course α} (h : Meets invoke rule s rest) :
    Meets invoke rule s (.event e rest)
  | onSuccess {first : String} {s₀ s₁ : State} {value : Option Tree}
    {onSuccess : Option Tree → State → Course α} {onFailure : Failure → State → Course α}
    (hrun : invoke first s₀ = .success value s₁) (h : Meets invoke rule s (onSuccess value s₁)) :
    Meets invoke rule s (.call first s₀ onSuccess onFailure)
  | onFailure {first : String} {s₀ s₁ : State} {f : Failure}
    {onSuccess : Option Tree → State → Course α} {onFailure : Failure → State → Course α}
    (hrun : invoke first s₀ = .failure f s₁) (h : Meets invoke rule s (onFailure f s₁)) :
    Meets invoke rule s (.call first s₀ onSuccess onFailure)

lemma Meets.orderly (h : c.Meets invoke rule s') (hc : c.Orderly calls limit s)
    (hinvoke : ∀ name, (invoke name).Advances) : calls rule ∧ s.Advanced s' := by
  induction h with
  | here =>
    cases hc with
    | call hrule hs' => exact ⟨hrule, hs'⟩
  | event h ih =>
    cases hc with
    | event _ hrest => exact ih hrest
    | raise _ _ hrest => exact ih hrest
    | commit => cases h
  | @onSuccess first s₀ s₁ value _ _ hrun _ ih =>
    cases hc with
    | call _ hs₀ hsuccess =>
      exact ih (hsuccess value s₁ ((hinvoke first).success hs₀.within hrun))
  | @onFailure first s₀ s₁ f _ _ hrun h ih =>
    cases hc with
    | call _ hs₀ _ hfailure hcommit =>
      have hs₁ := (hinvoke first).failure hs₀.within hrun
      by_cases hf : s.commits f = true
      · obtain ⟨last, -, heq⟩ := hcommit f s₁ hs₁ hf
        rw [heq] at h
        cases h
      · exact ih (hfailure f s₁ hs₁ (Bool.not_eq_true _ ▸ hf))

lemma Meets.mem_events (h : c.Meets invoke rule s') {e : Event} (he : e ∈ inside rule s') :
    e ∈ c.events invoke inside := by
  induction h with
  | here =>
    simp only [events]
    exact List.mem_append_left _ he
  | event _ ih => exact List.mem_cons_of_mem _ ih
  | onSuccess hrun _ ih =>
    simp only [events, hrun]
    exact List.mem_append_right _ ih
  | onFailure hrun _ ih =>
    simp only [events, hrun]
    exact List.mem_append_right _ ih

/-- What happens in a run happens in the fragment itself or in a rule that it calls. -/
lemma Orderly.local_or_meets (hc : c.Orderly calls limit s) (hinvoke : ∀ name, (invoke name).Advances)
    {e : Event} (he : e ∈ c.events invoke inside) :
    (e.Local s ∨ ∃ f, e = .raise f) ∨ ∃ rule s', c.Meets invoke rule s' ∧ e ∈ inside rule s' := by
  induction hc with
  | success | failure | unfinished => cases he
  | event hlocal _ ih =>
    rcases List.mem_cons.mp he with rfl | he
    · exact .inl (.inl hlocal)
    · obtain hlocal | ⟨rule, s', hmeets, hmem⟩ := ih he
      · exact .inl hlocal
      · exact .inr ⟨rule, s', .event hmeets, hmem⟩
  | @raise f _ _ _ _ ih =>
    rcases List.mem_cons.mp he with rfl | he
    · exact .inl (.inr ⟨f, rfl⟩)
    · obtain hlocal | ⟨rule, s', hmeets, hmem⟩ := ih he
      · exact .inl hlocal
      · exact .inr ⟨rule, s', .event hmeets, hmem⟩
  | @commit f _ _ _ =>
    rcases List.mem_cons.mp he with rfl | he
    · exact .inl (.inr ⟨f, rfl⟩)
    · cases he
  | @call first s₀ onSuccess onFailure _ hs₀ _ _ hcommit ih ih' =>
    simp only [events] at he
    rcases List.mem_append.mp he with he | he
    · exact .inr ⟨first, s₀, .here, he⟩
    · cases hrun : invoke first s₀ with
      | success value s₁ =>
        rw [hrun] at he
        obtain hlocal | ⟨rule, s', hmeets, hmem⟩ :=
          ih value s₁ ((hinvoke first).success hs₀.within hrun) he
        · exact .inl hlocal
        · exact .inr ⟨rule, s', .onSuccess hrun hmeets, hmem⟩
      | failure f s₁ =>
        rw [hrun] at he
        have hs₁ := (hinvoke first).failure hs₀.within hrun
        by_cases hf : s.commits f = true
        · -- the course ends here, so nothing more happens in it
          obtain ⟨last, -, heq⟩ := hcommit f s₁ hs₁ hf
          simp only [heq] at he
          cases he
        · obtain hlocal | ⟨rule, s', hmeets, hmem⟩ := ih' f s₁ hs₁ (Bool.not_eq_true _ ▸ hf) he
          · exact .inl hlocal
          · exact .inr ⟨rule, s', .onFailure hrun hmeets, hmem⟩
      | unfinished =>
        rw [hrun] at he
        cases he

lemma Meets.ne_unfinished (h : c.Meets invoke rule s')
    (hagree : ∀ rule s, invoke rule s ≠ .unfinished → invoke' rule s ≠ .unfinished →
      invoke rule s = invoke' rule s) (hrun : c.run invoke' ≠ .unfinished) :
    invoke' rule s' ≠ .unfinished := by
  induction h with
  | here =>
    intro hrule
    simp [run, hrule] at hrun
  | event _ ih => exact ih hrun
  | @onSuccess first s₀ s₁ value _ _ hfirst _ ih =>
    -- a rule that ends both ways ends alike, so both runs go on from the same state
    have hends : invoke' first s₀ ≠ .unfinished := fun heq => by simp [run, heq] at hrun
    have hsame := hagree first s₀ (by simp [hfirst]) hends
    simp only [run, ← hsame, hfirst] at hrun
    exact ih hrun
  | @onFailure first s₀ s₁ f _ _ hfirst _ ih =>
    have hends : invoke' first s₀ ≠ .unfinished := fun heq => by simp [run, heq] at hrun
    have hsame := hagree first s₀ (by simp [hfirst]) hends
    simp only [run, ← hsame, hfirst] at hrun
    exact ih hrun

/-- A run that does not end calls a rule that does not end. -/
lemma Orderly.exists_meets (hc : c.Orderly calls limit s) (hinvoke : ∀ name, (invoke name).Advances)
    (hlimit : s.length < limit) (hrun : c.run invoke = .unfinished) :
    ∃ rule s', c.Meets invoke rule s' ∧ invoke rule s' = .unfinished := by
  induction hc with
  | success | failure | commit => cases hrun
  | unfinished h => omega
  | event _ _ ih | raise _ _ _ ih =>
    obtain ⟨rule, s', hmeets, hends⟩ := ih hrun
    exact ⟨rule, s', .event hmeets, hends⟩
  | @call first s₀ onSuccess onFailure _ hs₀ _ _ hcommit ih ih' =>
    simp only [run] at hrun
    cases hfirst : invoke first s₀ with
    | success value s₁ =>
      rw [hfirst] at hrun
      obtain ⟨rule, s', hmeets, hends⟩ :=
        ih value s₁ ((hinvoke first).success hs₀.within hfirst) hrun
      exact ⟨rule, s', .onSuccess hfirst hmeets, hends⟩
    | failure f s₁ =>
      rw [hfirst] at hrun
      have hs₁ := (hinvoke first).failure hs₀.within hfirst
      by_cases hf : s.commits f = true
      · obtain ⟨last, -, heq⟩ := hcommit f s₁ hs₁ hf
        simp only [heq] at hrun
        cases hrun
      · obtain ⟨rule, s', hmeets, hends⟩ := ih' f s₁ hs₁ (Bool.not_eq_true _ ▸ hf) hrun
        exact ⟨rule, s', .onFailure hfirst hmeets, hends⟩
    | unfinished => exact ⟨first, s₀, .here, hfirst⟩

end Course

namespace Program

variable {p : Program} {limit : Nat} {name : String} {s : State}

/-- Rules that can be active inside one another: each of them is there, and none twice at one
place. -/
structure Chain (p : Program) (s : State) (chain : List TraceEntry) : Prop where
  nodup : chain.Nodup
  within : ∀ entry ∈ chain, entry.name ∈ p.names ∧ entry.start ≤ s.length

lemma Chain.cons {chain : List TraceEntry} (h : p.Chain s chain) (hname : name ∈ p.names)
    (hs : s.location ≤ s.length) (hnew : ⟨name, s.location⟩ ∉ chain) :
    p.Chain s (⟨name, s.location⟩ :: chain) :=
  ⟨List.nodup_cons.mpr ⟨hnew, h.nodup⟩, List.forall_mem_cons.mpr ⟨⟨hname, hs⟩, h.within⟩⟩

lemma Chain.of_length_eq {s' : State} {chain : List TraceEntry} (h : p.Chain s chain)
    (hlength : s'.length = s.length) : p.Chain s' chain :=
  ⟨h.nodup, fun entry hentry => hlength ▸ h.within entry hentry⟩

lemma Chain.length_le {chain : List TraceEntry} (h : p.Chain s chain) :
    chain.length ≤ p.procedures.length * (s.length + 1) := by
  -- the entries are distinct pairs of a rule and a place, and there are no more of these
  let pairs := chain.map fun entry => (entry.name, entry.start)
  have hinjective : Function.Injective fun entry : TraceEntry => (entry.name, entry.start) := by
    rintro ⟨name, start⟩ ⟨name', start'⟩ heq
    simpa using heq
  have hnodup : pairs.Nodup := h.nodup.map hinjective
  have hsubset : pairs.toFinset ⊆ p.names.toFinset ×ˢ Finset.range (s.length + 1) := by
    intro pair hpair
    obtain ⟨entry, hentry, rfl⟩ := List.mem_map.mp (List.mem_toFinset.mp hpair)
    obtain ⟨hname, hstart⟩ := h.within entry hentry
    simp only [Finset.mem_product, List.mem_toFinset, Finset.mem_range]
    exact ⟨hname, by omega⟩
  calc chain.length = pairs.toFinset.card := by
        rw [List.toFinset_card_of_nodup hnodup, List.length_map]
    _ ≤ (p.names.toFinset ×ˢ Finset.range (s.length + 1)).card := Finset.card_le_card hsubset
    _ = p.names.toFinset.card * (s.length + 1) := by rw [Finset.card_product, Finset.card_range]
    _ ≤ p.procedures.length * (s.length + 1) := by
        apply Nat.mul_le_mul_right
        apply (List.toFinset_card_le p.names).trans
        rw [names, List.length_map]

lemma mem_names_of_body? {body : Code} (h : p.body? name = some body) : name ∈ p.names := by
  obtain ⟨procedure, hprocedure, -⟩ := Option.map_eq_some_iff.mp h
  have hname : procedure.name = name := by simpa using List.find?_some hprocedure
  exact hname ▸ List.mem_map_of_mem (List.mem_of_find?_eq_some hprocedure)

lemma exists_body? (h : name ∈ p.names) : ∃ body, p.body? name = some body := by
  obtain ⟨procedure, hprocedure, rfl⟩ := List.mem_map.mp h
  rw [body?, ← Option.isSome_iff_exists, Option.isSome_map, List.find?_isSome]
  exact ⟨procedure, hprocedure, by simp⟩

lemma ruleAction_succ {depth : Nat} {body : Code} (hbody : p.body? name = some body)
    (hs : s.location ≤ s.length) (hlimit : s.length < limit) :
    p.ruleAction (depth + 1) name s =
      ((body.course limit 0 (s.enter name)).run (p.ruleAction depth)).mapState State.leave := by
  rw [body.endAs_course (p.advances_ruleAction depth) 0 (s.enter name) hs hlimit]
  simp only [ruleAction, hbody]
  rfl

lemma orderly_body (limit : Nat) (name : String) (body : Code) (hs : s.location ≤ s.length) :
    (body.course limit 0 (s.enter name)).Orderly (body.Calls ·) limit (s.enter name) :=
  Code.steady_course (fun _ hrule => hrule) 0 (s.enter name) hs

/-- Whether a depth settles how the match of a rule ends that began at a place. -/
def Settles (p : Program) (s : State) (depth : Nat) (entry : TraceEntry) : Prop :=
  ∃ v, p.ruleRecognizer s.input s.policy depth entry.name entry.start = some v

lemma settles_iff {depth : Nat} (hs : s.location ≤ s.length) :
    p.Settles s depth ⟨name, s.location⟩ ↔ p.ruleAction depth name s ≠ .unfinished :=
  (ruleAction_ne_unfinished_iff hs).symm

lemma Settles.of_le {m n : Nat} {entry : TraceEntry} (h : p.Settles s m entry) (hmn : m ≤ n)
    (hentry : entry.start ≤ s.length) : p.Settles s n entry := by
  obtain ⟨v, hv⟩ := h
  exact ⟨v, p.below_ruleRecognizer hmn entry.name entry.start hentry v hv⟩

/-- The least depth that settles how a rule ends, and the body that it runs then. -/
lemma exists_least {m : Nat} (h : p.Settles s m ⟨name, s.location⟩) :
    ∃ k body, k < m ∧ p.body? name = some body ∧ p.Settles s (k + 1) ⟨name, s.location⟩ ∧
      ¬ p.Settles s k ⟨name, s.location⟩ := by
  induction m with
  | zero =>
    obtain ⟨v, hv⟩ := h
    simp [ruleRecognizer] at hv
  | succ m ih =>
    by_cases hm : p.Settles s m ⟨name, s.location⟩
    · obtain ⟨k, body, hk, hrest⟩ := ih hm
      exact ⟨k, body, by omega, hrest⟩
    · obtain ⟨v, hv⟩ := h
      cases hbody : p.body? name with
      | none => simp [ruleRecognizer, hbody] at hv
      | some body => exact ⟨m, body, Nat.lt_succ_self m, rfl, ⟨v, hv⟩, hm⟩

lemma chain_enter {m : Nat} (hs : s.location ≤ s.length) (hsettles : p.Settles s m ⟨name, s.location⟩)
    (hactive : ∀ entry ∈ s.trace, ¬ p.Settles s m entry) (hchain : p.Chain s s.trace) :
    p.Chain s (⟨name, s.location⟩ :: s.trace) := by
  obtain ⟨k, body, -, hbody, -⟩ := exists_least hsettles
  apply hchain.cons (mem_names_of_body? hbody) hs
  -- were it active here, it would not be settled at `m`
  exact fun hmem => hactive _ hmem hsettles

/-- In a run that ends, rules are entered in chains only. Those that are active are settled at no
depth that settles the one that is entered. -/
theorem chain_of_settles {m depth : Nat} (hs : s.location ≤ s.length) (hlimit : s.length < limit)
    (hsettles : p.Settles s m ⟨name, s.location⟩) (hactive : ∀ entry ∈ s.trace, ¬ p.Settles s m entry)
    (hchain : p.Chain s s.trace) {rule : String} {place : Nat} {active : List TraceEntry}
    (h : .enter rule place active ∈ p.events limit depth name s) :
    p.Chain s (⟨rule, place⟩ :: active) := by
  induction depth generalizing m name s with
  | zero =>
    obtain ⟨rfl, rfl, rfl⟩ := Event.enter.inj (List.mem_singleton.mp h)
    exact chain_enter hs hsettles hactive hchain
  | succ depth ih =>
    -- the rules that are called are settled at `k`, which is too early for this one
    obtain ⟨k, body, hk, hbody, hsettled, hleast⟩ := exists_least hsettles
    have hnext := chain_enter hs hsettles hactive hchain
    simp only [events, hbody] at h
    rcases List.mem_cons.mp h with h | h
    · obtain ⟨rfl, rfl, rfl⟩ := Event.enter.inj h
      exact hnext
    have hcourse := orderly_body limit name body hs
    have hadvances := p.advances_ruleAction depth
    rcases hcourse.local_or_meets hadvances h with (hlocal | ⟨f, heq⟩) | ⟨rule', s', hmeets, hmem⟩
    · exact hlocal.elim
    · cases heq
    · have hs' : (s.enter name).Advanced s' := (hmeets.orderly hcourse hadvances).2
      have hlength : s'.length = s.length := hs'.length_eq
      have hends : p.ruleAction k rule' s' ≠ .unfinished := by
        apply hmeets.ne_unfinished fun rule s h h' => ruleAction_unique h h'
        intro hrun
        apply (settles_iff hs).mp hsettled
        rw [ruleAction_succ hbody hs hlimit, hrun]
        rfl
      have hsame : ∀ m entry, p.Settles s' m entry ↔ p.Settles s m entry := by
        intro m entry
        rw [Settles, Settles, hs'.input, hs'.policy]
        rfl
      have hactive' : ∀ entry ∈ s'.trace, ¬ p.Settles s' k entry := by
        intro entry hentry
        rw [hs'.trace] at hentry
        rw [hsame]
        rcases List.mem_cons.mp hentry with rfl | hentry
        · exact hleast
        · intro hearly
          exact hactive entry hentry (hearly.of_le (by omega) (hchain.within entry hentry).2)
      have hchain' : p.Chain s' s'.trace := hs'.trace ▸ hnext.of_length_eq hlength
      have hinner := ih hs'.within (hlength ▸ hlimit) ((settles_iff hs'.within).mpr hends) hactive'
        hchain' hmem
      exact hinner.of_length_eq hlength.symm

/-- A rule that does not return at some depth has a chain of that length, if no rule is entered again
where it is active. -/
theorem exists_chain {depth : Nat} (hcalls : ∀ name body, p.body? name = some body →
      ∀ rule, body.Calls rule → rule ∈ p.names)
    (hname : name ∈ p.names) (hs : s.location ≤ s.length) (hlimit : s.length < limit)
    (hrun : p.ruleAction depth name s = .unfinished)
    (hfresh : ∀ rule place active, .enter rule place active ∈ p.events limit depth name s →
      ⟨rule, place⟩ ∉ active)
    (hchain : p.Chain s s.trace) :
    ∃ chain, p.Chain s chain ∧ chain.length = s.trace.length + depth := by
  induction depth generalizing name s with
  | zero => exact ⟨s.trace, hchain, rfl⟩
  | succ depth ih =>
    obtain ⟨body, hbody⟩ := exists_body? hname
    have hcourse := orderly_body limit name body hs
    have hadvances := p.advances_ruleAction depth
    have hinner : (body.course limit 0 (s.enter name)).run (p.ruleAction depth) = .unfinished := by
      rw [ruleAction_succ hbody hs hlimit] at hrun
      generalize (body.course limit 0 (s.enter name)).run (p.ruleAction depth) = o at hrun ⊢
      cases o with
      | unfinished => rfl
      | success | failure => cases hrun
    -- the chain goes on with a rule that is called here and does not return either
    obtain ⟨rule, s', hmeets, hrule⟩ := hcourse.exists_meets hadvances hlimit hinner
    obtain ⟨hcalled, hs'⟩ := hmeets.orderly hcourse hadvances
    have hlength : s'.length = s.length := hs'.length_eq
    have hnext : p.Chain s' s'.trace := by
      rw [hs'.trace]
      apply Chain.of_length_eq _ hlength
      apply hchain.cons hname hs
      apply hfresh
      exact List.mem_cons_self
    obtain ⟨chain, hinside, hdepth⟩ := ih (hcalls name body hbody rule hcalled) hs'.within
      (hlength ▸ hlimit) hrule (fun rule' place active hmem => hfresh rule' place active (by
        simp only [events, hbody]
        exact List.mem_cons_of_mem _ (hmeets.mem_events hmem))) hnext
    refine ⟨chain, hinside.of_length_eq hlength.symm, ?_⟩
    rw [hdepth, hs'.trace]
    simp only [State.enter, List.length_cons]
    omega

/-- A repetition turns at most once for each character that is left, and once more. -/
theorem turn_le {depth : Nat} (hs : s.location ≤ s.length) {first count : Nat}
    (h : .turn first count ∈ p.events limit depth name s) :
    first ≤ s.length ∧ count ≤ s.length - first + 1 := by
  induction depth generalizing name s with
  | zero => simp [events] at h
  | succ depth ih =>
    simp only [events] at h
    cases hbody : p.body? name with
    | none => simp [hbody] at h
    | some body =>
      have hcourse := orderly_body limit name body hs
      have hadvances := p.advances_ruleAction depth
      rw [hbody] at h
      rcases List.mem_cons.mp h with h | h
      · cases h
      rcases hcourse.local_or_meets hadvances h with (hlocal | ⟨f, heq⟩) | ⟨rule, s', hmeets, hmem⟩
      · exact hlocal
      · cases heq
      · have hs' := (hmeets.orderly hcourse hadvances).2
        have hlength : s'.length = s.length := hs'.length_eq
        exact hlength ▸ ih hs'.within hmem

end Program

/-- A rule of an assembled grammar returns exactly if it does so at some depth, and exactly if no rule
is entered in its run at a place where the same rule is active. If it returns, rules are never nested
deeper than there are pairs of a rule and a place, and a repetition that is entered at a place runs
its body at most once for each character behind it, and once more. -/
theorem Grammar.Assembled.parse_returns_iff {g : Grammar} (hg : g.Assembled) :
    ∃ p, g.compile = .ok p ∧ ∀ rule ∈ g.names, ∀ s : State, s.location ≤ s.length → s.trace = [] →
      ∀ limit, s.length < limit →
      (p.parse rule s ≠ .unfinished ↔ ∃ depth, p.ruleAction depth rule s ≠ .unfinished) ∧
      (p.parse rule s ≠ .unfinished ↔ ∀ depth rule' place active,
        .enter rule' place active ∈ p.events limit depth rule s → ⟨rule', place⟩ ∉ active) ∧
      (p.parse rule s ≠ .unfinished → ∀ depth,
        (∀ rule' place active, .enter rule' place active ∈ p.events limit depth rule s →
          active.length + 1 ≤ g.definitions.length * (s.length + 1)) ∧
        ∀ first count, .turn first count ∈ p.events limit depth rule s →
          first ≤ s.length ∧ count ≤ s.length - first + 1) := by
  refine ⟨g.program, hg.compile_eq, fun rule hrule s hs htrace limit hlimit => ?_⟩
  have hnames : g.program.names = g.names := by
    simp only [Program.names, Grammar.program, Grammar.names, List.map_map]
    rfl
  have hsize : g.program.procedures.length = g.definitions.length := List.length_map _
  have hempty : g.program.Chain s s.trace := by
    rw [htrace]
    exact ⟨List.nodup_nil, List.forall_mem_nil _⟩
  have hchain : g.program.parse rule s ≠ .unfinished → ∀ depth rule' place active,
      .enter rule' place active ∈ g.program.events limit depth rule s →
        g.program.Chain s (⟨rule', place⟩ :: active) := by
    intro hrun depth rule' place active hmem
    apply Program.chain_of_settles hs hlimit ((Program.settles_iff hs).mpr hrun) _ hempty hmem
    rw [htrace]
    exact List.forall_mem_nil _
  refine ⟨⟨fun hrun => ⟨_, hrun⟩, fun hreturns => ?_⟩,
    ⟨fun hrun depth rule' place active hmem => ?_, fun hfresh hrun => ?_⟩,
    fun hrun depth => ⟨fun rule' place active hmem => ?_, fun first count hmem => ?_⟩⟩
  · obtain ⟨depth, hrun⟩ := hreturns
    rwa [Program.parse_eq_ruleAction hs hrun]
  · exact (List.nodup_cons.mp (hchain hrun depth rule' place active hmem).nodup).1
  · have hcalls : ∀ name body, g.program.body? name = some body →
        ∀ rule, body.Calls rule → rule ∈ g.program.names := by
      intro name body hbody rule hcalled
      rw [Grammar.body?_program] at hbody
      obtain ⟨d, -, rfl⟩ := Option.map_eq_some_iff.mp hbody
      rw [hnames]
      exact Grammar.defines_iff.mp (Expr.calls_code hcalled).1
    -- one more than the number of pairs of a rule and a place
    obtain ⟨chain, hlong, hlength⟩ := Program.exists_chain hcalls (hnames ▸ hrule) hs hlimit
      (Program.ruleAction_eq_unfinished hs hrun)
      (hfresh (g.program.procedures.length * (s.length + 1) + 1)) hempty
    have hle := hlong.length_le
    omega
  · exact hsize ▸ (hchain hrun depth rule' place active hmem).length_le
  · exact Program.turn_le hs hmem

/-- Four calls of the only rule nest at most: one for each place in the input. -/
theorem parse_returns_countdown : countdown.program.parse "S" (.ofString "a b") ≠ .unfinished ∧
    ∀ depth rule place active,
      .enter rule place active ∈ countdown.program.events 4 depth "S" (.ofString "a b") →
        ⟨rule, place⟩ ∉ active ∧ active.length + 1 ≤ 4 := by
  obtain ⟨p, hp, h⟩ := Grammar.Assembled.parse_returns_iff assembled_countdown
  obtain rfl : countdown.program = p :=
    Except.ok.inj (assembled_countdown.compile_eq.symm.trans hp)
  obtain ⟨-, hiff, hbounds⟩ := h "S" (by decide) (.ofString "a b") (Nat.zero_le _) rfl 4 (by decide)
  have hrun : countdown.program.parse "S" (.ofString "a b") ≠ .unfinished := by
    obtain ⟨tree?, s', heq⟩ : ∃ tree? s', countdown.program.parse "S" (.ofString "a b") =
      .success tree? s' := ⟨_, _, rfl⟩
    rw [heq]
    intro hends
    cases hends
  refine ⟨hrun, fun depth rule place active hmem => ⟨hiff.mp hrun depth rule place active hmem, ?_⟩⟩
  exact (hbounds hrun depth).1 rule place active hmem

end LabeledPeg
