import AttrChain.Proofs.Upkeep
import AttrChain.Stage.Build

/-!
Strict and lenient builds: what one group does to the stage, what all of them do, and how far a
strict build goes along with a lenient one.
-/

namespace AttrChain

variable {ι ε : Type}

def Builder.withStrict (strict : Bool) (b : Builder ι) : Builder ι :=
  { b with settings := { b.settings with strict } }

theorem Builder.compile_withStrict (strict : Bool) (b : Builder ι) (g : Group) :
    (b.withStrict strict).compile g = b.compile g := by
  rfl

namespace Stage

/-- From the first stage to the second one listeners were asked for and chains were kept. Chains
were added and messages were logged, and nothing else was done. -/
def Gains (s t : Stage ι ε) (listens : List Listener) (kept : List Stored) : Prop :=
  ∃ slots log, t = { s with
    notices := s.notices ++ listens.map Notice.listen
    listeners := s.listeners ++ listens
    stored := s.stored ++ kept
    slots, log }

theorem Gains.of_log (s : Stage ι ε) (log : List Log.Entry) : s.Gains { s with log } [] [] :=
  ⟨s.slots, log, by simp⟩

theorem Gains.trans {s t u : Stage ι ε} {listens more : List Listener} {kept moreKept : List Stored}
    (hst : s.Gains t listens kept) (htu : t.Gains u more moreKept) :
    s.Gains u (listens ++ more) (kept ++ moreKept) := by
  obtain ⟨_, _, rfl⟩ := hst
  obtain ⟨slots, log, rfl⟩ := htu
  exact ⟨slots, log, by simp⟩

theorem Gains.note {s t : Stage ι ε} {listens : List Listener} {kept : List Stored}
    (hst : s.Gains t listens kept) (level : Log.Level) (source : Log.Source) (message : String) :
    s.Gains (t.note level source message) listens kept := by
  have hnoted := hst.trans (Gains.of_log t (t.log ++ [⟨level, source, message⟩]))
  rw [List.append_nil, List.append_nil] at hnoted
  exact hnoted

section Binding

variable {node : NodeId} {id : ChainId} {s t : Stage ι ε}

theorem isSome_stored? (node : NodeId) (event : String) (s : Stage ι ε) :
    (s.stored? node event).isSome = s.stored.any fun e => e.node = node ∧ e.event = event := by
  rw [stored?, Option.isSome_map, List.isSome_find?]

theorem taken?_of_stored (events : List String)
    (ht : ∀ e, (t.stored? node e).isSome = ((s.stored? node e).isSome || events.contains e))
    (triggers : List Trigger) {seen more : List String}
    (hmore : ∀ e, e ∈ more ↔ e ∈ events ∨ e ∈ seen) :
    t.taken? node seen triggers = s.taken? node more triggers := by
  induction triggers generalizing seen more with
  | nil => rfl
  | cons trigger rest ih =>
    have htaken : ((t.stored? node trigger.event).isSome || seen.contains trigger.event) =
        ((s.stored? node trigger.event).isSome || more.contains trigger.event) := by
      rw [ht, Bool.or_assoc]
      congr 1
      rw [Bool.eq_iff_iff]
      simp [hmore]
    have hnext : ∀ e, e ∈ trigger.event :: more ↔ e ∈ events ∨ e ∈ trigger.event :: seen := by
      intro e
      simp only [List.mem_cons, hmore]
      exact or_left_comm
    simp only [taken?, htaken, ih hmore, ih hnext]

theorem Gains.taken? {listens : List Listener} {kept : List Stored} (hst : s.Gains t listens kept)
    (hkept : ∀ k ∈ kept, k.node = node) (triggers : List Trigger) :
    t.taken? node [] triggers = s.taken? node (kept.map Stored.event) triggers := by
  obtain ⟨_, _, rfl⟩ := hst
  apply taken?_of_stored (kept.map Stored.event)
  · intro e
    rw [isSome_stored?, isSome_stored?, List.any_append]
    congr 1
    rw [Bool.eq_iff_iff]
    simp only [List.any_eq_true, decide_eq_true_eq, List.contains_iff_mem, List.mem_map]
    constructor
    · rintro ⟨k, hk, -, he⟩
      exact ⟨k, hk, he⟩
    · rintro ⟨k, hk, he⟩
      exact ⟨k, hk, hkept k hk, he⟩
  · simp

theorem Gains.listen (l : Listener) (s : Stage ι ε) (message : String) :
    s.Gains ((s.listen l).note .debug .binder message) [l] [] :=
  ⟨s.slots, _, by rw [List.append_nil]; rfl⟩

theorem Gains.store {event : String} (hs : s.store node event id = .ok t) (message : String) :
    s.Gains (t.note .debug .binder message) [] [⟨node, event, id⟩] := by
  unfold Stage.store at hs
  split at hs
  · cases hs
  · cases hs
    exact ⟨s.slots, _, by rw [List.map_nil, List.append_nil, List.append_nil]; rfl⟩

def listensOf (node : NodeId) (id : ChainId) (triggers : List Trigger) : List Listener :=
  (triggers.filter fun t => !t.stored).map fun t => ⟨node, t.event, t.selector, t.once, id⟩

def keptOf (node : NodeId) (id : ChainId) (triggers : List Trigger) : List Stored :=
  (triggers.filter Trigger.stored).map fun t => ⟨node, t.event, id⟩

theorem bindEach_of_free (node : NodeId) (id : ChainId) (triggers : List Trigger)
    (count : BindCount) (s : Stage ι ε) (hfree : s.taken? node [] triggers = none) :
    ∃ t, s.bindEach node id triggers count =
        (.ok ⟨count.bound + (listensOf node id triggers).length,
          count.stored + (keptOf node id triggers).length⟩, t) ∧
      s.Gains t (listensOf node id triggers) (keptOf node id triggers) := by
  induction triggers generalizing count s with
  | nil => exact ⟨s, rfl, .of_log s s.log⟩
  | cons trigger rest ih =>
    cases hstored : trigger.stored with
    | true =>
      have hlistens : listensOf node id (trigger :: rest) = [] ++ listensOf node id rest := by
        simp [listensOf, hstored]
      have hkept : keptOf node id (trigger :: rest) =
          [⟨node, trigger.event, id⟩] ++ keptOf node id rest := by
        simp [keptOf, hstored]
      simp only [Stage.taken?, hstored, Bool.not_true, Bool.false_eq_true, ↓reduceIte] at hfree
      split at hfree
      · cases hfree
      next hnew =>
        obtain ⟨t, ht⟩ : ∃ t, s.store node trigger.event id = .ok t := by
          simp only [List.contains_nil, Bool.or_false, Bool.not_eq_true] at hnew
          simp [Stage.store, hnew]
        have hone := Gains.store ht ("Stored chain for `" ++ trigger.event ++ "` on " ++ node.text)
        obtain ⟨u, hrun, hrest⟩ := ih ⟨count.bound, count.stored + 1⟩ _
          ((hone.taken? (by simp) rest).trans hfree)
        refine ⟨u, ?_, hlistens ▸ hkept ▸ hone.trans hrest⟩
        simp only [bindEach, hstored, ↓reduceIte, ht, hrun, hlistens, hkept]
        simp [Nat.add_assoc, Nat.add_comm 1]
    | false =>
      have hlistens : listensOf node id (trigger :: rest) =
          [⟨node, trigger.event, trigger.selector, trigger.once, id⟩] ++ listensOf node id rest := by
        simp [listensOf, hstored]
      have hkept : keptOf node id (trigger :: rest) = [] ++ keptOf node id rest := by
        simp [keptOf, hstored]
      have hone := Gains.listen ⟨node, trigger.event, trigger.selector, trigger.once, id⟩ s
        ("Bound chain for `" ++ trigger.event ++ "` on " ++ node.text)
      have hnext : s.taken? node [] rest = none := by
        simpa only [Stage.taken?, hstored, Bool.not_false, ↓reduceIte] using hfree
      obtain ⟨u, hrun, hrest⟩ := ih ⟨count.bound + 1, count.stored⟩ _
        ((hone.taken? (by simp) rest).trans hnext)
      refine ⟨u, ?_, hlistens ▸ hkept ▸ hone.trans hrest⟩
      simp only [bindEach, hstored, Bool.false_eq_true, ↓reduceIte, hrun, hlistens, hkept]
      simp [Nat.add_assoc, Nat.add_comm 1]

end Binding

/-- All or nothing: a chain is bound for all its events, or the stage stays as it is. -/
theorem bind_cases (node : NodeId) (c : Chain ι) (s : Stage ι ε) :
    (∃ e, s.bind node c = (.error e, s)) ∨
      ∃ t listens kept, s.bind node c = (.ok ⟨listens.length, kept.length⟩, t) ∧
        s.Gains t listens kept := by
  unfold bind
  cases hfree : s.taken? node [] c.triggers with
  | some event => exact .inl ⟨_, rfl⟩
  | none =>
    right
    have hadded : s.Gains (s.addChain c).2 [] [] :=
      ⟨s.slots ++ [⟨c, false⟩], s.log, by simp [addChain]⟩
    obtain ⟨t, hrun, hgains⟩ := bindEach_of_free node (s.addChain c).1 c.triggers ⟨0, 0⟩ _
      ((hadded.taken? (by simp) c.triggers).trans hfree)
    refine ⟨t, _, _, ?_, hadded.trans hgains⟩
    simp only [hrun, Nat.zero_add, List.nil_append]

theorem buildGroup_cases (b : Builder ι) (node : NodeId) (g : Group) (s : Stage ι ε) :
    (∃ e log, s.buildGroup b node g = (.error e, { s with log })) ∨
      ∃ t listens kept, s.buildGroup b node g = (.ok ⟨listens.length, kept.length⟩, t) ∧
        s.Gains t listens kept := by
  unfold buildGroup
  cases b.compile g with
  | error e => exact .inl ⟨e, s.log, rfl⟩
  | ok c =>
    dsimp only
    have hnoted := (Gains.of_log s s.log).note .debug .builder
      ("Compiled `" ++ g.onText ++ "` into " ++ c.size.repr ++ " cells")
    obtain ⟨e, he⟩ | ⟨t, listens, kept, ht, hgains⟩ := bind_cases node c
      (s.note .debug .builder ("Compiled `" ++ g.onText ++ "` into " ++ c.size.repr ++ " cells"))
    · exact .inl ⟨e, _, he⟩
    · exact .inr ⟨t, listens, kept, ht, hnoted.trans hgains⟩

/-- What `view` shows of the stage is nothing that binding chains changes. -/
def IgnoresBinding {α : Type} (view : Stage ι ε → α) : Prop :=
  ∀ s slots listeners stored notices log,
    view { s with slots, listeners, stored, notices, log } = view s

theorem buildGroups_leaves {α : Type} {view : Stage ι ε → α} (hv : IgnoresBinding view)
    (b : Builder ι) (node : NodeId) (groups : List Group) (i : Nat) (summary : Summary)
    (s : Stage ι ε) : view (s.buildGroups b node i groups summary).2 = view s := by
  induction groups generalizing i summary s with
  | nil => rfl
  | cons g rest ih =>
    unfold buildGroups
    obtain ⟨e, log, hg⟩ | ⟨t, listens, kept, hg, hgains⟩ := buildGroup_cases b node g s
    · simp only [hg]
      split
      · exact hv s _ _ _ _ _
      · exact (ih _ _ _).trans (hv s _ _ _ _ _)
    · simp only [hg]
      obtain ⟨_, _, rfl⟩ := hgains
      exact (ih _ _ _).trans (hv s _ _ _ _ _)

theorem buildGroup_withStrict (strict : Bool) (b : Builder ι) (node : NodeId) (g : Group)
    (s : Stage ι ε) : s.buildGroup (b.withStrict strict) node g = s.buildGroup b node g := by
  simp only [buildGroup, Builder.compile_withStrict]

theorem buildGroups_ok {b : Builder ι} {node : NodeId} {g : Group} {s t : Stage ι ε}
    {count : BindCount} (hg : s.buildGroup b node g = (.ok count, t)) (strict : Bool) (i : Nat)
    (rest : List Group) (summary : Summary) :
    s.buildGroups (b.withStrict strict) node i (g :: rest) summary =
      t.buildGroups (b.withStrict strict) node (i + 1) rest
        { summary with
          chains := summary.chains + 1
          bound := summary.bound + count.bound
          stored := summary.stored + count.stored } := by
  rw [buildGroups, buildGroup_withStrict, hg]

theorem buildGroups_error_strict {b : Builder ι} {node : NodeId} {g : Group} {s t : Stage ι ε}
    {e : Error} (hg : s.buildGroup b node g = (.error e, t)) (i : Nat) (rest : List Group)
    (summary : Summary) :
    s.buildGroups (b.withStrict true) node i (g :: rest) summary = (.error e, t) := by
  rw [buildGroups, buildGroup_withStrict, hg]
  rfl

theorem buildGroups_error_lenient {b : Builder ι} {node : NodeId} {g : Group} {s t : Stage ι ε}
    {e : Error} (hg : s.buildGroup b node g = (.error e, t)) (i : Nat) (summary : Summary) :
    ∃ log, ∀ rest, s.buildGroups (b.withStrict false) node i (g :: rest) summary =
      buildGroups (b.withStrict false) node (i + 1) rest
        { summary with skipped := summary.skipped ++ [⟨i, g.onText, e⟩] } { t with log } := by
  refine ⟨t.log ++ [⟨.error, .builder, "Skipping group " ++ i.repr ++ " `" ++ g.onText ++ "` on "
    ++ node.text ++ ": " ++ e.message⟩], fun rest => ?_⟩
  rw [buildGroups, buildGroup_withStrict, hg]
  rfl

/-- The stage after the first `k` groups, where each group that failed was passed over. -/
def tried (b : Builder ι) (node : NodeId) (i : Nat) (groups : List Group) (summary : Summary)
    (s : Stage ι ε) (k : Nat) : Stage ι ε :=
  (s.buildGroups (b.withStrict false) node i (groups.take k) summary).2

/-- What a lenient run over groups has to show for itself, and what a strict one makes of them. -/
structure Tally (b : Builder ι) (node : NodeId) (i : Nat) (groups : List Group) (summary : Summary)
    (s : Stage ι ε) (final : Summary) (t : Stage ι ε) (listens : List Listener)
    (kept : List Stored) (skipped : List Skipped) : Prop where
  lenient : s.buildGroups (b.withStrict false) node i groups summary = (.ok final, t)
  gains : s.Gains t listens kept
  bound : final.bound = summary.bound + listens.length
  stored : final.stored = summary.stored + kept.length
  passedOver : final.skipped = summary.skipped ++ skipped
  chains : final.chains + skipped.length = summary.chains + groups.length
  ascending : skipped.Pairwise fun a b => a.index < b.index
  failed : ∀ e ∈ skipped, ∃ k g, e.index = i + k ∧ groups[k]? = some g ∧ e.onText = g.onText ∧
    ((tried b node i groups summary s k).buildGroup b node g).1 = .error e.error ∧
    ∃ log, tried b node i groups summary s (k + 1) =
      { tried b node i groups summary s k with log }
  clean : skipped = [] → s.buildGroups (b.withStrict true) node i groups summary = (.ok final, t)
  broken : ∀ first rest, skipped = first :: rest → ∃ k log,
    first.index = i + k ∧
    s.buildGroups (b.withStrict true) node i groups summary =
      (.error first.error, { tried b node i groups summary s k with log }) ∧
    ∃ ls ks, ls <+: listens ∧ ks <+: kept ∧ s.Gains (tried b node i groups summary s k) ls ks

section Tallies

variable {b : Builder ι} {node : NodeId} {i : Nat} {g : Group} {groups : List Group}
  {summary final : Summary} {s t u : Stage ι ε} {listens : List Listener} {kept : List Stored}
  {skipped : List Skipped}

theorem Tally.nil (b : Builder ι) (node : NodeId) (i : Nat) (summary : Summary) (s : Stage ι ε) :
    Tally b node i [] summary s summary s [] [] [] where
  lenient := rfl
  gains := .of_log s s.log
  bound := rfl
  stored := rfl
  passedOver := (List.append_nil _).symm
  chains := rfl
  ascending := .nil
  failed := by simp
  clean _ := rfl
  broken := by simp

theorem tried_of_ok {count : BindCount} (hg : s.buildGroup b node g = (.ok count, t))
    (i : Nat) (groups : List Group) (summary : Summary) (k : Nat) :
    tried b node i (g :: groups) summary s (k + 1) =
      tried b node (i + 1) groups
        { summary with
          chains := summary.chains + 1
          bound := summary.bound + count.bound
          stored := summary.stored + count.stored } t k :=
  congrArg Prod.snd (buildGroups_ok hg false i (groups.take k) summary)

theorem Tally.ok {more : List Listener} {moreKept : List Stored}
    (hg : s.buildGroup b node g = (.ok ⟨listens.length, kept.length⟩, t))
    (hgains : s.Gains t listens kept)
    (hrest : Tally b node (i + 1) groups
      { summary with
        chains := summary.chains + 1
        bound := summary.bound + listens.length
        stored := summary.stored + kept.length } t final u more moreKept skipped) :
    Tally b node i (g :: groups) summary s final u (listens ++ more) (kept ++ moreKept) skipped where
  lenient := (buildGroups_ok hg false i groups summary).trans hrest.lenient
  gains := hgains.trans hrest.gains
  bound := by
    rw [hrest.bound]
    simp [Nat.add_assoc]
  stored := by
    rw [hrest.stored]
    simp [Nat.add_assoc]
  passedOver := hrest.passedOver
  chains := by
    rw [hrest.chains]
    simp [Nat.add_assoc, Nat.add_comm 1]
  ascending := hrest.ascending
  failed e he := by
    obtain ⟨k, g', hk, hg', hrun⟩ := hrest.failed e he
    refine ⟨k + 1, g', by omega, hg', ?_⟩
    rw [tried_of_ok hg, tried_of_ok hg]
    exact hrun
  clean hs := (buildGroups_ok hg true i groups summary).trans (hrest.clean hs)
  broken first rest hs := by
    obtain ⟨k, log, hk, hrun, ls, ks, hls, hks, hupto⟩ := hrest.broken first rest hs
    refine ⟨k + 1, log, by omega, ?_, listens ++ ls, kept ++ ks, ?_, ?_, ?_⟩
    · rw [tried_of_ok hg, buildGroups_ok hg]
      exact hrun
    · exact (List.prefix_append_right_inj listens).mpr hls
    · exact (List.prefix_append_right_inj kept).mpr hks
    · rw [tried_of_ok hg]
      exact hgains.trans hupto

theorem Tally.error {e : Error} {log log' : List Log.Entry}
    (hg : s.buildGroup b node g = (.error e, { s with log }))
    (hpass : ∀ rest, s.buildGroups (b.withStrict false) node i (g :: rest) summary =
      buildGroups (b.withStrict false) node (i + 1) rest
        { summary with skipped := summary.skipped ++ [⟨i, g.onText, e⟩] } { s with log := log' })
    (hrest : Tally b node (i + 1) groups
      { summary with skipped := summary.skipped ++ [⟨i, g.onText, e⟩] }
      { s with log := log' } final u listens kept skipped) :
    Tally b node i (g :: groups) summary s final u listens kept
      (⟨i, g.onText, e⟩ :: skipped) where
  lenient := (hpass groups).trans hrest.lenient
  gains := (Gains.of_log s log').trans hrest.gains
  bound := hrest.bound
  stored := hrest.stored
  passedOver := by rw [hrest.passedOver, List.append_assoc, List.singleton_append]
  chains := by
    have hchains := hrest.chains
    simp only [List.length_cons] at hchains ⊢
    omega
  ascending := by
    refine .cons ?_ hrest.ascending
    intro later hlater
    obtain ⟨k, -, hk, -⟩ := hrest.failed later hlater
    simp only [hk]
    omega
  failed := by
    have htried : ∀ k, tried b node i (g :: groups) summary s (k + 1) =
        tried b node (i + 1) groups _ { s with log := log' } k :=
      fun k => congrArg Prod.snd (hpass (groups.take k))
    rintro e' (_ | ⟨_, he'⟩)
    · refine ⟨0, g, rfl, rfl, rfl, ?_, log', ?_⟩
      · exact congrArg Prod.fst hg
      · exact htried 0
    · obtain ⟨k, g', hk, hg', hrun⟩ := hrest.failed e' he'
      refine ⟨k + 1, g', by omega, hg', ?_⟩
      rw [htried, htried]
      exact hrun
  clean hs := by cases hs
  broken first rest hs := by
    cases hs
    refine ⟨0, log, rfl, ?_, [], [], List.nil_prefix, List.nil_prefix, ?_⟩
    · exact buildGroups_error_strict hg i groups summary
    · exact .of_log s s.log

theorem tally (b : Builder ι) (node : NodeId) (groups : List Group) :
    ∀ (i : Nat) (summary : Summary) (s : Stage ι ε), ∃ final t listens kept skipped,
      Tally b node i groups summary s final t listens kept skipped := by
  induction groups with
  | nil => exact fun i summary s => ⟨_, _, _, _, _, .nil b node i summary s⟩
  | cons g groups ih =>
    intro i summary s
    obtain ⟨e, log, hg⟩ | ⟨t, listens, kept, hg, hgains⟩ := buildGroup_cases b node g s
    · obtain ⟨log', hpass⟩ := buildGroups_error_lenient hg i summary
      obtain ⟨_, _, _, _, _, hrest⟩ := ih (i + 1) _ { s with log := log' }
      exact ⟨_, _, _, _, _, .error hg hpass hrest⟩
    · obtain ⟨_, _, _, _, _, hrest⟩ := ih (i + 1) _ t
      exact ⟨_, _, _, _, _, .ok hg hgains hrest⟩

end Tallies

section Builds

variable {h : Host ι (Stage ι ε)} {b : Builder ι} {node : NodeId} {onText byText toText : String}
  {s t : Stage ι ε}

theorem build_of_ok {summary : Summary}
    (hrun : s.buildGroups b node 0 (Group.ofTexts onText byText toText) ⟨node, 0, 0, 0, []⟩ =
      (.ok summary, t)) :
    ∃ message, s.build h b node onText byText toText =
      (.ok summary, (t.built h node b.settings.doneEvent).note .debug .builder message) := by
  refine ⟨"Built " ++ node.text ++ ": " ++ summary.chains.repr ++ " chains, "
    ++ summary.bound.repr ++ " bound, " ++ summary.stored.repr ++ " stored", ?_⟩
  simp only [build, hrun]

theorem build_of_error {e : Error}
    (hrun : s.buildGroups b node 0 (Group.ofTexts onText byText toText) ⟨node, 0, 0, 0, []⟩ =
      (.error e, t)) :
    s.build h b node onText byText toText = (.error e, t) := by
  simp only [build, hrun]

/-- The chains that the event for a built node fires cannot add to what was asked for. -/
theorem built_leaves (hl : h.Leaves fun s => (s.notices, s.stored)) (node : NodeId)
    (event : String) (t : Stage ι ε) :
    (t.built h node event).notices = t.notices ++ [.built node event] ∧
      (t.built h node event).stored = t.stored := by
  have hview := dispatch_leaves hl (fun _ _ _ _ _ _ => rfl) (.fresh event node none) false
    { t with notices := t.notices ++ [Notice.built node event] }
  exact Prod.mk.inj hview

/-- A lenient build gives a truthful summary, and a strict one goes along with it up to the first
group that fails. -/
theorem build_strict_lenient (h : Host ι (Stage ι ε)) (b : Builder ι) (node : NodeId)
    (onText byText toText : String) (s : Stage ι ε) :
    let groups := Group.ofTexts onText byText toText
    let upTo := tried b node 0 groups ⟨node, 0, 0, 0, []⟩ s
    let strict := s.build h (b.withStrict true) node onText byText toText
    let lenient := s.build h (b.withStrict false) node onText byText toText
    let event := b.settings.doneEvent
    ∃ summary t listens kept,
      -- the groups ask for listeners and keep chains; then, once, the node is built
      s.Gains t listens kept ∧
      (∃ message, lenient = (.ok summary, (t.built h node event).note .debug .builder message)) ∧
      ((h.Leaves fun s => (s.notices, s.stored)) →
        lenient.2.notices = s.notices ++ listens.map .listen ++ [.built node event] ∧
          lenient.2.stored = s.stored ++ kept) ∧
      -- the summary says what was done
      summary.bound = listens.length ∧
      summary.stored = kept.length ∧
      summary.chains + summary.skipped.length = groups.length ∧
      (summary.skipped.Pairwise fun a b => a.index < b.index) ∧
      (∀ e ∈ summary.skipped, ∃ g, groups[e.index]? = some g ∧ e.onText = g.onText ∧
        ((upTo e.index).buildGroup b node g).1 = .error e.error ∧
        ∃ log, upTo (e.index + 1) = { upTo e.index with log }) ∧
      -- the strict build agrees, or stops at the first group that fails
      ((∃ counted, strict.1 = .ok counted) ↔ summary.skipped = []) ∧
      (summary.skipped = [] → strict = lenient) ∧
      ∀ first rest, summary.skipped = first :: rest →
        ∃ log, strict = (.error first.error, { upTo first.index with log }) ∧
          ∃ ls ks, ls <+: listens ∧ ks <+: kept ∧ s.Gains (upTo first.index) ls ks := by
  intro groups upTo strict lenient event
  obtain ⟨summary, t, listens, kept, skipped, ht⟩ := tally b node groups 0 ⟨node, 0, 0, 0, []⟩ s
  have hskipped : summary.skipped = skipped := ht.passedOver
  obtain ⟨message, hlenient⟩ : ∃ message, lenient =
      (.ok summary, (t.built h node event).note .debug .builder message) := build_of_ok ht.lenient
  have hclean : summary.skipped = [] → strict = lenient := by
    intro hs
    simp only [strict, lenient, build, ht.clean (hskipped ▸ hs), ht.lenient, groups]
    rfl
  have hbroken : ∀ first rest, summary.skipped = first :: rest →
      ∃ log, strict = (.error first.error, { upTo first.index with log }) ∧
        ∃ ls ks, ls <+: listens ∧ ks <+: kept ∧ s.Gains (upTo first.index) ls ks := by
    intro first rest hs
    obtain ⟨k, log, hk, hrun, hupto⟩ := ht.broken first rest (hskipped ▸ hs)
    rw [Nat.zero_add] at hk
    subst hk
    exact ⟨log, build_of_error hrun, hupto⟩
  refine ⟨summary, t, listens, kept, ht.gains, ⟨message, hlenient⟩, ?_, ?_, ?_, ?_, ?_, ?_, ?_,
    hclean, hbroken⟩
  · intro hl
    obtain ⟨hnotices, hstored⟩ := built_leaves hl node event t
    obtain ⟨_, _, rfl⟩ := ht.gains
    rw [hlenient]
    exact ⟨hnotices, hstored⟩
  · simpa using ht.bound
  · simpa using ht.stored
  · rw [hskipped]
    simpa using ht.chains
  · exact hskipped ▸ ht.ascending
  · intro e he
    obtain ⟨k, g, hk, hg, htext, herror, hafter⟩ := ht.failed e (hskipped ▸ he)
    rw [Nat.zero_add] at hk
    subst hk
    exact ⟨g, hg, htext, herror, hafter⟩
  · constructor
    · rintro ⟨counted, hcounted⟩
      cases hs : summary.skipped with
      | nil => rfl
      | cons first rest =>
        obtain ⟨log, hstrict, -⟩ := hbroken first rest hs
        rw [hstrict] at hcounted
        cases hcounted
    · intro hs
      exact ⟨summary, by rw [hclean hs, hlenient]⟩

end Builds

/-- A build of four groups by a builder without instructions: the third one cannot be kept beside
the second one, and the fourth one calls what there is not. -/
def fourGroups (strict : Bool) : Except Error Summary × Stage Kit Unit :=
  (Stage.empty ()).build (host .standard)
    (Builder.withStrict strict ⟨⟨.empty, .empty, .empty, .empty⟩, .standard⟩) Document.root
    "click;@later;@later;focus|nope()" "" ""

theorem fourGroups_strict_lenient :
    (fourGroups true).1 = .error (.alreadyStored Document.root "later") ∧
      ∃ l, (fourGroups false).2.notices = [.listen l, .built Document.root "obted"] := by
  obtain ⟨summary, t, listens, kept, -, ⟨message, hlenient⟩, hnotices, hbound, -, -, -, -, -, -,
    hbroken⟩ := build_strict_lenient (host .standard)
      ⟨⟨.empty, .empty, .empty, .empty⟩, .standard⟩ Document.root
      "click;@later;@later;focus|nope()" "" "" (Stage.empty () : Stage Kit Unit)
  have hsummary : (fourGroups false).1.toOption = some ⟨Document.root, 2, 1, 1,
      [⟨2, "@later", .alreadyStored Document.root "later"⟩,
        ⟨3, "focus|nope()", .unknownInstruction .on "nope"⟩]⟩ := by
    decide +kernel
  have hsame : (fourGroups false).1 = .ok summary := congrArg Prod.fst hlenient
  rw [hsame] at hsummary
  cases hsummary
  constructor
  · obtain ⟨log, hstrict, -⟩ := hbroken _ _ rfl
    exact congrArg Prod.fst hstrict
  · obtain ⟨l, rfl⟩ : ∃ l, listens = [l] := List.length_eq_one_iff.mp hbound.symm
    exact ⟨l, (hnotices (host_leaves .standard fun _ _ _ => rfl)).1⟩

end Stage

end AttrChain
