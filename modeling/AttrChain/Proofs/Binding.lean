import AttrChain.Proofs.Building

/-!
Binding one chain: it is bound for all of its events, or for none if one of them cannot be kept.
-/

namespace AttrChain

variable {ι ε : Type}

namespace Stage

def keptEvents (triggers : List Trigger) : List String :=
  (triggers.filter Trigger.stored).map Trigger.event

/-- No chain is kept on the node for any of the events, and none is `seen` or comes twice. -/
def Free (s : Stage ι ε) (node : NodeId) (seen events : List String) : Prop :=
  (∀ e ∈ events, s.stored? node e = none ∧ e ∉ seen) ∧ events.Nodup

section Free

variable {s t : Stage ι ε} {node : NodeId} {seen events : List String}

theorem free_nil (s : Stage ι ε) (node : NodeId) (seen : List String) : s.Free node seen [] :=
  ⟨by simp, .nil⟩

theorem free_cons {event : String} :
    s.Free node seen (event :: events) ↔
      (s.stored? node event = none ∧ event ∉ seen) ∧ s.Free node (event :: seen) events := by
  rw [Free, Free, List.forall_mem_cons, List.nodup_cons]
  constructor
  · rintro ⟨⟨hevent, hrest⟩, hnew, hnodup⟩
    refine ⟨hevent, fun e he => ⟨(hrest e he).1, ?_⟩, hnodup⟩
    rw [List.mem_cons, not_or]
    exact ⟨fun heq => hnew (heq ▸ he), (hrest e he).2⟩
  · rintro ⟨hevent, hrest, hnodup⟩
    refine ⟨⟨hevent, fun e he => ⟨(hrest e he).1, ?_⟩⟩, ?_, hnodup⟩
    · exact fun hseen => (hrest e he).2 (List.mem_cons_of_mem _ hseen)
    · exact fun hmem => (hrest event hmem).2 List.mem_cons_self

theorem not_free_iff :
    ¬s.Free node [] events ↔ (∃ e ∈ events, (s.stored? node e).isSome) ∨ ¬events.Nodup := by
  rw [Free, Classical.not_and_iff_not_or_not]
  simp [Option.isSome_iff_ne_none]

theorem taken?_spec (s : Stage ι ε) (node : NodeId) (triggers : List Trigger) (seen : List String) :
    match s.taken? node seen triggers with
    | none => s.Free node seen (keptEvents triggers)
    | some event => ∃ before after, keptEvents triggers = before ++ event :: after ∧
        s.Free node seen before ∧
        ((s.stored? node event).isSome ∨ event ∈ seen ∨ event ∈ before) := by
  induction triggers generalizing seen with
  | nil => exact free_nil s node seen
  | cons trigger rest ih =>
    cases hstored : trigger.stored with
    | false =>
      have hkept : keptEvents (trigger :: rest) = keptEvents rest := by simp [keptEvents, hstored]
      simpa [taken?, hstored, hkept] using ih seen
    | true =>
      have hkept : keptEvents (trigger :: rest) = trigger.event :: keptEvents rest := by
        simp [keptEvents, hstored]
      simp only [taken?, hstored, Bool.not_true, Bool.false_eq_true, ↓reduceIte, hkept]
      by_cases hclash :
          ((s.stored? node trigger.event).isSome || seen.contains trigger.event) = true
      · rw [if_pos hclash]
        rw [Bool.or_eq_true, List.contains_iff_mem] at hclash
        exact ⟨[], keptEvents rest, rfl, free_nil s node seen, hclash.imp_right .inl⟩
      · rw [if_neg hclash]
        have hfree : s.stored? node trigger.event = none ∧ trigger.event ∉ seen := by
          simpa using hclash
        have hrest := ih (trigger.event :: seen)
        cases htaken : s.taken? node (trigger.event :: seen) rest with
        | none =>
          rw [htaken] at hrest
          exact free_cons.mpr ⟨hfree, hrest⟩
        | some event =>
          rw [htaken] at hrest
          obtain ⟨before, after, hsplit, hbefore, hclash⟩ := hrest
          refine ⟨trigger.event :: before, after, congrArg _ hsplit,
            free_cons.mpr ⟨hfree, hbefore⟩, hclash.imp_right ?_⟩
          rw [List.mem_cons, List.mem_cons, or_assoc]
          exact or_left_comm.mp

theorem taken?_eq_some {triggers : List Trigger} {event : String}
    (h : s.taken? node [] triggers = some event) :
    ∃ before after, keptEvents triggers = before ++ event :: after ∧
      ((s.stored? node event).isSome ∨ event ∈ before) ∧
      (∀ e ∈ before, s.stored? node e = none) ∧ before.Nodup := by
  have hspec := s.taken?_spec node triggers []
  rw [h] at hspec
  obtain ⟨before, after, hsplit, ⟨hnone, hnodup⟩, hclash⟩ := hspec
  rw [or_iff_right List.not_mem_nil] at hclash
  exact ⟨before, after, hsplit, hclash, fun e he => (hnone e he).1, hnodup⟩

theorem taken?_eq_none_iff {triggers : List Trigger} :
    s.taken? node [] triggers = none ↔ s.Free node [] (keptEvents triggers) := by
  cases htaken : s.taken? node [] triggers with
  | none =>
    have hspec := s.taken?_spec node triggers []
    rw [htaken] at hspec
    exact iff_of_true rfl hspec
  | some event =>
    obtain ⟨before, after, hsplit, hclash, -, -⟩ := taken?_eq_some htaken
    refine iff_of_false nofun fun hfree => ?_
    rw [hsplit] at hfree
    have hmem : event ∈ before ++ event :: after := List.mem_append_right _ List.mem_cons_self
    rcases hclash with hstored | hbefore
    · rw [(hfree.1 event hmem).1] at hstored
      cases hstored
    · exact (List.nodup_append.mp hfree.2).2.2 event hbefore event List.mem_cons_self rfl

end Free

section Looking

variable {s t : Stage ι ε} {node : NodeId} {id : ChainId}

theorem bindEach_slots (node : NodeId) (id : ChainId) (triggers : List Trigger) (count : BindCount)
    (s : Stage ι ε) : (s.bindEach node id triggers count).2.slots = s.slots := by
  induction triggers generalizing count s with
  | nil => rfl
  | cons trigger rest ih =>
    unfold bindEach
    split
    · split
      · rfl
      next t ht =>
        unfold store at ht
        split at ht
        · cases ht
        · cases ht
          exact ih _ _
    · exact ih _ _

theorem keptOf_find? (node : NodeId) (id : ChainId) (triggers : List Trigger) (other : NodeId)
    (event : String) :
    ((keptOf node id triggers).find? fun e => e.node = other ∧ e.event = event).map Stored.chain =
      if other = node ∧ event ∈ keptEvents triggers then some id else none := by
  unfold keptOf keptEvents
  generalize triggers.filter Trigger.stored = kept
  induction kept with
  | nil => simp
  | cons trigger rest ih =>
    rw [List.map_cons, List.find?_cons, List.map_cons]
    by_cases hhere : node = other ∧ trigger.event = event
    · simp [hhere]
    · simp only [hhere, decide_false, ih, List.mem_cons]
      congr 1
      simp only [eq_iff_iff]
      refine and_congr_right fun hother => (or_iff_right fun hevent => ?_).symm
      exact hhere ⟨hother.symm, hevent.symm⟩

theorem Gains.stored? {listens : List Listener} {triggers : List Trigger}
    (hst : s.Gains t listens (keptOf node id triggers)) (other : NodeId) (event : String) :
    t.stored? other event =
      (s.stored? other event).or
        (if other = node ∧ event ∈ keptEvents triggers then some id else none) := by
  obtain ⟨_, _, rfl⟩ := hst
  rw [Stage.stored?, List.find?_append, Option.map_or, keptOf_find?, Stage.stored?]

end Looking

section Outcome

variable {s : Stage ι ε} {node : NodeId} {c : Chain ι}

theorem Free.addChain {seen events : List String} (h : s.Free node seen events) (c : Chain ι) :
    (s.addChain c).2.Free node seen events := h

theorem bind_of_taken {event : String} (h : s.taken? node [] c.triggers = some event) :
    s.bind node c = (.error (.alreadyStored node event), s) := by
  simp only [bind, h]

theorem bind_of_free (h : s.Free node [] (keptEvents c.triggers)) :
    ∃ log, s.bind node c =
      (.ok ⟨(listensOf node ⟨s.slots.length⟩ c.triggers).length, (keptEvents c.triggers).length⟩,
        { s with
          slots := s.slots ++ [⟨c, false⟩]
          listeners := s.listeners ++ listensOf node ⟨s.slots.length⟩ c.triggers
          notices := s.notices ++ (listensOf node ⟨s.slots.length⟩ c.triggers).map .listen
          stored := s.stored ++ keptOf node ⟨s.slots.length⟩ c.triggers
          log }) := by
  obtain ⟨t, hrun, slots, log, rfl⟩ := bindEach_of_free node (s.addChain c).1 c.triggers ⟨0, 0⟩
    (s.addChain c).2 (taken?_eq_none_iff.mpr (h.addChain c))
  have hslots := congrArg (fun r => r.2.slots) hrun
  dsimp only at hslots
  rw [bindEach_slots] at hslots
  subst hslots
  refine ⟨log, ?_⟩
  simp only [bind, taken?_eq_none_iff.mpr h, hrun, Nat.zero_add]
  simp [keptOf, keptEvents, addChain]

theorem stored?_of_bound (h : s.Free node [] (keptEvents c.triggers)) (other : NodeId)
    (event : String) :
    (s.bind node c).2.stored? other event =
      if other = node ∧ event ∈ keptEvents c.triggers then some ⟨s.slots.length⟩
      else s.stored? other event := by
  obtain ⟨log, hbind⟩ := bind_of_free h
  have hgains : s.Gains (s.bind node c).2 (listensOf node ⟨s.slots.length⟩ c.triggers)
      (keptOf node ⟨s.slots.length⟩ c.triggers) := by
    rw [hbind]
    exact ⟨_, log, rfl⟩
  rw [hgains.stored?]
  by_cases hhere : other = node ∧ event ∈ keptEvents c.triggers
  · rw [hhere.1, (h.1 event hhere.2).1]
    simp [hhere.2]
  · simp [hhere]

theorem store_of_free (h : s.Free node [] (keptEvents c.triggers)) (id : ChainId)
    {done rest : List Trigger} {trigger : Trigger} (hsplit : c.triggers = done ++ trigger :: rest)
    (hstored : trigger.stored = true) :
    ∃ u, ((s.addChain c).2.bindEach node id done ⟨0, 0⟩).2.store node trigger.event id = .ok u := by
  have hkept : keptEvents c.triggers = keptEvents done ++ trigger.event :: keptEvents rest := by
    simp [keptEvents, hsplit, hstored]
  obtain ⟨hfree, hnodup⟩ := hkept ▸ h
  obtain ⟨hdone, -, hapart⟩ := List.nodup_append.mp hnodup
  have hearlier : s.Free node [] (keptEvents done) :=
    ⟨fun e he => hfree e (List.mem_append_left _ he), hdone⟩
  obtain ⟨t, hrun, hgains⟩ := bindEach_of_free node id done ⟨0, 0⟩ (s.addChain c).2
    (taken?_eq_none_iff.mpr (hearlier.addChain c))
  have hnew : trigger.event ∉ keptEvents done := fun hmem =>
    hapart _ hmem _ List.mem_cons_self rfl
  have hnone : t.stored? node trigger.event = none := by
    have hbefore := (hfree trigger.event (List.mem_append_right _ List.mem_cons_self)).1
    rw [hgains.stored?, show (s.addChain c).2.stored? node trigger.event = none from hbefore]
    simp [hnew]
  simp [hrun, store, hnone]

end Outcome

/-- Binding a chain is all or nothing. It fails exactly if a chain is kept on the node already for
an event that this one is to be kept for, or if such an event comes twice; the first such event is
told, and the stage stays as it is. Otherwise the chain comes to the stage, is kept for these events
and for nothing else, and is made to listen for all other events in their order. Once the check in
front is passed, none of the events can fail to be kept. -/
theorem bind_all_or_nothing (node : NodeId) (c : Chain ι) (s : Stage ι ε) :
    let kept := keptEvents c.triggers
    let live := c.triggers.filter fun t => !t.stored
    let id : ChainId := ⟨s.slots.length⟩
    let result := (s.bind node c).1
    let t := (s.bind node c).2
    ((∃ e, result = .error e) ↔ (∃ e ∈ kept, (s.stored? node e).isSome) ∨ ¬kept.Nodup) ∧
    (∀ error, result = .error error → t = s ∧
      ∃ before event after, kept = before ++ event :: after ∧
        error = .alreadyStored node event ∧
        ((s.stored? node event).isSome ∨ event ∈ before) ∧
        (∀ e ∈ before, s.stored? node e = none) ∧ before.Nodup) ∧
    (∀ count, result = .ok count →
      count = ⟨live.length, kept.length⟩ ∧
      (∀ other event, t.stored? other event =
        if other = node ∧ event ∈ kept then some id else s.stored? other event) ∧
      let listeners := live.map fun l => ⟨node, l.event, l.selector, l.once, id⟩
      ∃ log, t = { s with
        slots := s.slots ++ [⟨c, false⟩]
        listeners := s.listeners ++ listeners
        notices := s.notices ++ listeners.map .listen
        stored := s.stored ++ kept.map fun event => ⟨node, event, id⟩
        log }) ∧
    (s.taken? node [] c.triggers = none → ∀ done trigger rest,
      c.triggers = done ++ trigger :: rest → trigger.stored = true →
        ∃ u, ((s.addChain c).2.bindEach node id done ⟨0, 0⟩).2.store node trigger.event id =
          .ok u) := by
  intro kept live id result t
  have hnever : s.taken? node [] c.triggers = none → ∀ done trigger rest,
      c.triggers = done ++ trigger :: rest → trigger.stored = true →
        ∃ u, ((s.addChain c).2.bindEach node id done ⟨0, 0⟩).2.store node trigger.event id =
          .ok u :=
    fun hfree _ _ _ => store_of_free (taken?_eq_none_iff.mp hfree) id
  cases htaken : s.taken? node [] c.triggers with
  | some event =>
    obtain ⟨hresult, ht⟩ : result = .error (.alreadyStored node event) ∧ t = s :=
      Prod.mk.inj (bind_of_taken htaken)
    refine ⟨iff_of_true ⟨_, hresult⟩ ?_, ?_, ?_, htaken ▸ hnever⟩
    · refine not_free_iff.mp fun hfree => ?_
      rw [taken?_eq_none_iff.mpr hfree] at htaken
      cases htaken
    · intro error herror
      cases hresult.symm.trans herror
      obtain ⟨before, after, hsplit, hfirst⟩ := taken?_eq_some htaken
      exact ⟨ht, before, event, after, hsplit, rfl, hfirst⟩
    · intro count hcount
      cases hresult.symm.trans hcount
  | none =>
    have hfree := taken?_eq_none_iff.mp htaken
    obtain ⟨log, hbind⟩ := bind_of_free hfree
    obtain ⟨hresult, ht⟩ := Prod.mk.inj (show (result, t) = _ from hbind)
    refine ⟨iff_of_false ?_ (fun hclash => not_free_iff.mpr hclash hfree), ?_, ?_, htaken ▸ hnever⟩
    · rintro ⟨error, herror⟩
      cases hresult.symm.trans herror
    · intro error herror
      cases hresult.symm.trans herror
    · intro count hcount
      cases hresult.symm.trans hcount
      refine ⟨by rw [listensOf, List.length_map], stored?_of_bound hfree, log, ?_⟩
      rw [ht]
      simp [listensOf, keptOf, keptEvents, kept, live, id]

def clickOrLater : Chain Kit :=
  .ofCells [⟨"click", none, false, false⟩, ⟨"later", none, false, true⟩] []

theorem clickOrLater_bound_once :
    let first := (Stage.empty () : Stage Kit Unit).bind Document.root clickOrLater
    let second := first.2.bind Document.root clickOrLater
    first.2.stored? Document.root "later" = some ⟨0⟩ ∧
      first.2.listeners.length = 1 ∧
      second.1 = .error (.alreadyStored Document.root "later") ∧ second.2 = first.2 := by
  intro first second
  obtain ⟨-, -, hbound, -⟩ :=
    bind_all_or_nothing Document.root clickOrLater (Stage.empty () : Stage Kit Unit)
  obtain ⟨-, hstored, _, hfirst⟩ := hbound ⟨1, 1⟩ rfl
  obtain ⟨hiff, hfails, -⟩ := bind_all_or_nothing Document.root clickOrLater first.2
  have hkept : first.2.stored? Document.root "later" = some ⟨0⟩ := hstored Document.root "later"
  obtain ⟨error, herror⟩ := hiff.mpr (.inl ⟨"later", by decide, by rw [hkept]; rfl⟩)
  obtain ⟨hsame, before, event, after, hsplit, rfl, -⟩ := hfails error herror
  have hevent : event = "later" := by
    have hmem : event ∈ keptEvents clickOrLater.triggers := hsplit ▸ by simp
    exact List.mem_singleton.mp hmem
  refine ⟨hkept, ?_, hevent ▸ herror, hsame⟩
  exact congrArg (fun t => t.listeners.length) hfirst

end Stage

end AttrChain
