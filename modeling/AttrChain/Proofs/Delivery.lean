import AttrChain.Proofs.Ascent
import AttrChain.Proofs.Upkeep
import Mathlib.Data.List.Chain

/-!
Which listeners an event comes to, in which order, and what is recorded of them.
-/

namespace AttrChain

variable {ι ε : Type}

/-- The listener answers for the node `delegate` when an event of that name has come to the node
`current` by way of the nodes `inner`: it answers for its own node, or with a selector for the
innermost match. -/
structure Listener.Answers (d : Document) (event : String) (current : NodeId)
    (inner : List NodeId) (l : Listener) (delegate : NodeId) : Prop where
  node : l.node = current
  event : l.event = event
  own : l.selector = none → delegate = current
  innermost : ∀ text, l.selector = some text → ∃ selector below above,
    Selector.read text = .ok selector ∧ inner = below ++ delegate :: above ∧
    d.matchesSelector delegate selector = true ∧
    ∀ n ∈ below, d.matchesSelector n selector = false

def Listener.answer? (d : Document) (event : String) (current : NodeId) (inner : List NodeId)
    (l : Listener) : Option NodeId :=
  if l.node = current ∧ l.event = event then
    match l.delegate? d inner with
    | .ok delegate => delegate
    | .error _ => none
  else none

theorem Listener.answer?_eq_some_iff {d : Document} {event : String} {current : NodeId}
    {inner : List NodeId} {l : Listener} {delegate : NodeId} :
    l.answer? d event current inner = some delegate ↔
      l.Answers d event current inner delegate := by
  constructor
  · intro h
    unfold answer? delegate? at h
    split at h
    next hhere =>
      cases hs : l.selector with
      | none =>
        simp only [hs] at h
        cases h
        exact ⟨hhere.1, hhere.2, fun _ => hhere.1, by simp [hs]⟩
      | some text =>
        simp only [hs] at h
        cases hr : Selector.read text with
        | error fault => simp [hr, Except.map] at h
        | ok selector =>
          simp only [hr, Except.map] at h
          obtain ⟨hmatch, below, above, hinner, hbelow⟩ := List.find?_eq_some_iff_append.mp h
          refine ⟨hhere.1, hhere.2, by simp [hs], ?_⟩
          intro text' htext
          cases hs.symm.trans htext
          exact ⟨selector, below, above, hr, hinner, hmatch, by simpa using hbelow⟩
    next => cases h
  · intro h
    unfold answer? delegate?
    rw [if_pos ⟨h.node, h.event⟩]
    cases hs : l.selector with
    | none => simp only [h.own hs, h.node]
    | some text =>
      obtain ⟨selector, below, above, hr, hinner, hmatch, hbelow⟩ := h.innermost text hs
      simp only [hr, Except.map]
      apply List.find?_eq_some_iff_append.mpr
      exact ⟨hmatch, below, above, hinner, by simpa using hbelow⟩

namespace Matches

variable (d : Document) (event : String) (current : NodeId) (inner : List NodeId)

theorem of_cons (l : Listener) (rest : List Listener) :
    (of d event current inner (l :: rest)).chosen =
        (((l.answer? d event current inner).map fun n => (l.chain, n)).toList ++
          (of d event current inner rest).chosen) ∧
      (of d event current inner (l :: rest)).kept =
        if l.once && (l.answer? d event current inner).isSome then
          (of d event current inner rest).kept
        else l :: (of d event current inner rest).kept := by
  unfold Listener.answer?
  by_cases hhere : l.node = current ∧ l.event = event
  · have helse : ¬(l.node ≠ current ∨ l.event ≠ event) := by simp [hhere]
    simp only [of, if_neg helse, if_pos hhere]
    cases l.delegate? d inner with
    | error fault => simp
    | ok delegate => cases delegate <;> simp
  · have helse : l.node ≠ current ∨ l.event ≠ event :=
      Decidable.not_and_iff_not_or_not.mp hhere
    simp [of, helse, hhere]

theorem of_chosen (ls : List Listener) : (of d event current inner ls).chosen =
    ls.filterMap fun l => (l.answer? d event current inner).map fun n => (l.chain, n) := by
  induction ls with
  | nil => rfl
  | cons l rest ih =>
    rw [(of_cons d event current inner l rest).1, ih]
    cases h : l.answer? d event current inner <;> simp [h]

theorem of_kept (ls : List Listener) : (of d event current inner ls).kept =
    ls.filter fun l => !(l.once && (l.answer? d event current inner).isSome) := by
  induction ls with
  | nil => rfl
  | cons l rest ih =>
    rw [(of_cons d event current inner l rest).2, ih, List.filter_cons]
    cases l.once && (l.answer? d event current inner).isSome <;> simp

end Matches

/-- The same event at a later time: some of its flags may have been set. -/
structure Event.Follows (later earlier : Event) : Prop where
  name : later.name = earlier.name
  target : later.target = earlier.target
  detail : later.detail = earlier.detail
  prevented : earlier.prevented = true → later.prevented = true
  stopped : earlier.stopped = true → later.stopped = true

theorem Event.Follows.refl (e : Event) : e.Follows e := ⟨rfl, rfl, rfl, id, id⟩

theorem Event.Follows.trans {a b c : Event} (hab : a.Follows b) (hbc : b.Follows c) :
    a.Follows c where
  name := hab.name.trans hbc.name
  target := hab.target.trans hbc.target
  detail := hab.detail.trans hbc.detail
  prevented h := hab.prevented (hbc.prevented h)
  stopped h := hab.stopped (hbc.stopped h)

/-- What a record says of a call, whatever came of it: event, target, current node, delegate. -/
def Record.call (r : Record) : String × NodeId × NodeId × NodeId :=
  (r.event, r.target, r.current, r.delegate)

/-- Chains do not meddle with the delivery that they are called by: they do nothing to its event
but set flags, and write no records. -/
structure Host.Discreet (h : Host ι (Stage ι ε)) : Prop where
  event : ∀ e : Event, h.Keeps fun later _ => ∃ l, later = some l ∧ l.Follows e
  records : h.Leaves fun s => s.records.map Record.call

namespace Stage

theorem host_discreet (settings : Settings) :
    (host settings : Host Kit (Stage Kit ε)).Discreet where
  event e := by
    apply host_keeps
    · constructor
      · rintro _ s ⟨l, ⟨⟩, hl⟩
        exact ⟨_, rfl, hl.name, hl.target, hl.detail, fun _ => rfl, hl.stopped⟩
      · rintro _ s ⟨l, ⟨⟩, hl⟩
        exact ⟨_, rfl, hl.name, hl.target, hl.detail, hl.prevented, fun _ => rfl⟩
    · exact fun _ _ _ _ hl => hl
  records := host_leaves settings fun _ _ _ => rfl

theorem setRecord_calls (i : Nat) (status : Status) (value : Option Value) (s : Stage ι ε) :
    (s.setRecord i status value).records.map Record.call = s.records.map Record.call := by
  apply List.ext_getElem?
  intro j
  simp only [setRecord, List.getElem?_map, List.getElem?_modify]
  cases s.records[j]? with
  | none => rfl
  | some r => by_cases h : i = j <;> simp [h, Record.call]

variable {h : Host ι (Stage ι ε)}

theorem deliver_event (hh : h.Discreet) (current : NodeId) (event : Event) (s : Stage ι ε)
    (chosen : ChainId × NodeId) : (s.deliver h current event chosen).1.Follows event := by
  obtain ⟨l, hl, hfollows⟩ := fire_keeps (hh.event event) (fun _ _ _ hl => hl) chosen.1 event
    (.listener current chosen.2) (s := { s with records := s.records ++
      [⟨event.name, event.target, current, chosen.2, .pending, none⟩] }) ⟨event, rfl, .refl event⟩
  simpa only [deliver, hl, Option.getD_some] using hfollows

theorem deliver_records (hh : h.Discreet) (current : NodeId) (event : Event) (s : Stage ι ε)
    (chosen : ChainId × NodeId) :
    (s.deliver h current event chosen).2.records.map Record.call =
      s.records.map Record.call ++ [(event.name, event.target, current, chosen.2)] := by
  have hfired := fire_leaves hh.records (fun _ _ => rfl) chosen.1 event
    (.listener current chosen.2) { s with records := s.records ++
      [⟨event.name, event.target, current, chosen.2, .pending, none⟩] }
  rw [List.map_append] at hfired
  dsimp only [deliver]
  split
  · exact (setRecord_calls _ _ _ _).trans hfired
  · exact hfired
  · exact (setRecord_calls _ _ _ _).trans hfired

end Stage

/-- A call of a chain for a listener, with the event and the stage just before it. -/
structure Invocation (ι ε : Type) where
  listener : Listener
  current : NodeId
  delegate : NodeId
  event : Event
  stage : Stage ι ε

namespace Invocation

def after (h : Host ι (Stage ι ε)) (c : Invocation ι ε) : Event × Stage ι ε :=
  c.stage.deliver h c.current c.event (c.listener.chain, c.delegate)

def Stops (h : Host ι (Stage ι ε)) (c : Invocation ι ε) : Prop :=
  c.event.stopped = false ∧ (c.after h).1.stopped = true

end Invocation

namespace Stage

/-- Delivers an event on one node to listeners with the nodes they answer for. -/
def deliverAll (h : Host ι (Stage ι ε)) (current : NodeId) :
    List (Listener × NodeId) → Event → Stage ι ε → Event × Stage ι ε
  | [], event, s => (event, s)
  | (l, delegate) :: rest, event, s =>
    let left := s.deliver h current event (l.chain, delegate)
    deliverAll h current rest left.1 left.2

def callsAll (h : Host ι (Stage ι ε)) (current : NodeId) :
    List (Listener × NodeId) → Event → Stage ι ε → List (Invocation ι ε)
  | [], _, _ => []
  | (l, delegate) :: rest, event, s =>
    let left := s.deliver h current event (l.chain, delegate)
    ⟨l, current, delegate, event, s⟩ :: callsAll h current rest left.1 left.2

end Stage

section Calls

variable {h : Host ι (Stage ι ε)} {current : NodeId} {event : Event} {s : Stage ι ε}

namespace Stage

theorem deliverAll_eq (pairs : List (Listener × NodeId)) (event : Event) (s : Stage ι ε) :
    s.deliverAll h current pairs event =
      (pairs.map fun p => (p.1.chain, p.2)).foldl
        (fun (event, s) chosen => s.deliver h current event chosen) (event, s) := by
  induction pairs generalizing event s with
  | nil => rfl
  | cons p rest ih => exact ih _ _

theorem callsAll_answers (pairs : List (Listener × NodeId)) (event : Event) (s : Stage ι ε) :
    (s.callsAll h current pairs event).map (fun c => (c.listener, c.delegate)) = pairs := by
  induction pairs generalizing event s with
  | nil => rfl
  | cons p rest ih => exact congrArg (p :: ·) (ih _ _)

theorem callsAll_current (pairs : List (Listener × NodeId)) (event : Event) (s : Stage ι ε) :
    ∀ c ∈ s.callsAll h current pairs event, c.current = current := by
  induction pairs generalizing event s with
  | nil => simp [callsAll]
  | cons p rest ih =>
    rintro c (_ | ⟨_, hc⟩)
    · rfl
    · exact ih _ _ c hc

theorem callsAll_head (pairs : List (Listener × NodeId)) (event : Event) (s : Stage ι ε) :
    ∀ c ∈ (s.callsAll h current pairs event).head?, c.event = event ∧ c.stage = s := by
  cases pairs with
  | nil => simp [callsAll]
  | cons p rest => simp [callsAll]

theorem callsAll_linked (pairs : List (Listener × NodeId)) (event : Event) (s : Stage ι ε) :
    (s.callsAll h current pairs event).IsChain fun c d => c.after h = (d.event, d.stage) := by
  induction pairs generalizing event s with
  | nil => exact .nil
  | cons p rest ih =>
    refine List.isChain_cons.mpr ⟨?_, ih _ _⟩
    intro c hc
    obtain ⟨hevent, hstage⟩ := callsAll_head rest _ _ c hc
    exact Prod.ext hevent.symm hstage.symm

theorem callsAll_last (pairs : List (Listener × NodeId)) (event : Event) (s : Stage ι ε) :
    ∀ c ∈ (s.callsAll h current pairs event).getLast?,
      c.after h = s.deliverAll h current pairs event := by
  induction pairs generalizing event s with
  | nil => simp [callsAll]
  | cons p rest ih =>
    cases rest with
    | nil =>
      rintro c ⟨⟩
      rfl
    | cons q rest => exact ih _ _

theorem deliverAll_event (hh : h.Discreet) (pairs : List (Listener × NodeId)) (event : Event)
    (s : Stage ι ε) : (s.deliverAll h current pairs event).1.Follows event := by
  induction pairs generalizing event s with
  | nil => exact .refl event
  | cons p rest ih => exact (ih _ _).trans (deliver_event hh current event s _)

theorem deliverAll_records (hh : h.Discreet) (pairs : List (Listener × NodeId)) (event : Event)
    (s : Stage ι ε) :
    (s.deliverAll h current pairs event).2.records.map Record.call =
      s.records.map Record.call ++
        pairs.map fun p => (event.name, event.target, current, p.2) := by
  induction pairs generalizing event s with
  | nil => simp [deliverAll]
  | cons p rest ih =>
    have hleft := deliver_event hh current event s (p.1.chain, p.2)
    rw [deliverAll, ih, deliver_records hh, hleft.name, hleft.target]
    simp

theorem deliverAll_stopped (hh : h.Discreet) (pairs : List (Listener × NodeId)) (event : Event)
    (s : Stage ι ε) (hgoes : event.stopped = false) :
    (s.deliverAll h current pairs event).1.stopped = true ↔
      ∃ c ∈ s.callsAll h current pairs event, c.Stops h := by
  induction pairs generalizing event s with
  | nil => simp [deliverAll, callsAll, hgoes]
  | cons p rest ih =>
    obtain ⟨l, delegate⟩ := p
    have hstops : Invocation.Stops h ⟨l, current, delegate, event, s⟩ ↔
        (s.deliver h current event (l.chain, delegate)).1.stopped = true := by
      simp only [Invocation.Stops, Invocation.after, hgoes, true_and]
    simp only [callsAll, deliverAll, List.mem_cons, exists_eq_or_imp, hstops]
    generalize s.deliver h current event (l.chain, delegate) = left
    cases hfirst : left.1.stopped with
    | false => simpa using ih left.1 left.2 hfirst
    | true => simpa using (deliverAll_event hh rest left.1 left.2).stopped hfirst

end Stage

end Calls

/-- A node that an event has come to, with the event and the stage as they are then. -/
structure Arrival (ι ε : Type) where
  node : NodeId
  event : Event
  stage : Stage ι ε

namespace Arrival

def answering (inner : List NodeId) (a : Arrival ι ε) : List (Listener × NodeId) :=
  a.stage.listeners.filterMap fun l =>
    (l.answer? a.stage.document a.event.name a.node inner).map fun n => (l, n)

/-- The stage once they are chosen: those for once are dropped. -/
def opened (inner : List NodeId) (a : Arrival ι ε) : Stage ι ε :=
  let found := Matches.of a.stage.document a.event.name a.node inner a.stage.listeners
  found.warnings.foldl (fun s w => s.note .warn .dispatcher w)
    { a.stage with listeners := found.kept }

def calls (h : Host ι (Stage ι ε)) (inner : List NodeId) (a : Arrival ι ε) :
    List (Invocation ι ε) :=
  (a.opened inner).callsAll h a.node (a.answering inner) a.event

def after (h : Host ι (Stage ι ε)) (path : List NodeId) (a : Arrival ι ε) : Event × Stage ι ε :=
  a.stage.deliverAt h path a.event a.node

/-- Those listeners are called that answer, one after the other, the first one on what the event
has come to and each other one on what the one before it has left. -/
structure Served (h : Host ι (Stage ι ε)) (path inner : List NodeId) (a : Arrival ι ε) : Prop where
  answering : (a.calls h inner).map (fun c => (c.listener, c.delegate)) = a.answering inner
  current : ∀ c ∈ a.calls h inner, c.current = a.node
  first : ∀ c ∈ (a.calls h inner).head?, c.event = a.event ∧ ∃ log, c.stage = { a.stage with
    listeners := a.stage.listeners.filter fun l =>
      !(l.once && (l.answer? a.stage.document a.event.name a.node inner).isSome)
    log }
  next : (a.calls h inner).IsChain fun c d => c.after h = (d.event, d.stage)
  last : ∀ c ∈ (a.calls h inner).getLast?, c.after h = a.after h path
  stopped : (a.after h path).1.stopped = true ↔ ∃ c ∈ a.calls h inner, c.Stops h

theorem warn_eq (warnings : List String) (s : Stage ι ε) :
    ∃ log, warnings.foldl (fun s w => s.note .warn .dispatcher w) s = { s with log } := by
  induction warnings generalizing s with
  | nil => exact ⟨s.log, rfl⟩
  | cons w rest ih => exact ih (s.note .warn .dispatcher w)

theorem opened_eq (inner : List NodeId) (a : Arrival ι ε) :
    ∃ log, a.opened inner = { a.stage with
      listeners := a.stage.listeners.filter fun l =>
        !(l.once && (l.answer? a.stage.document a.event.name a.node inner).isSome)
      log } := by
  rw [← Matches.of_kept]
  exact warn_eq _ _

theorem after_eq (h : Host ι (Stage ι ε)) (path : List NodeId) (a : Arrival ι ε) :
    a.after h path =
      (a.opened (path.takeWhile (· ≠ a.node))).deliverAll h a.node
        (a.answering (path.takeWhile (· ≠ a.node))) a.event := by
  rw [Stage.deliverAll_eq, answering, List.map_filterMap]
  simp only [Option.map_map, Function.comp_def, ← Matches.of_chosen]
  rfl

variable {h : Host ι (Stage ι ε)}

theorem served (hh : h.Discreet) (path : List NodeId) (a : Arrival ι ε)
    (hgoes : a.event.stopped = false) : a.Served h path (path.takeWhile (· ≠ a.node)) where
  answering := Stage.callsAll_answers _ _ _
  current := Stage.callsAll_current _ _ _
  first c hc := by
    obtain ⟨hevent, hstage⟩ := Stage.callsAll_head _ _ _ c hc
    obtain ⟨log, hopened⟩ := a.opened_eq (path.takeWhile (· ≠ a.node))
    exact ⟨hevent, log, hstage.trans hopened⟩
  next := Stage.callsAll_linked _ _ _
  last c hc := by
    rw [after_eq]
    exact Stage.callsAll_last _ _ _ c hc
  stopped := by
    rw [after_eq]
    exact Stage.deliverAll_stopped hh _ _ _ hgoes

theorem after_event (hh : h.Discreet) (path : List NodeId) (a : Arrival ι ε) :
    (a.after h path).1.Follows a.event := by
  rw [after_eq]
  exact Stage.deliverAll_event hh _ _ _

theorem after_records (hh : h.Discreet) (path : List NodeId) (a : Arrival ι ε) :
    (a.after h path).2.records.map Record.call =
      a.stage.records.map Record.call ++ (a.answering (path.takeWhile (· ≠ a.node))).map
        fun p => (a.event.name, a.event.target, a.node, p.2) := by
  obtain ⟨log, hopened⟩ := a.opened_eq (path.takeWhile (· ≠ a.node))
  rw [after_eq, Stage.deliverAll_records hh, hopened]

end Arrival

namespace Stage

/-- The nodes that an event comes to, out of those that it may come to. -/
def arrivals (h : Host ι (Stage ι ε)) (path : List NodeId) :
    List NodeId → Event → Stage ι ε → List (Arrival ι ε)
  | [], _, _ => []
  | current :: rest, event, s =>
    let left := s.deliverAt h path event current
    ⟨current, event, s⟩ ::
      if left.1.stopped then [] else arrivals h path rest left.1 left.2

section Arrivals

variable {h : Host ι (Stage ι ε)} {path : List NodeId}

theorem arrivals_nodes (nodes : List NodeId) (event : Event) (s : Stage ι ε) :
    (s.arrivals h path nodes event).map Arrival.node <+: nodes := by
  induction nodes generalizing event s with
  | nil => exact List.nil_prefix
  | cons current rest ih =>
    simp only [arrivals, List.map_cons]
    apply (List.prefix_cons_inj current).mpr
    split
    · exact List.nil_prefix
    · exact ih _ _

theorem arrivals_head (nodes : List NodeId) (event : Event) (s : Stage ι ε) :
    ∀ a ∈ (s.arrivals h path nodes event).head?, a.event = event ∧ a.stage = s := by
  cases nodes with
  | nil => simp [arrivals]
  | cons current rest => simp [arrivals]

theorem arrivals_next (nodes : List NodeId) (event : Event) (s : Stage ι ε) :
    (s.arrivals h path nodes event).IsChain fun a b => a.after h path = (b.event, b.stage) := by
  induction nodes generalizing event s with
  | nil => exact .nil
  | cons current rest ih =>
    simp only [arrivals]
    split
    · exact .singleton _
    · refine List.isChain_cons.mpr ⟨?_, ih _ _⟩
      intro b hb
      obtain ⟨hevent, hstage⟩ := arrivals_head rest _ _ b hb
      exact Prod.ext hevent.symm hstage.symm

theorem arrivals_going (nodes : List NodeId) {event : Event} (hgoes : event.stopped = false)
    (s : Stage ι ε) : ∀ a ∈ s.arrivals h path nodes event, a.event.stopped = false := by
  induction nodes generalizing event s with
  | nil => simp [arrivals]
  | cons current rest ih =>
    simp only [arrivals]
    rintro a (_ | ⟨_, ha⟩)
    · exact hgoes
    · split at ha
      · cases ha
      next hleft => exact ih (Bool.eq_false_iff.mpr hleft) _ a ha

theorem arrivals_stopped (nodes : List NodeId) (event : Event) (s : Stage ι ε)
    (hless : (s.arrivals h path nodes event).length < nodes.length) :
    ∃ a ∈ (s.arrivals h path nodes event).getLast?, (a.after h path).1.stopped = true := by
  induction nodes generalizing event s with
  | nil => simp [arrivals] at hless
  | cons current rest ih =>
    simp only [arrivals] at hless ⊢
    split
    next hstopped => exact ⟨_, rfl, hstopped⟩
    next hgoes =>
      rw [if_neg hgoes] at hless
      obtain ⟨a, ha, hstopped⟩ := ih _ _ (Nat.lt_of_succ_lt_succ hless)
      refine ⟨a, ?_, hstopped⟩
      rw [Option.mem_def] at ha ⊢
      rw [List.getLast?_cons, ha, Option.getD_some]

theorem arrivals_last (nodes : List NodeId) (event : Event) (s : Stage ι ε) :
    ∀ a ∈ (s.arrivals h path nodes event).getLast?, ∃ log,
      s.deliverAlong h path nodes event = ((a.after h path).1, { (a.after h path).2 with log }) := by
  induction nodes generalizing event s with
  | nil => simp [arrivals]
  | cons current rest ih =>
    simp only [arrivals, deliverAlong]
    split
    next hstopped =>
      rintro a ⟨⟩
      exact ⟨_, rfl⟩
    next hgoes =>
      cases rest with
      | nil =>
        rintro a ⟨⟩
        exact ⟨_, rfl⟩
      | cons following rest => exact ih _ _

theorem arrivals_event (hh : h.Discreet) (nodes : List NodeId) (event : Event) (s : Stage ι ε) :
    ∀ a ∈ s.arrivals h path nodes event, a.event.Follows event := by
  induction nodes generalizing event s with
  | nil => simp [arrivals]
  | cons current rest ih =>
    simp only [arrivals]
    rintro a (_ | ⟨_, ha⟩)
    · exact .refl event
    · split at ha
      · cases ha
      · exact (ih _ _ a ha).trans (Arrival.after_event hh path ⟨current, event, s⟩)

theorem arrivals_records (hh : h.Discreet) (nodes : List NodeId) (event : Event)
    (s : Stage ι ε) :
    (s.deliverAlong h path nodes event).2.records.map Record.call =
      s.records.map Record.call ++ (s.arrivals h path nodes event).flatMap fun a =>
        (a.answering (path.takeWhile (· ≠ a.node))).map
          fun p => (event.name, event.target, a.node, p.2) := by
  induction nodes generalizing event s with
  | nil => simp [deliverAlong, arrivals]
  | cons current rest ih =>
    have hrecords : (s.deliverAt h path event current).2.records.map Record.call =
        s.records.map Record.call ++
          (Arrival.answering (path.takeWhile (· ≠ current)) ⟨current, event, s⟩).map
            fun p => (event.name, event.target, current, p.2) :=
      Arrival.after_records hh path ⟨current, event, s⟩
    have hevent : (s.deliverAt h path event current).1.Follows event :=
      Arrival.after_event hh path ⟨current, event, s⟩
    simp only [deliverAlong, arrivals, List.flatMap_cons]
    split
    · rw [List.flatMap_nil, List.append_nil]
      exact hrecords
    · rw [ih, hrecords, hevent.name, hevent.target, List.append_assoc]

end Arrivals

/-- The nodes that an event comes to, out of the node where it arises and its ancestors. -/
def route (h : Host ι (Stage ι ε)) (event : Event) (bubbles : Bool) (s : Stage ι ε) :
    List (Arrival ι ε) :=
  let path := s.document.path event.target
  let hops := if bubbles then path.length else 1
  arrivals h path (path.take hops) event (s.note .debug .dispatcher
    ("Dispatch `" ++ event.name ++ "` at " ++ event.target.text ++ " (" ++ hops.repr ++ " hops)"))

theorem split_at_mem {path : List NodeId} {current : NodeId} (hc : current ∈ path) :
    ∃ above, path = path.takeWhile (· ≠ current) ++ current :: above := by
  induction path with
  | nil => cases hc
  | cons n rest ih =>
    by_cases hn : n = current
    · exact ⟨rest, by simp [hn]⟩
    · have hrest : current ∈ rest := by simpa [Ne.symm hn] using hc
      obtain ⟨above, habove⟩ := ih hrest
      refine ⟨above, ?_⟩
      rw [List.takeWhile_cons_of_pos (by simpa using hn), List.cons_append, ← habove]

/-- An event comes to the right listeners in the right order: from its target up to the root, or to
the node where its propagation is stopped, to those that answer, which are recorded in the order of
their calls. -/
theorem dispatch_delivers {h : Host ι (Stage ι ε)} (hh : h.Discreet) {s : Stage ι ε}
    (hd : s.document.Made) (name : String) (target : NodeId) (detail : Option Value)
    (bubbles : Bool) :
    let event := Event.fresh name target detail
    let path := s.document.path target
    let nodes := if bubbles then path else path.take 1
    let left := s.dispatch h event bubbles
    let arrivals := s.route h event bubbles
    -- the way from the target to the root
    (if (s.document.node? target).isSome then s.document.Ascends target path ∧ path.Nodup
      else path = []) ∧
    -- how far the event comes, and what it finds at each node
    arrivals.map Arrival.node <+: nodes ∧
    (∀ a ∈ arrivals, a.event.Follows event ∧ a.event.stopped = false) ∧
    (arrivals.length < nodes.length →
      ∃ a ∈ arrivals.getLast?, (a.after h path).1.stopped = true) ∧
    (∀ a ∈ arrivals.head?, a.event = event ∧ ∃ log, a.stage = { s with log }) ∧
    (arrivals.IsChain fun a b => a.after h path = (b.event, b.stage)) ∧
    (∀ a ∈ arrivals.getLast?, ∃ log,
      left = ((a.after h path).1, { (a.after h path).2 with log })) ∧
    -- who is called there
    (∀ a ∈ arrivals, ∃ inner above, path = inner ++ a.node :: above ∧ a.Served h path inner ∧
      ∀ (l : Listener) (n : NodeId),
        l.answer? a.stage.document a.event.name a.node inner = some n ↔
          l.Answers a.stage.document name a.node inner n) ∧
    -- what is recorded
    left.2.records.map Record.call = s.records.map Record.call ++
      arrivals.flatMap fun a => (a.calls h (path.takeWhile (· ≠ a.node))).map
        fun c => (name, target, a.node, c.delegate) := by
  intro event path nodes left arrivals
  have hnodes : path.take (if bubbles then path.length else 1) = nodes := by
    cases bubbles <;> simp [nodes]
  have hin : arrivals.map Arrival.node <+: nodes := by
    rw [← hnodes]
    exact arrivals_nodes _ _ _
  have hgoes : ∀ a ∈ arrivals, a.event.stopped = false := arrivals_going _ rfl _
  have hevent : ∀ a ∈ arrivals, a.event.Follows event := arrivals_event hh _ _ _
  refine ⟨?_, hin, fun a ha => ⟨hevent a ha, hgoes a ha⟩, ?_, ?_, arrivals_next _ _ _,
    arrivals_last _ _ _, ?_, ?_⟩
  · split
    next hsome =>
      have hascends := Document.path_ascends hd hsome
      exact ⟨hascends, hascends.nodup hd.rooted⟩
    next hnone => exact Document.path_of_none (by simpa using hnone)
  · rw [← hnodes]
    exact arrivals_stopped _ _ _
  · intro a ha
    obtain ⟨hevent, hstage⟩ := arrivals_head _ _ _ a ha
    exact ⟨hevent, _, hstage⟩
  · intro a ha
    have hmem : a.node ∈ path := by
      have hnode : a.node ∈ nodes := hin.subset (List.mem_map_of_mem ha)
      rw [← hnodes] at hnode
      exact List.mem_of_mem_take hnode
    obtain ⟨above, habove⟩ := split_at_mem hmem
    refine ⟨_, above, habove, a.served hh path (hgoes a ha), fun l n => ?_⟩
    rw [(hevent a ha).name]
    exact Listener.answer?_eq_some_iff
  · have hcalls : ∀ a ∈ arrivals, (a.calls h (path.takeWhile (· ≠ a.node))).map
        (fun c => (name, target, a.node, c.delegate)) =
          (a.answering (path.takeWhile (· ≠ a.node))).map
            fun p => (name, target, a.node, p.2) := by
      intro a ha
      rw [← (a.served hh path (hgoes a ha)).answering, List.map_map]
      rfl
    rw [List.flatMap_congr hcalls]
    exact arrivals_records hh _ _ _

def itemized : Stage Kit Unit :=
  { (Stage.empty () : Stage Kit Unit) with
    document := ((Document.empty.create "ul" none).2.create "li" (some ⟨1⟩)).2
    slots := [⟨.ofCells [] [], false⟩]
    listeners := [⟨⟨1⟩, "click", some "p", false, ⟨0⟩⟩, ⟨⟨1⟩, "click", some "li", false, ⟨0⟩⟩,
      ⟨⟨2⟩, "click", none, true, ⟨0⟩⟩] }

theorem itemized_click :
    ((itemized.route (host .standard) (.fresh "click" ⟨2⟩ none) true).flatMap fun a =>
      (a.calls (host .standard) ((itemized.document.path ⟨2⟩).takeWhile (· ≠ a.node))).map
        fun c => ("click", (⟨2⟩ : NodeId), a.node, c.delegate)) =
      [("click", ⟨2⟩, ⟨2⟩, ⟨2⟩), ("click", ⟨2⟩, ⟨1⟩, ⟨2⟩)] := by
  have hmade : itemized.document.Made := by
    refine .create "li" (some ⟨1⟩) (.create "ul" none .empty (by simp)) ?_
    rintro _ ⟨⟩
    rfl
  obtain ⟨-, -, -, -, -, -, -, -, hrecords⟩ :=
    dispatch_delivers (host_discreet .standard) hmade "click" ⟨2⟩ none true
  rw [← List.nil_append (List.flatMap _ _)]
  refine hrecords.symm.trans ?_
  decide +kernel

end Stage

end AttrChain
