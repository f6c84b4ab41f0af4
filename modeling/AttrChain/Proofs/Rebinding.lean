import AttrChain.Proofs.Binding
import AttrChain.Proofs.Stored

/-!
Binding again what is kept: copies listen in the order of the events, up to the first event for
which nothing is kept. An error takes none of them back.
-/

namespace AttrChain

variable {ι ε : Type}

namespace Stage

/-- What is kept are chains of the stage, and for an event on a node there is one at most. -/
structure Shelved (s : Stage ι ε) : Prop where
  sound : s.Sound
  unique : s.stored.Pairwise fun a b => ¬(a.node = b.node ∧ a.event = b.event)

section Shelves

variable {s t : Stage ι ε} {node : NodeId}

theorem shelved_empty (extra : ε) : (Stage.empty extra : Stage ι ε).Shelved :=
  ⟨by simp [Sound, Stage.empty], .nil⟩

theorem stored?_eq_none {event : String} :
    s.stored? node event = none ↔ ∀ kept ∈ s.stored, ¬(kept.node = node ∧ kept.event = event) := by
  simp [stored?]

theorem Shelved.bind (hs : s.Shelved) (node : NodeId) (c : Chain ι) :
    (s.bind node c).2.Shelved := by
  cases htaken : s.taken? node [] c.triggers with
  | some event => rwa [bind_of_taken htaken]
  | none =>
    have hfree := taken?_eq_none_iff.mp htaken
    obtain ⟨log, hbind⟩ := bind_of_free hfree
    rw [hbind]
    constructor
    · refine List.forall_mem_append.mpr ⟨fun e he => ?_, ?_⟩
      · exact Nat.lt_of_lt_of_le (hs.sound e he) (by simp)
      · intro e he
        obtain ⟨trigger, -, rfl⟩ := List.mem_map.mp he
        simp
    · refine List.pairwise_append.mpr ⟨hs.unique, ?_, ?_⟩
      · have hapart := hfree.2
        simp only [keptEvents, List.Nodup, List.pairwise_map] at hapart
        exact List.pairwise_map.mpr (hapart.imp fun hne heq => hne heq.2)
      · intro old hold new hnew hsame
        obtain ⟨trigger, htrigger, rfl⟩ := List.mem_map.mp hnew
        have hnone := (hfree.1 trigger.event (List.mem_map_of_mem htrigger)).1
        exact stored?_eq_none.mp hnone old hold hsame

theorem Shelved.unstore (hs : s.Shelved) (node : NodeId) (event : String) :
    (s.unstore node event).2.Shelved :=
  ⟨fun e he => hs.sound e (List.mem_filter.mp he |>.1), hs.unique.filter _⟩

theorem Shelved.storedEvents_ascending (hs : s.Shelved) (node : NodeId) :
    (s.storedEvents node).Pairwise (· < ·) := by
  have hsorted : (s.storedEvents node).Pairwise fun a b => decide (a ≤ b) = true := by
    apply List.pairwise_mergeSort
    · simpa using fun a b c => String.le_trans
    · simpa using String.le_total
  have hdistinct : (s.storedEvents node).Nodup := by
    rw [storedEvents, (List.mergeSort_perm _ _).nodup_iff, List.Nodup, List.pairwise_map]
    refine (hs.unique.filter _).imp_of_mem fun {a b} ha hb hne heq => hne ⟨?_, heq⟩
    have ha := of_decide_eq_true (List.mem_filter.mp ha).2
    have hb := of_decide_eq_true (List.mem_filter.mp hb).2
    exact ha.trans hb.symm
  exact (hsorted.and hdistinct).imp fun h => Std.lt_of_le_of_ne (of_decide_eq_true h.1) h.2

theorem mem_storedEvents_iff {event : String} :
    event ∈ s.storedEvents node ↔ (s.stored? node event).isSome := by
  rw [mem_storedEvents, isSome_stored?]
  simp

end Shelves

section Copies

variable {s t : Stage ι ε} {source target : NodeId} {r : Rebinding}

def copy? (source : NodeId) (r : Rebinding) (s : Stage ι ε) (event : String) : Option (Chain ι) :=
  ((s.stored? source event).bind s.chain?).map (·.rebind r.initial)

def keptFront (source : NodeId) (events : List String) (s : Stage ι ε) : List String :=
  events.takeWhile fun event => (s.stored? source event).isSome

/-- The listeners for the events, whose chains have the places from the given one on. -/
def listensAgain (target : NodeId) (r : Rebinding) (place : Nat) (events : List String) :
    List Listener :=
  events.mapIdx fun k event => ⟨target, event, r.selector, r.once, ⟨place + k⟩⟩

theorem listensAgain_cons (target : NodeId) (r : Rebinding) (place : Nat) (event : String)
    (rest : List String) :
    listensAgain target r place (event :: rest) =
      ⟨target, event, r.selector, r.once, ⟨place⟩⟩ :: listensAgain target r (place + 1) rest := by
  simp [listensAgain, List.mapIdx_cons, Nat.add_assoc, Nat.add_comm 1]

theorem Sound.lt_of_stored? (hs : s.Sound) {node : NodeId} {event : String} {id : ChainId}
    (hid : s.stored? node event = some id) : id.index < s.slots.length := by
  obtain ⟨kept, hkept, rfl⟩ := Option.map_eq_some_iff.mp hid
  exact hs kept (List.mem_of_find?_eq_some hkept)

theorem copy?_append (hs : s.Sound) (hstored : t.stored = s.stored) {more : List (Slot ι)}
    (hslots : t.slots = s.slots ++ more) (source : NodeId) (r : Rebinding) :
    t.copy? source r = s.copy? source r := by
  funext event
  have hsame : t.stored? source event = s.stored? source event := by rw [stored?, hstored, stored?]
  rw [copy?, copy?, hsame]
  cases hid : s.stored? source event with
  | none => rfl
  | some id =>
    simp only [Option.bind_some, chain?, hslots]
    rw [List.getElem?_append_left (hs.lt_of_stored? hid)]

theorem rebindEach_spec (source target : NodeId) (r : Rebinding) (events : List String)
    (hs : s.Sound) :
    ∃ (copies : List (Chain ι)) (log : List Log.Entry),
      (s.keptFront source events).map (s.copy? source r) = copies.map some ∧
      s.rebindEach source target r events =
        (if s.keptFront source events = events then .ok () else .error (.nothingStored source),
          { s with
            slots := s.slots ++ copies.map fun c => ⟨c, false⟩
            listeners := s.listeners ++
              listensAgain target r s.slots.length (s.keptFront source events)
            notices := s.notices ++
              (listensAgain target r s.slots.length (s.keptFront source events)).map .listen
            log }) := by
  induction events generalizing s with
  | nil => exact ⟨[], s.log, rfl, by simp [rebindEach, keptFront, listensAgain]⟩
  | cons event rest ih =>
    cases hid : s.stored? source event with
    | none =>
      have hfront : s.keptFront source (event :: rest) = [] := by simp [keptFront, hid]
      refine ⟨[], s.log, by simp [hfront], ?_⟩
      simp [rebindEach, hid, hfront, listensAgain]
    | some id =>
      have hfront : s.keptFront source (event :: rest) = event :: s.keptFront source rest := by
        simp [keptFront, hid]
      obtain ⟨c, hc⟩ : ∃ c, s.chain? id = some c := by
        simp [chain?, hs.lt_of_stored? hid]
      -- the stage on which the copy listens
      obtain ⟨u, hu⟩ : ∃ u, u = ((s.addChain (c.rebind r.initial)).2.listen
        ⟨target, event, r.selector, r.once, ⟨s.slots.length⟩⟩).note .debug .binder
          ("Re-bound stored `" ++ event ++ "` from " ++ source.text ++ " to " ++ target.text) :=
        ⟨_, rfl⟩
      have hstored : u.stored = s.stored := hu ▸ rfl
      have hslots : u.slots = s.slots ++ [⟨c.rebind r.initial, false⟩] := hu ▸ rfl
      have hrest : u.keptFront source rest = s.keptFront source rest := by
        simp only [keptFront, stored?, hstored]
      obtain ⟨copies, log, hcopies, hrun⟩ := ih (hs.mono hstored (by simp [hslots]))
      rw [copy?_append hs hstored hslots] at hcopies
      refine ⟨c.rebind r.initial :: copies, log, ?_, ?_⟩
      · rw [hfront, List.map_cons, List.map_cons, ← hrest, hcopies]
        simp [copy?, hid, hc]
      · have hstep : s.rebindEach source target r (event :: rest) =
            u.rebindEach source target r rest := by
          rw [rebindEach, hid, Option.bind_some, hc, hu]
          rfl
        have hlength : u.slots.length = s.slots.length + 1 := by simp [hslots]
        rw [hstep, hrun, hrest, hfront, hlength, listensAgain_cons, hslots, hu]
        simp [listen, note, addChain]

def askedFor (source : NodeId) (r : Rebinding) (s : Stage ι ε) : List String :=
  if r.events = [] then s.storedEvents source else r.events

theorem rebind_spec (source target : NodeId) (r : Rebinding) (hs : s.Sound) :
    let events := s.askedFor source r
    let found := s.keptFront source events
    let listeners := listensAgain target r s.slots.length found
    ∃ (copies : List (Chain ι)) (log : List Log.Entry),
      found.map (s.copy? source r) = copies.map some ∧
      s.rebind source target r =
        (if events ≠ [] ∧ found = events then .ok events.length
          else .error (.nothingStored source),
          { s with
            slots := s.slots ++ copies.map fun c => ⟨c, false⟩
            listeners := s.listeners ++ listeners
            notices := s.notices ++ listeners.map .listen
            log }) := by
  intro events found listeners
  have hevents : (if r.events.isEmpty then s.storedEvents source else r.events) = events := by
    simp [events, askedFor]
  unfold rebind
  rw [hevents]
  by_cases hempty : events = []
  · have hfound : found = [] := by simp [found, keptFront, hempty]
    have hlisteners : listeners = [] := by simp [listeners, hfound, listensAgain]
    refine ⟨[], s.log, by simp [hfound], ?_⟩
    simp [hempty, hlisteners]
  · obtain ⟨copies, log, hcopies, hrun⟩ := rebindEach_spec source target r events hs
    refine ⟨copies, log, hcopies, ?_⟩
    simp only [List.isEmpty_iff, hempty, ↓reduceIte, hrun, ne_eq, not_false_eq_true, true_and,
      found, listeners]
    split <;> rfl

theorem Shelved.rebind (hs : s.Shelved) (source target : NodeId) (r : Rebinding) :
    (s.rebind source target r).2.Shelved := by
  obtain ⟨copies, log, -, hrun⟩ := rebind_spec source target r hs.sound
  rw [hrun]
  exact ⟨hs.sound.mono rfl (by simp), hs.unique⟩

end Copies

/-- Chains are bound again up to the first event for which none is kept. If no events are named,
they are all those of the node in ascending order. Each event in front of the missing one gets a
listener, in its place in the order, with a copy of its own of the chain that is kept, and nothing
else happens. The call succeeds exactly if there are events and none is missing, and tells how many
listeners there are. If it fails, listeners were added nevertheless, unless the first event is the
missing one. -/
theorem rebind_up_to_first_missing (source target : NodeId) (r : Rebinding) {s : Stage ι ε}
    (hs : s.Shelved) :
    let events := if r.events = [] then s.storedEvents source else r.events
    let found := events.takeWhile fun event => (s.stored? source event).isSome
    let listeners : List Listener := found.mapIdx fun k event =>
      ⟨target, event, r.selector, r.once, ⟨s.slots.length + k⟩⟩
    let result := (s.rebind source target r).1
    let t := (s.rebind source target r).2
    (s.storedEvents source).Pairwise (· < ·) ∧
    (∀ event, event ∈ s.storedEvents source ↔ (s.stored? source event).isSome) ∧
    (∀ n, result = .ok n ↔ events ≠ [] ∧ found = events ∧ n = listeners.length) ∧
    (∀ e, result = .error e ↔ (events = [] ∨ found ≠ events) ∧ e = .nothingStored source) ∧
    (∃ (copies : List (Chain ι)) (log : List Log.Entry),
      found.map (fun event => ((s.stored? source event).bind s.chain?).map (·.rebind r.initial)) =
        copies.map some ∧
      t = { s with
        slots := s.slots ++ copies.map fun c => ⟨c, false⟩
        listeners := s.listeners ++ listeners
        notices := s.notices ++ listeners.map .listen
        log }) ∧
    (t.notices = s.notices ↔ found = []) := by
  intro events found listeners result t
  obtain ⟨copies, log, hcopies, hrun⟩ := rebind_spec source target r hs.sound
  obtain ⟨hresult, ht⟩ := Prod.mk.inj (show (result, t) = _ from hrun)
  have hlength : listeners.length = found.length := List.length_mapIdx
  have hsame : t.notices = s.notices ↔ found = [] := by
    have hnotices : t.notices = s.notices ++ listeners.map .listen := congrArg Stage.notices ht
    rw [hnotices, List.append_right_eq_self, List.map_eq_nil_iff, ← List.length_eq_zero_iff,
      hlength, List.length_eq_zero_iff]
  have hfails : events = [] ∨ found ≠ events ↔ ¬(events ≠ [] ∧ found = events) := by
    rw [Classical.not_and_iff_not_or_not, Classical.not_not]
  refine ⟨hs.storedEvents_ascending source, fun _ => mem_storedEvents_iff, ?_, ?_,
    ⟨copies, log, hcopies, ht⟩, hsame⟩ <;>
    by_cases hall : events ≠ [] ∧ found = events
  · have hok : result = .ok events.length := hresult.trans (if_pos hall)
    intro n
    rw [hok, hlength, hall.2]
    simp [hall.1, eq_comm]
  · have herror : result = .error (.nothingStored source) := hresult.trans (if_neg hall)
    intro n
    rw [herror, ← and_assoc]
    simp [hall]
  · have hok : result = .ok events.length := hresult.trans (if_pos hall)
    intro e
    rw [hok, hfails]
    simp [hall]
  · have herror : result = .error (.nothingStored source) := hresult.trans (if_neg hall)
    intro e
    rw [herror, hfails, iff_true_intro hall, true_and, Except.error.injEq]
    exact eq_comm

def laterKept : Stage Kit Unit :=
  ((Stage.empty ()).bind Document.root clickOrLater).2

theorem laterKept_shelved : laterKept.Shelved :=
  (shelved_empty ()).bind Document.root clickOrLater

theorem laterKept_rebound :
    laterKept.Shelved ∧
      (laterKept.rebind Document.root Document.root ⟨[], none, true, none⟩).1 = .ok 1 := by
  refine ⟨laterKept_shelved, ?_⟩
  obtain ⟨-, -, hok, -⟩ :=
    rebind_up_to_first_missing Document.root Document.root ⟨[], none, true, none⟩
      laterKept_shelved
  exact (hok 1).mpr (by decide +kernel)

/-- A call that fails leaves a listener behind. -/
theorem laterKept_rebound_in_part :
    let run := laterKept.rebind Document.root Document.root ⟨["later", "never"], none, false, none⟩
    run.1 = .error (.nothingStored Document.root) ∧
      run.2.notices = laterKept.notices ++ [.listen ⟨Document.root, "later", none, false, ⟨1⟩⟩] :=
  ⟨rfl, rfl⟩

end Stage

end AttrChain
