import AttrChain.Proofs.Building
import AttrChain.Proofs.Skeleton

/-!
What it takes for a build or a rebinding to fail: a build that is strict and a group that fails, or
an event for which no chain is kept.
-/

namespace AttrChain

variable {ι ε : Type}

namespace Stage

/-- What is kept for later are chains of the stage. -/
def Sound (s : Stage ι ε) : Prop := ∀ e ∈ s.stored, e.chain.index < s.slots.length

section Soundness

variable {s t : Stage ι ε}

theorem Sound.mono (hs : s.Sound) (hstored : t.stored = s.stored)
    (hslots : s.slots.length ≤ t.slots.length) : t.Sound := by
  intro e he
  rw [hstored] at he
  exact Nat.lt_of_lt_of_le (hs e he) hslots

theorem bindEach_sound {node : NodeId} {id : ChainId} (triggers : List Trigger)
    (count : BindCount) (hs : s.Sound) (hid : id.index < s.slots.length) :
    (s.bindEach node id triggers count).2.Sound := by
  induction triggers generalizing count s with
  | nil => exact hs
  | cons trigger rest ih =>
    unfold bindEach
    split
    · split
      · exact hs
      next t ht =>
        unfold store at ht
        split at ht
        · cases ht
        · cases ht
          apply ih
          · exact List.forall_mem_append.mpr ⟨hs, List.forall_mem_singleton.mpr hid⟩
          · exact hid
    · exact ih _ hs hid

theorem buildGroup_sound (b : Builder ι) (node : NodeId) (g : Group) (hs : s.Sound) :
    (s.buildGroup b node g).2.Sound := by
  unfold buildGroup
  cases b.compile g with
  | error e => exact hs
  | ok c =>
    dsimp only [bind]
    split
    · exact hs
    · apply bindEach_sound
      · exact hs.mono rfl (by simp [addChain, note])
      · simp [addChain]

theorem buildGroups_sound (b : Builder ι) (node : NodeId) (groups : List Group) (i : Nat)
    (summary : Summary) (hs : s.Sound) : (s.buildGroups b node i groups summary).2.Sound := by
  induction groups generalizing i summary s with
  | nil => exact hs
  | cons g rest ih =>
    have hone := buildGroup_sound b node g hs
    unfold buildGroups
    generalize s.buildGroup b node g = r at hone
    obtain ⟨e | count, t⟩ := r
    · dsimp only
      split
      · exact hone
      · exact ih _ _ hone
    · exact ih _ _ hone

theorem rebindEach_sound (source target : NodeId) (r : Rebinding) (events : List String)
    (hs : s.Sound) : (s.rebindEach source target r events).2.Sound := by
  induction events generalizing s with
  | nil => exact hs
  | cons event rest ih =>
    unfold rebindEach
    split
    · exact hs
    · exact ih (hs.mono rfl (by simp [listen, note]))

theorem rebind_sound (source target : NodeId) (r : Rebinding) (hs : s.Sound) :
    (s.rebind source target r).2.Sound := by
  unfold rebind
  generalize (if r.events.isEmpty then s.storedEvents source else r.events) = events
  dsimp only
  split
  · exact hs
  · exact rebindEach_sound source target r events hs

theorem dispatch_sound {h : Host ι (Stage ι ε)} (hslots : h.Leaves fun s => s.slots.length)
    (hstored : h.Leaves Stage.stored) (event : Event) (bubbles : Bool) (hs : s.Sound) :
    (s.dispatch h event bubbles).2.Sound := by
  apply hs.mono
  · exact dispatch_leaves hstored (fun _ _ _ _ _ _ => rfl) event bubbles s
  · exact Nat.le_of_eq (dispatch_length hslots event bubbles s).symm

end Soundness

/-- A build fails only if it is strict, and then at one of its groups. -/
theorem buildGroups_error {b : Builder ι} {node : NodeId} {groups : List Group} {i : Nat}
    {summary : Summary} {s t : Stage ι ε} {e : Error}
    (hrun : s.buildGroups b node i groups summary = (.error e, t)) :
    b.settings.strict = true ∧ ∃ done g rest built u, groups = done ++ g :: rest ∧
      s.buildGroups b node i done summary = (.ok built, u) ∧
      u.buildGroup b node g = (.error e, t) := by
  induction groups generalizing i summary s with
  | nil => cases hrun
  | cons g rest ih =>
    unfold buildGroups at hrun
    cases hg : s.buildGroup b node g with
    | mk result u =>
      rw [hg] at hrun
      cases result with
      | error e' =>
        cases hstrict : b.settings.strict with
        | true =>
          simp only [hstrict, ↓reduceIte] at hrun
          cases hrun
          exact ⟨rfl, [], g, rest, summary, s, rfl, rfl, hg⟩
        | false =>
          simp only [hstrict, Bool.false_eq_true, ↓reduceIte] at hrun
          obtain ⟨hcontra, -⟩ := ih hrun
          exact absurd (hstrict.symm.trans hcontra) Bool.false_ne_true
      | ok count =>
        obtain ⟨hstrict, done, g', rest', built, v, rfl, hdone, hfails⟩ := ih hrun
        refine ⟨hstrict, g :: done, g', rest', built, v, rfl, ?_, hfails⟩
        rw [buildGroups, hg]
        exact hdone

theorem buildGroups_node {b : Builder ι} {node : NodeId} {groups : List Group} {i : Nat}
    {summary final : Summary} {s t : Stage ι ε}
    (hrun : s.buildGroups b node i groups summary = (.ok final, t)) :
    final.node = summary.node := by
  induction groups generalizing i summary s with
  | nil =>
    cases hrun
    rfl
  | cons g rest ih =>
    unfold buildGroups at hrun
    split at hrun
    · exact (ih hrun : _)
    · split at hrun
      · cases hrun
      · exact (ih hrun : _)

theorem rebindEach_error {source target : NodeId} {r : Rebinding} {events : List String}
    {s t : Stage ι ε} {e : Error} (hs : s.Sound)
    (hrun : s.rebindEach source target r events = (.error e, t)) :
    e = .nothingStored source ∧ ∃ event ∈ events, s.stored? source event = none := by
  induction events generalizing s with
  | nil => cases hrun
  | cons event rest ih =>
    unfold rebindEach at hrun
    split at hrun
    next hnone =>
      obtain ⟨he, rfl⟩ := Prod.mk.inj hrun
      cases he
      refine ⟨rfl, event, List.mem_cons_self, ?_⟩
      -- a chain that is kept is on the stage
      cases hstored : s.stored? source event with
      | none => rfl
      | some id =>
        obtain ⟨kept, hkept, rfl⟩ := Option.map_eq_some_iff.mp hstored
        have hlt := hs kept (List.mem_of_find?_eq_some hkept)
        simp [hstored, chain?, hlt] at hnone
    next c hc =>
      obtain ⟨he, other, hother, hnone⟩ := ih (hs.mono (by rfl) (by simp [listen, note])) hrun
      exact ⟨he, other, List.mem_cons_of_mem _ hother, hnone⟩

theorem mem_storedEvents {node : NodeId} {event : String} {s : Stage ι ε} :
    event ∈ s.storedEvents node ↔ ∃ kept ∈ s.stored, kept.node = node ∧ kept.event = event := by
  simp [storedEvents, and_assoc]

/-- Chains are bound again unless there are none for the node, or for an event that is named. -/
theorem rebind_error {source target : NodeId} {r : Rebinding} {s t : Stage ι ε} {e : Error}
    (hs : s.Sound) (hrun : s.rebind source target r = (.error e, t)) :
    e = .nothingStored source ∧
      ((r.events = [] ∧ ∀ kept ∈ s.stored, kept.node ≠ source) ∨
        ∃ event ∈ r.events, s.stored? source event = none) := by
  unfold rebind at hrun
  obtain ⟨events, hevents⟩ : ∃ events,
      events = if r.events.isEmpty then s.storedEvents source else r.events := ⟨_, rfl⟩
  rw [← hevents] at hrun
  dsimp only at hrun
  by_cases hempty : events.isEmpty = true
  · rw [if_pos hempty] at hrun
    cases hrun
    rw [List.isEmpty_iff.mp hempty] at hevents
    split at hevents
    next hnamed =>
      refine ⟨rfl, .inl ⟨List.isEmpty_iff.mp hnamed, ?_⟩⟩
      intro kept hkept hnode
      have hmem := mem_storedEvents.mpr ⟨kept, hkept, hnode, rfl⟩
      rw [← hevents] at hmem
      cases hmem
    next hnamed => exact absurd (List.isEmpty_iff.mpr hevents.symm) hnamed
  · rw [if_neg hempty] at hrun
    cases hrest : s.rebindEach source target r events with
    | mk result u =>
      rw [hrest] at hrun
      cases result with
      | ok => cases hrun
      | error e' =>
        obtain ⟨rfl, event, hevent, hnone⟩ := rebindEach_error hs hrest
        cases hrun
        refine ⟨rfl, .inr ⟨event, ?_, hnone⟩⟩
        rw [hevents] at hevent
        split at hevent
        · -- if no event is named, chains are kept for all that are taken
          obtain ⟨kept, hkept, hnode, heq⟩ := mem_storedEvents.mp hevent
          have hsome := isSome_stored? source event s
          rw [hnone] at hsome
          exact absurd hsome.symm (by simpa using ⟨kept, hkept, hnode, heq⟩)
        · exact hevent

theorem build_keeps {h : Host ι (Stage ι ε)} {P : Stage ι ε → Prop} {b : Builder ι} {node : NodeId}
    {s : Stage ι ε}
    (hgroups : ∀ groups, P (s.buildGroups b node 0 groups ⟨node, 0, 0, 0, []⟩).2)
    (hidle : ∀ t notices log, P t → P { t with notices, log })
    (hdispatch : ∀ event t, P t → P (t.dispatch h event false).2) (onText byText toText : String) :
    P (s.build h b node onText byText toText).2 := by
  have hbuilt := hgroups (Group.ofTexts onText byText toText)
  unfold build
  dsimp only
  generalize s.buildGroups b node 0 (Group.ofTexts onText byText toText) ⟨node, 0, 0, 0, []⟩ = r
    at hbuilt
  obtain ⟨e | summary, t⟩ := r
  · exact hbuilt
  · have hnoticed := hidle t (t.notices ++ [.built node b.settings.doneEvent]) t.log hbuilt
    exact hidle _ _ _ (hdispatch (.fresh b.settings.doneEvent node none) _ hnoticed)

end Stage

end AttrChain
