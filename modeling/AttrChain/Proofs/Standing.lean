import AttrChain.Proofs.Delivery
import AttrChain.Stage.Build

/-!
Which registrations of listeners stand while listeners are registered and events are dispatched. A
listener is known by the place of its registration in the history, since two may be alike.
-/

namespace AttrChain

variable {ι ε : Type}

/-- What listeners notice of a dispatcher: one of them is registered, or an event has come to a node
by way of others. -/
inductive Hap (ι ε : Type) where
  | registered (l : Listener)
  | arrived (inner : List NodeId) (a : Arrival ι ε)

namespace Hap

def listener? : Hap ι ε → Option Listener
  | registered l => some l
  | arrived _ _ => none

def answer? (l : Listener) : Hap ι ε → Option NodeId
  | registered _ => none
  | arrived inner a => l.answer? a.stage.document a.event.name a.node inner

end Hap

/-- The registrations so far, each with its place in the history. -/
def registrations (history : List (Hap ι ε)) : List (Nat × Listener) :=
  history.zipIdx.filterMap fun p => p.1.listener?.map fun l => (p.2, l)

/-- The registrations that stand: one for once only until something happens that it answers. -/
def standing (history : List (Hap ι ε)) : List (Nat × Listener) :=
  (registrations history).filter fun r =>
    !(r.2.once && (history.drop (r.1 + 1)).any fun hap => (hap.answer? r.2).isSome)

section Registrations

variable {history : List (Hap ι ε)} {k : Nat} {l : Listener}

theorem mem_registrations :
    (k, l) ∈ registrations history ↔ history[k]? = some (.registered l) := by
  have hlistener : ∀ hap : Hap ι ε, hap.listener? = some l ↔ hap = .registered l := by
    intro hap
    cases hap <;> simp [Hap.listener?]
  constructor
  · intro h
    obtain ⟨⟨hap, j⟩, hmem, hpair⟩ := List.mem_filterMap.mp h
    obtain ⟨l', hl', he⟩ := Option.map_eq_some_iff.mp hpair
    cases he
    rw [(hlistener hap).mp hl'] at hmem
    exact List.mem_zipIdx_iff_getElem?.mp hmem
  · intro h
    exact List.mem_filterMap.mpr ⟨(.registered l, k), List.mem_zipIdx_iff_getElem?.mpr h, rfl⟩

theorem mem_standing : (k, l) ∈ standing history ↔ history[k]? = some (.registered l) ∧
    (l.once = true → ∀ n hap, k < n → history[n]? = some hap → hap.answer? l = none) := by
  unfold standing
  rw [List.mem_filter, mem_registrations]
  apply and_congr_right
  intro _
  have hdrop : ∀ hap, hap ∈ history.drop (k + 1) ↔ ∃ n, k < n ∧ history[n]? = some hap := by
    intro hap
    rw [List.mem_iff_getElem?]
    constructor
    · rintro ⟨n, hn⟩
      rw [List.getElem?_drop] at hn
      exact ⟨k + 1 + n, by omega, hn⟩
    · rintro ⟨n, hk, hn⟩
      refine ⟨n - (k + 1), ?_⟩
      rw [List.getElem?_drop, Nat.add_sub_cancel' hk]
      exact hn
  dsimp only
  cases l.once with
  | false => simp
  | true =>
    simp only [Bool.true_and, Bool.not_eq_true', List.any_eq_false, hdrop, Bool.not_eq_true,
      Option.isSome_eq_false_iff, Option.isNone_iff_eq_none, forall_exists_index, and_imp,
      forall_const]
    exact forall_comm

theorem standing_ascending (history : List (Hap ι ε)) :
    ((standing history).map Prod.fst).Pairwise (· < ·) := by
  have hplaces : history.zipIdx.Pairwise fun p q => p.2 < q.2 := by
    rw [← List.pairwise_map (f := Prod.snd), List.zipIdx_map_snd]
    exact List.pairwise_lt_range'
  unfold standing registrations
  rw [List.pairwise_map]
  apply List.Pairwise.filter
  apply hplaces.filterMap
  intro p q hlt r hr t ht
  obtain ⟨l, -, rfl⟩ := Option.map_eq_some_iff.mp hr
  obtain ⟨l', -, rfl⟩ := Option.map_eq_some_iff.mp ht
  exact hlt

theorem registrations_concat (history : List (Hap ι ε)) (hap : Hap ι ε) :
    registrations (history ++ [hap]) =
      registrations history ++ (hap.listener?.map fun l => (history.length, l)).toList := by
  unfold registrations
  rw [List.zipIdx_append, List.filterMap_append]
  cases hap <;> simp [Hap.listener?]

theorem standing_concat (history : List (Hap ι ε)) (hap : Hap ι ε) :
    standing (history ++ [hap]) =
      ((standing history).filter fun r => !(r.2.once && (hap.answer? r.2).isSome)) ++
        (hap.listener?.map fun l => (history.length, l)).toList := by
  unfold standing
  rw [registrations_concat, List.filter_append, List.filter_filter]
  congr 1
  · apply List.filter_congr
    rintro ⟨k, l⟩ hmem
    have hk := (List.getElem?_eq_some_iff.mp (mem_registrations.mp hmem)).1
    rw [List.drop_append_of_le_length hk, List.any_append]
    cases l.once <;> simp [Bool.and_comm]
  · apply List.filter_eq_self.mpr
    intro r hr
    obtain ⟨l, -, rfl⟩ := Option.map_eq_some_iff.mp (Option.mem_toList.mp hr)
    simp

theorem length_le_of_standing {before before' after after' : List (Hap ι ε)} {hap hap' : Hap ι ε}
    (hsplit : before ++ hap :: after = before' ++ hap' :: after') (hl : l.once = true)
    (hk : (k, l) ∈ standing before) (hanswer : (hap.answer? l).isSome = true)
    (hk' : (k, l) ∈ standing before') : before'.length ≤ before.length := by
  by_contra hlt
  have hlater : before'[before.length]? = some hap := by
    have hboth : (before ++ hap :: after)[before.length]? = some hap := by simp
    rw [hsplit, List.getElem?_append_left (Nat.lt_of_not_le hlt)] at hboth
    exact hboth
  have hplace := (List.getElem?_eq_some_iff.mp (mem_standing.mp hk).1).1
  rw [(mem_standing.mp hk').2 hl before.length hap hplace hlater] at hanswer
  cases hanswer

end Registrations

/-- How an event meets the listeners where it has come to: those are there that stand, the ones that
answer are called in their order, and from the first call on those for once are gone. -/
structure Arrival.Meets (h : Host ι (Stage ι ε)) (inner : List NodeId) (a : Arrival ι ε)
    (before : List (Hap ι ε)) : Prop where
  found : a.stage.listeners = (standing before).map Prod.snd
  called : (a.calls h inner).map (fun c => (c.listener, c.delegate)) =
    (standing before).filterMap fun r =>
      ((Hap.arrived inner a).answer? r.2).map fun n => (r.2, n)
  left : ∀ c ∈ a.calls h inner,
    c.stage.listeners = (standing (before ++ [.arrived inner a])).map Prod.snd ∧
      (c.after h).2.listeners = (standing (before ++ [.arrived inner a])).map Prod.snd

def GoesOn (h : Host ι (Stage ι ε)) : List (Hap ι ε) → List (Hap ι ε) → Prop
  | _, [] => True
  | before, hap :: rest =>
    (∀ inner a, hap = .arrived inner a → a.Meets h inner before) ∧ GoesOn h (before ++ [hap]) rest

theorem GoesOn.append {h : Host ι (Stage ι ε)} {before haps more : List (Hap ι ε)}
    (hhaps : GoesOn h before haps) (hmore : GoesOn h (before ++ haps) more) :
    GoesOn h before (haps ++ more) := by
  induction haps generalizing before with
  | nil => rwa [List.append_nil] at hmore
  | cons hap rest ih =>
    refine ⟨hhaps.1, ih hhaps.2 ?_⟩
    rwa [List.append_assoc, List.singleton_append]

theorem GoesOn.meets {h : Host ι (Stage ι ε)} {before haps after : List (Hap ι ε)}
    {inner : List NodeId} {a : Arrival ι ε}
    (hgoes : GoesOn h before (haps ++ .arrived inner a :: after)) :
    a.Meets h inner (before ++ haps) := by
  induction haps generalizing before with
  | nil =>
    rw [List.append_nil]
    exact hgoes.1 inner a rfl
  | cons hap rest ih =>
    have := ih hgoes.2
    rwa [List.append_assoc, List.singleton_append] at this

namespace Stage

section Listeners

variable {h : Host ι (Stage ι ε)} (hl : h.Leaves fun s => s.listeners)

include hl

theorem deliver_listeners (current : NodeId) (event : Event) (s : Stage ι ε)
    (chosen : ChainId × NodeId) : (s.deliver h current event chosen).2.listeners = s.listeners := by
  have hfired := fire_leaves hl (fun _ _ => rfl) chosen.1 event (.listener current chosen.2)
    { s with records := s.records ++
      [⟨event.name, event.target, current, chosen.2, .pending, none⟩] }
  dsimp only [deliver]
  split <;> exact hfired

theorem deliverAll_listeners (current : NodeId) (pairs : List (Listener × NodeId)) (event : Event)
    (s : Stage ι ε) : (s.deliverAll h current pairs event).2.listeners = s.listeners := by
  induction pairs generalizing event s with
  | nil => rfl
  | cons p rest ih => exact (ih _ _).trans (deliver_listeners hl current event s _)

theorem callsAll_listeners (current : NodeId) (pairs : List (Listener × NodeId)) (event : Event)
    (s : Stage ι ε) : ∀ c ∈ s.callsAll h current pairs event,
      c.stage.listeners = s.listeners ∧ (c.after h).2.listeners = s.listeners := by
  induction pairs generalizing event s with
  | nil => simp [callsAll]
  | cons p rest ih =>
    have hleft := deliver_listeners hl current event s (p.1.chain, p.2)
    rintro c (_ | ⟨_, hc⟩)
    · exact ⟨rfl, hleft⟩
    · exact hleft ▸ ih _ _ c hc

theorem arrival_meets (inner : List NodeId) (a : Arrival ι ε) {before : List (Hap ι ε)}
    (hfound : a.stage.listeners = (standing before).map Prod.snd) :
    a.Meets h inner before ∧
      ((a.opened inner).deliverAll h a.node (a.answering inner) a.event).2.listeners =
        (standing (before ++ [.arrived inner a])).map Prod.snd := by
  have hopened : (a.opened inner).listeners =
      (standing (before ++ [.arrived inner a])).map Prod.snd := by
    obtain ⟨log, ho⟩ := a.opened_eq inner
    rw [ho, hfound, List.filter_map, standing_concat]
    simp only [Hap.listener?, Option.map_none, Option.toList_none, List.append_nil]
    rfl
  refine ⟨⟨hfound, ?_, ?_⟩, ?_⟩
  · refine (callsAll_answers _ _ _).trans ?_
    rw [Arrival.answering, hfound, List.filterMap_map]
    rfl
  · intro c hc
    rw [← hopened]
    exact callsAll_listeners hl _ _ _ _ c hc
  · rw [← hopened]
    exact deliverAll_listeners hl _ _ _ _

theorem arrivals_goesOn (path nodes : List NodeId) (event : Event) (s : Stage ι ε)
    {before : List (Hap ι ε)} (hs : s.listeners = (standing before).map Prod.snd) :
    let haps := (s.arrivals h path nodes event).map fun a =>
      Hap.arrived (path.takeWhile (· ≠ a.node)) a
    GoesOn h before haps ∧
      (s.deliverAlong h path nodes event).2.listeners =
        (standing (before ++ haps)).map Prod.snd := by
  induction nodes generalizing event s before with
  | nil => simpa [arrivals, deliverAlong, GoesOn] using hs
  | cons current rest ih =>
    obtain ⟨hmeets, hleft⟩ := arrival_meets hl (path.takeWhile (· ≠ current)) ⟨current, event, s⟩ hs
    rw [← Arrival.after_eq] at hleft
    have hhere : ∀ inner a, Hap.arrived (path.takeWhile (· ≠ current)) ⟨current, event, s⟩ =
        .arrived inner a → a.Meets h inner before := by
      rintro inner a ⟨⟩
      exact hmeets
    simp only [arrivals, deliverAlong]
    split
    · exact ⟨⟨hhere, trivial⟩, hleft⟩
    · obtain ⟨hgoes, hend⟩ := ih _ _ hleft
      refine ⟨⟨hhere, hgoes⟩, ?_⟩
      rwa [List.append_assoc] at hend

end Listeners

end Stage

/-- What is done with a dispatcher: a listener is registered, an event is dispatched, or everything
but the listeners comes to stand otherwise. -/
inductive Deal (ι ε : Type) where
  | listen (l : Listener)
  | dispatch (name : String) (target : NodeId) (detail : Option Value) (bubbles : Bool)
  | meanwhile (stage : Stage ι ε)

namespace Stage

def deal (h : Host ι (Stage ι ε)) (s : Stage ι ε) : Deal ι ε → Stage ι ε
  | .listen l => s.listen l
  | .dispatch name target detail bubbles =>
    (s.dispatch h (.fresh name target detail) bubbles).2
  | .meanwhile stage => { stage with listeners := s.listeners }

def haps (h : Host ι (Stage ι ε)) (s : Stage ι ε) : Deal ι ε → List (Hap ι ε)
  | .listen l => [.registered l]
  | .dispatch name target detail bubbles =>
    (s.route h (.fresh name target detail) bubbles).map fun a =>
      .arrived ((s.document.path target).takeWhile (· ≠ a.node)) a
  | .meanwhile _ => []

def dealAll (h : Host ι (Stage ι ε)) (s : Stage ι ε) (deals : List (Deal ι ε)) : Stage ι ε :=
  deals.foldl (deal h) s

def history (h : Host ι (Stage ι ε)) : Stage ι ε → List (Deal ι ε) → List (Hap ι ε)
  | _, [] => []
  | s, d :: deals => s.haps h d ++ (s.deal h d).history h deals

section Histories

variable {h : Host ι (Stage ι ε)} (hl : h.Leaves fun s => s.listeners)

include hl

theorem deal_goesOn (s : Stage ι ε) (d : Deal ι ε) {before : List (Hap ι ε)}
    (hs : s.listeners = (standing before).map Prod.snd) :
    GoesOn h before (s.haps h d) ∧
      (s.deal h d).listeners = (standing (before ++ s.haps h d)).map Prod.snd := by
  cases d with
  | listen l =>
    refine ⟨⟨by simp, trivial⟩, ?_⟩
    rw [haps, standing_concat]
    simp [deal, listen, hs, Hap.answer?, Hap.listener?]
  | dispatch name target detail bubbles => exact arrivals_goesOn hl _ _ _ _ hs
  | meanwhile stage =>
    refine ⟨trivial, ?_⟩
    rw [haps, List.append_nil]
    exact hs

theorem dealAll_goesOn (s : Stage ι ε) (deals : List (Deal ι ε)) {before : List (Hap ι ε)}
    (hs : s.listeners = (standing before).map Prod.snd) :
    GoesOn h before (s.history h deals) ∧
      (s.dealAll h deals).listeners = (standing (before ++ s.history h deals)).map Prod.snd := by
  induction deals generalizing s before with
  | nil => simpa [history, dealAll, GoesOn] using hs
  | cons d deals ih =>
    obtain ⟨hfirst, hleft⟩ := deal_goesOn hl s d hs
    obtain ⟨hrest, hend⟩ := ih (s.deal h d) hleft
    refine ⟨hfirst.append hrest, ?_⟩
    rwa [List.append_assoc] at hend

/-- However listeners are registered and events are dispatched: where an event comes to, the
listeners are called that stand and answer, in the order of their registration. One for once stands
until the first event has come that it answers, and so it is called then and never again; it is gone
before the first chain is called, whatever comes of that. Each other one stands for good. -/
theorem called_once_at_first_chance (s : Stage ι ε) (hs : s.listeners = [])
    (deals : List (Deal ι ε)) :
    let history := s.history h deals
    (s.dealAll h deals).listeners = (standing history).map Prod.snd ∧
    (∀ before inner a after, history = before ++ .arrived inner a :: after →
      a.Meets h inner before ∧ ∀ l n, Hap.answer? l (.arrived inner a) = some n ↔
        l.Answers a.stage.document a.event.name a.node inner n) ∧
    (∀ before after, history = before ++ after →
      ((standing before).map Prod.fst).Pairwise (· < ·) ∧
      ∀ k l, (k, l) ∈ standing before ↔ before[k]? = some (.registered l) ∧
        (l.once = true → ∀ n hap, k < n → before[n]? = some hap → hap.answer? l = none)) ∧
    (∀ before hap after before' hap' after',
      history = before ++ hap :: after → history = before' ++ hap' :: after' →
      ∀ k l, l.once = true →
        (k, l) ∈ standing before → (hap.answer? l).isSome = true →
        (k, l) ∈ standing before' → (hap'.answer? l).isSome = true → before = before') := by
  intro history
  have hnone : s.listeners = (standing ([] : List (Hap ι ε))).map Prod.snd := hs
  obtain ⟨hgoes, hend⟩ := dealAll_goesOn hl s deals hnone
  change GoesOn h [] history at hgoes
  refine ⟨hend, ?_, ?_, ?_⟩
  · intro before inner a after hsplit
    rw [hsplit] at hgoes
    exact ⟨hgoes.meets, fun l n => Listener.answer?_eq_some_iff⟩
  · intro before after hsplit
    exact ⟨standing_ascending before, fun k l => mem_standing⟩
  · intro before hap after before' hap' after' hsplit hsplit' k l honce hk hanswer hk' hanswer'
    have hboth := hsplit.symm.trans hsplit'
    have hlength := Nat.le_antisymm (length_le_of_standing hboth.symm honce hk' hanswer' hk)
      (length_le_of_standing hboth honce hk hanswer hk')
    exact (List.append_inj hboth hlength).1

end Histories

def plainList : Stage Kit Unit :=
  { (Stage.empty () : Stage Kit Unit) with
    document := ((Document.empty.create "ul" none).2.create "li" (some ⟨1⟩)).2
    slots := [⟨.ofCells [] [], false⟩] }

/-- The item listens for one click and the list for any, and the item is clicked twice. -/
def clicks : List (Deal Kit Unit) :=
  [.listen ⟨⟨2⟩, "click", none, true, ⟨0⟩⟩, .listen ⟨⟨1⟩, "click", some "li", false, ⟨0⟩⟩,
    .dispatch "click" ⟨2⟩ none true, .dispatch "click" ⟨2⟩ none true]

theorem clicks_called_once :
    (standing (plainList.history (host .standard) clicks)).map Prod.snd =
        [⟨⟨1⟩, "click", some "li", false, ⟨0⟩⟩] ∧
      (plainList.dealAll (host .standard) clicks).records.map Record.call =
        [("click", ⟨2⟩, ⟨2⟩, ⟨2⟩), ("click", ⟨2⟩, ⟨1⟩, ⟨2⟩), ("click", ⟨2⟩, ⟨1⟩, ⟨2⟩)] := by
  have hleaves : (host .standard : Host Kit (Stage Kit Unit)).Leaves fun s => s.listeners :=
    host_leaves .standard fun _ _ _ => rfl
  obtain ⟨hstanding, -⟩ := called_once_at_first_chance hleaves plainList rfl clicks
  refine ⟨hstanding.symm.trans ?_, ?_⟩
  · decide +kernel
  · decide +kernel

end Stage

end AttrChain
