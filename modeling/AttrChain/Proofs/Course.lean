import AttrChain.Proofs.Backstage
import Mathlib.Logic.Function.Basic

/-!
Courses of events: chains on a stage are fired, looked after and copied in any order, with any
number of firings suspended at a time. Each firing keeps the results that the caller has seen, the
cells that it has invoked and the rejections that the sink has received from it.
-/

namespace AttrChain

variable {ι ε : Type}

def Fired.rest? : Fired → Option Suspended
  | .suspended s => some s
  | _ => none

def Polled.rest? : Polled → Option Suspended
  | .waiting s => some s
  | _ => none

def Polled.isAborted : Polled → Bool
  | .aborted => true
  | _ => false

/-- A firing with its history. -/
structure Firing where
  fired : Fired
  polls : List Polled
  visits : List Visit
  rejections : List Rejection

namespace Firing

def rest? (f : Firing) : Option Suspended :=
  match f.polls.getLast? with
  | none => f.fired.rest?
  | some polled => polled.rest?

def isAborted (f : Firing) : Bool := f.polls.getLast?.any Polled.isAborted

def extend (f : Firing) (polled : Polled) (visits : List Visit) (rejections : List Rejection) :
    Firing :=
  ⟨f.fired, f.polls ++ [polled], f.visits ++ visits, f.rejections ++ rejections⟩

variable (f : Firing) (polled : Polled) (visits : List Visit) (rejections : List Rejection)

@[simp] theorem rest?_extend : (f.extend polled visits rejections).rest? = polled.rest? := by
  simp [extend, rest?]

@[simp] theorem isAborted_extend :
    (f.extend polled visits rejections).isAborted = polled.isAborted := by
  simp [extend, isAborted]

end Firing

/-- Chains on a stage, and the firings of each so far. -/
structure Course (ι ε : Type) where
  stage : Stage ι (Backstage ε)
  firings : ChainId → List Firing

/-- What may happen to a chain: it is fired, one of its firings is looked after, or a copy of it is
put on the stage. -/
inductive Act where
  | fire (id : ChainId) (event : Event) (ctx : Context)
  | poll (id : ChainId) (n : Nat)
  | rebind (id : ChainId) (initial : Option Value)

/-- A step of a course. The state in which instructions, finder and promises find the world is
whatever came about until then. -/
structure Move (ε : Type) where
  state : ε
  act : Act

theorem launch_cells (h : Host ι ε) (id : ChainId) (c : Chain ι) (event : Event) (ctx : Context)
    (state : ε) : (c.launch h id event ctx state).chain.cells = c.cells := rfl

theorem proceed_cells (h : Host ι ε) (c : Chain ι) (f : Suspended) (state : ε) :
    (c.proceed h f state).chain.cells = c.cells := by
  unfold Chain.proceed
  split
  · rfl
  · rfl
  · split
    · rfl
    · generalize c.follow h h.settlement? _ _ _ = r
      obtain ⟨visits, halt, g⟩ := r
      cases halt <;> rfl

namespace Course

def start (chains : List (Chain ι)) (state : ε) : Course ι ε where
  stage := .ofChains chains state
  firings := fun _ => []

def received (s t : Stage ι (Backstage ε)) : List Rejection :=
  t.extra.rejections.drop s.extra.rejections.length

def fire (h : Host ι ε) (id : ChainId) (event : Event) (ctx : Context) (p : Course ι ε) :
    Course ι ε :=
  match p.stage.chain? id with
  | none => p
  | some c =>
    let (fired, t) := p.stage.fire h.onStage id event ctx
    let visits := (c.launch h id event ctx p.stage.extra.state).visits
    { stage := t
      firings := Function.update p.firings id
        (p.firings id ++ [⟨fired, [], visits, received p.stage t⟩]) }

def poll (h : Host ι ε) (id : ChainId) (n : Nat) (p : Course ι ε) : Course ι ε :=
  match (p.firings id)[n]?, p.stage.chain? id with
  | some firing, some c =>
    match firing.rest? with
    | none => p
    | some rest =>
      let (polled, t) := p.stage.poll h.onStage rest
      let visits := (c.proceed h rest p.stage.extra.state).visits
      { stage := t
        firings := Function.update p.firings id
          ((p.firings id).set n (firing.extend polled visits (received p.stage t))) }
  | _, _ => p

def rebind (id : ChainId) (initial : Option Value) (p : Course ι ε) : Course ι ε :=
  match p.stage.chain? id with
  | none => p
  | some c => { p with stage := (p.stage.addChain (c.rebind initial)).2 }

def withState (state : ε) (p : Course ι ε) : Course ι ε :=
  { p with stage := p.stage.withState state }

def act (h : Host ι ε) (p : Course ι ε) : Act → Course ι ε
  | .fire id event ctx => p.fire h id event ctx
  | .poll id n => p.poll h id n
  | .rebind id initial => p.rebind id initial

def step (h : Host ι ε) (p : Course ι ε) (m : Move ε) : Course ι ε :=
  (p.withState m.state).act h m.act

def play (h : Host ι ε) (p : Course ι ε) (moves : List (Move ε)) : Course ι ε :=
  moves.foldl (step h) p

/-- A chain is on the stage and at rest, as chains are between moves. -/
def Rests (p : Course ι ε) (id : ChainId) (c : Chain ι) : Prop :=
  p.stage.slots[id.index]? = some ⟨c, false⟩

theorem Rests.chain {p : Course ι ε} {id : ChainId} {c : Chain ι} (hc : p.Rests id c) :
    p.stage.chain? id = some c := by
  simp [Stage.chain?, show _ = _ from hc]

def record (p : Course ι ε) (id : ChainId) (c : Chain ι) (state : ε) (rejections : List Rejection)
    (firings : List Firing) : Course ι ε where
  stage := p.stage.leave id c state rejections
  firings := Function.update p.firings id firings

theorem record_rests {p : Course ι ε} {id : ChainId} {c : Chain ι} (hc : p.Rests id c)
    (c' : Chain ι) (state : ε) (rejections : List Rejection) (firings : List Firing) :
    (p.record id c' state rejections firings).Rests id c' :=
  Stage.leave_slot hc c' state rejections

@[simp] theorem record_firings_self (p : Course ι ε) (id : ChainId) (c : Chain ι) (state : ε)
    (rejections : List Rejection) (firings : List Firing) :
    (p.record id c state rejections firings).firings id = firings :=
  Function.update_self ..

theorem record_slot_of_ne (p : Course ι ε) {id a : ChainId} (ha : a ≠ id) (c : Chain ι)
    (state : ε) (rejections : List Rejection) (firings : List Firing) :
    (p.record id c state rejections firings).stage.slots[a.index]? =
      p.stage.slots[a.index]? := by
  have hi : id.index ≠ a.index := by
    intro he
    exact ha (by cases a; cases id; exact congrArg ChainId.mk he.symm)
  exact List.getElem?_set_ne hi

theorem record_firings_of_ne (p : Course ι ε) {id a : ChainId} (ha : a ≠ id) (c : Chain ι)
    (state : ε) (rejections : List Rejection) (firings : List Firing) :
    (p.record id c state rejections firings).firings a = p.firings a :=
  Function.update_of_ne ha ..

theorem received_leave (s : Stage ι (Backstage ε)) (id : ChainId) (c : Chain ι) (state : ε)
    (rejections : List Rejection) : received s (s.leave id c state rejections) = rejections := by
  simp [received, Stage.leave]

theorem fire_eq (h : Host ι ε) {p : Course ι ε} {id : ChainId} {c : Chain ι}
    (hc : p.Rests id c) (event : Event) (ctx : Context) :
    p.fire h id event ctx =
      let l := c.launch h id event ctx p.stage.extra.state
      p.record id l.chain l.state [] (p.firings id ++ [⟨l.fired, [], l.visits, []⟩]) := by
  unfold fire
  simp only [hc.chain, Stage.fire_onStage h hc, received_leave]
  rfl

theorem poll_eq (h : Host ι ε) {p : Course ι ε} {id : ChainId} {n : Nat} {c : Chain ι}
    {f : Firing} {rest : Suspended} (hc : p.Rests id c) (hf : (p.firings id)[n]? = some f)
    (hr : f.rest? = some rest) (hid : rest.chain = id) :
    p.poll h id n =
      let r := c.proceed h rest p.stage.extra.state
      p.record id r.chain r.state r.rejections
        ((p.firings id).set n (f.extend r.polled r.visits r.rejections)) := by
  subst hid
  unfold poll
  simp only [hf, hc.chain, hr, Stage.poll_onStage h hc, received_leave]
  rfl

def Holds (P : ChainId → Chain ι → Firing → Prop) (p : Course ι ε) : Prop :=
  ∀ id, (∃ c, p.Rests id c ∧ ∀ f ∈ p.firings id, P id c f) ∨
    (p.stage.slots[id.index]? = none ∧ p.firings id = [])

/-- What makes a property of firings hold throughout a course: it looks at nothing but the cells of
the chain, a fresh firing has it, and a firing that goes on keeps it. -/
structure Kept (h : Host ι ε) (P : ChainId → Chain ι → Firing → Prop) : Prop where
  cells : ∀ {id c c' f}, c'.cells = c.cells → P id c f → P id c' f
  home : ∀ {id c f rest}, P id c f → f.rest? = some rest → rest.chain = id
  launched : ∀ id c event ctx state,
    P id c ⟨(c.launch h id event ctx state).fired, [], (c.launch h id event ctx state).visits, []⟩
  proceeded : ∀ {id c f rest} (state : ε), P id c f → f.rest? = some rest →
    P id c (f.extend (c.proceed h rest state).polled (c.proceed h rest state).visits
      (c.proceed h rest state).rejections)

variable {h : Host ι ε} {P : ChainId → Chain ι → Firing → Prop}

theorem start_holds (chains : List (Chain ι)) (state : ε) : (start chains state).Holds P := by
  intro id
  cases hc : chains[id.index]? with
  | none => exact Or.inr ⟨by simp [start, Stage.ofChains, hc], rfl⟩
  | some c => exact Or.inl ⟨c, by simp [Rests, start, Stage.ofChains, hc], by simp [start]⟩

theorem record_holds (hk : Kept h P) {p : Course ι ε} (hp : p.Holds P) {id : ChainId}
    {c c' : Chain ι} (hc : p.Rests id c) (hcells : c'.cells = c.cells) (state : ε)
    (rejections : List Rejection) {firings : List Firing} (hfs : ∀ f ∈ firings, P id c f) :
    (p.record id c' state rejections firings).Holds P := by
  intro a
  by_cases ha : a = id
  · subst ha
    refine Or.inl ⟨c', record_rests hc .., ?_⟩
    intro f hf
    rw [record_firings_self] at hf
    exact hk.cells hcells (hfs f hf)
  · simpa only [Rests, record_slot_of_ne p ha, record_firings_of_ne p ha] using hp a

theorem fire_holds (hk : Kept h P) {p : Course ι ε} (hp : p.Holds P) (id : ChainId)
    (event : Event) (ctx : Context) : (p.fire h id event ctx).Holds P := by
  rcases hp id with ⟨c, hc, hfs⟩ | ⟨hn, -⟩
  · rw [fire_eq h hc]
    refine record_holds hk hp hc (launch_cells ..) _ _ ?_
    intro f hf
    rcases List.mem_append.mp hf with hf | hf
    · exact hfs f hf
    · rw [List.mem_singleton.mp hf]
      exact hk.launched ..
  · have hchain : p.stage.chain? id = none := by simp [Stage.chain?, hn]
    unfold fire
    simpa only [hchain] using hp

theorem poll_holds (hk : Kept h P) {p : Course ι ε} (hp : p.Holds P) (id : ChainId) (n : Nat) :
    (p.poll h id n).Holds P := by
  rcases hp id with ⟨c, hc, hfs⟩ | ⟨-, hnone⟩
  · cases hf : (p.firings id)[n]? with
    | none => simpa only [poll, hf] using hp
    | some f =>
      have hP := hfs f (List.mem_of_getElem? hf)
      cases hr : f.rest? with
      | none => simpa only [poll, hf, hc.chain, hr] using hp
      | some rest =>
        rw [poll_eq h hc hf hr (hk.home hP hr)]
        refine record_holds hk hp hc (proceed_cells ..) _ _ ?_
        intro g hg
        rcases List.mem_or_eq_of_mem_set hg with hg | rfl
        · exact hfs g hg
        · exact hk.proceeded _ hP hr
  · simpa only [poll, hnone, List.getElem?_nil] using hp

theorem rebind_holds {p : Course ι ε} (hp : p.Holds P) (id : ChainId) (initial : Option Value) :
    (p.rebind id initial).Holds P := by
  rcases hp id with ⟨c, hc, -⟩ | ⟨hn, -⟩
  · unfold rebind
    simp only [hc.chain]
    intro a
    rcases Nat.lt_trichotomy a.index p.stage.slots.length with hlt | heq | hgt
    · simpa only [Rests, Stage.addChain, List.getElem?_append_left hlt] using hp a
    · -- The copy stands where no chain was, so no firing can be recorded for it yet.
      rcases hp a with ⟨d, hd, -⟩ | ⟨-, hnone⟩
      · have := (List.getElem?_eq_some_iff.mp hd).1
        omega
      · refine Or.inl ⟨c.rebind initial, ?_, ?_⟩
        · simp [Rests, Stage.addChain, heq]
        · intro f hf
          rw [hnone] at hf
          cases hf
    · have hslots : (p.stage.addChain (c.rebind initial)).2.slots[a.index]? = none := by
        rw [List.getElem?_eq_none_iff]
        simp only [Stage.addChain, List.length_append, List.length_singleton]
        omega
      rcases hp a with ⟨d, hd, -⟩ | ⟨-, hnone⟩
      · have := (List.getElem?_eq_some_iff.mp hd).1
        omega
      · exact Or.inr ⟨hslots, hnone⟩
  · have hchain : p.stage.chain? id = none := by simp [Stage.chain?, hn]
    unfold rebind
    simpa only [hchain] using hp

theorem withState_holds {p : Course ι ε} (hp : p.Holds P) (state : ε) :
    (p.withState state).Holds P := hp

theorem step_holds (hk : Kept h P) {p : Course ι ε} (hp : p.Holds P) (m : Move ε) :
    (p.step h m).Holds P := by
  have hp' := withState_holds hp m.state
  unfold step
  cases m.act with
  | fire id event ctx => exact fire_holds hk hp' id event ctx
  | poll id n => exact poll_holds hk hp' id n
  | rebind id initial => exact rebind_holds hp' id initial

theorem play_append (p : Course ι ε) (before after : List (Move ε)) :
    p.play h (before ++ after) = (p.play h before).play h after :=
  List.foldl_append ..

theorem play_holds (hk : Kept h P) {p : Course ι ε} (hp : p.Holds P) (moves : List (Move ε)) :
    (p.play h moves).Holds P := by
  induction moves generalizing p with
  | nil => exact hp
  | cons m moves ih => exact ih (step_holds hk hp m)

end Course
end AttrChain
