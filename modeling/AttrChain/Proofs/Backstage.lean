import AttrChain.Proofs.Links
import AttrChain.Stage.Fire

/-!
Firing chains on a stage whose instructions reach nothing of the stage but a state of their own: a
firing and the looking after it change the slot of their chain, that state and what the sink has
received, as the chain does by itself.
-/

namespace AttrChain

variable {ι ε σ : Type}

/-- What lies behind a stage: the state that instructions and finder work on, and the rejections
that the sink has received. -/
structure Backstage (ε : Type) where
  state : ε
  rejections : List Rejection

namespace Stage

def ofChains (chains : List (Chain ι)) (state : ε) : Stage ι (Backstage ε) :=
  { (Stage.empty ⟨state, []⟩ : Stage ι (Backstage ε)) with
    slots := chains.map fun c => ⟨c, false⟩ }

def withState (state : ε) (s : Stage ι (Backstage ε)) : Stage ι (Backstage ε) :=
  { s with extra := { s.extra with state } }

@[simp] theorem withState_state (s : Stage ι (Backstage ε)) (state : ε) :
    (s.withState state).extra.state = state := rfl

@[simp] theorem withState_withState (s : Stage ι (Backstage ε)) (a b : ε) :
    (s.withState a).withState b = s.withState b := rfl

end Stage

/-- A host of a state of its own as host on a stage: it reaches nothing but the state behind the
stage, and every rejection is written down. -/
def Host.onStage (h : Host ι ε) : Host ι (Stage ι (Backstage ε)) where
  perform body args ctx stack s :=
    let (reply, ctx, stack, state) := h.perform body args ctx stack s.extra.state
    (reply, ctx, stack, s.withState state)
  findOne selector start s :=
    let (found, state) := h.findOne selector start s.extra.state
    (found, s.withState state)
  findAll selector start s :=
    let (found, state) := h.findAll selector start s.extra.state
    (found, s.withState state)
  field id name s := h.field id name s.extra.state
  answer number s := h.answer number s.extra.state
  reject why s :=
    { s with extra := ⟨h.reject why s.extra.state, s.extra.rejections ++ [why]⟩ }

def Frame.on (s : Stage ι (Backstage ε)) (f : Frame ε) : Frame (Stage ι (Backstage ε)) :=
  ⟨f.ctx, f.stack, f.cuts, s.withState f.host⟩

theorem settlement_onStage (h : Host ι ε) (p : Promise) (s : Stage ι (Backstage ε)) :
    h.onStage.settlement? p s = h.settlement? p s.extra.state := by
  cases p <;> rfl

theorem find_onStage (h : Host ι ε) (q : Query) (ctx : Context) (s : Stage ι (Backstage ε)) :
    q.find h.onStage ctx s =
      ((q.find h ctx s.extra.state).1, s.withState (q.find h ctx s.extra.state).2) := by
  unfold Query.find
  split
  · rfl
  split
  · rfl
  split
  · rfl
  split
  · rfl
  · rfl

namespace Cell

theorem perform_onStage (h : Host ι ε) (i : Nat) (c : Cell ι) (args : List Value)
    (s : Stage ι (Backstage ε)) (f : Frame ε) :
    c.perform h.onStage i args (f.on s) =
      ((c.perform h i args f).1, (c.perform h i args f).2.on s) := by
  unfold perform
  cases c.op with
  | start => rfl
  | query q => simp [find_onStage, Frame.on]
  | call instruction =>
    dsimp only
    cases instruction.action <;> rfl

theorem result_onStage (c : Cell ι) (reply : Except Error Reply) (s : Stage ι (Backstage ε))
    (f : Frame ε) :
    c.result reply (f.on s) = ((c.result reply f).1, (c.result reply f).2.on s) := by
  unfold result
  split
  · split <;> rfl
  · rfl

theorem prepare_on (c : Cell ι) (incoming : Option Value) (s : Stage ι (Backstage ε))
    (f : Frame ε) :
    c.prepare incoming (f.on s) = ((c.prepare incoming f).1, (c.prepare incoming f).2.on s) := rfl

theorem invoke_onStage (h : Host ι ε) (i : Nat) (c : Cell ι) (incoming : Option Value)
    (s : Stage ι (Backstage ε)) (f : Frame ε) :
    c.invoke h.onStage i incoming (f.on s) =
      ((c.invoke h i incoming f).1, (c.invoke h i incoming f).2.on s) := by
  rw [invoke_eq, invoke_eq, prepare_on, perform_onStage, result_onStage]

end Cell

def Turn.on (s : Stage ι (Backstage ε)) (t : Turn ε) : Turn (Stage ι (Backstage ε)) :=
  ⟨t.verdict, t.next, t.frame.on s⟩

namespace Chain

theorem turn_onStage (h : Host ι ε) (look : Promise → ε → Option Settlement) (c : Chain ι)
    (i : Nat) (cell : Cell ι) (incoming : Option Value) (s : Stage ι (Backstage ε)) (f : Frame ε) :
    c.turn h.onStage (fun p s => look p s.extra.state) i cell incoming (f.on s) =
      (c.turn h look i cell incoming f).on s := by
  have hverdict : ∀ (reply : Except Error Reply) (g : Frame ε),
      Verdict.of (fun p (s : Stage ι (Backstage ε)) => look p s.extra.state) (g.on s).host reply =
        Verdict.of look g.host reply := by
    intro reply g
    cases reply with
    | error e => rfl
    | ok reply => cases reply <;> rfl
  unfold turn
  rw [Cell.invoke_onStage]
  simp only [hverdict]
  rfl

theorem follow_onStage (h : Host ι ε) (look : Promise → ε → Option Settlement) (c : Chain ι)
    (i : Nat) (incoming : Option Value) (s : Stage ι (Backstage ε)) (f : Frame ε) :
    follow h.onStage (fun p s => look p s.extra.state) c i incoming (f.on s) =
      ((follow h look c i incoming f).1, (follow h look c i incoming f).2.1,
        (follow h look c i incoming f).2.2.on s) := by
  fun_induction follow h look c i incoming f with
  | case1 i incoming f hc => rw [follow_of_none hc]
  | case2 i incoming f cell hc j value ho ih =>
    rw [follow_of_onward hc (turn_onStage h look c i cell incoming s f) ho, Turn.on, ih]
  | case3 i incoming f cell hc ho =>
    rw [follow_of_halt hc (turn_onStage h look c i cell incoming s f) ho]
    rfl

end Chain

/-- What comes of firing a chain by itself. -/
structure Launch (ι ε : Type) where
  fired : Fired
  visits : List Visit
  chain : Chain ι
  state : ε

/-- What comes of looking after a suspended firing of a chain by itself. -/
structure Progress (ι ε : Type) where
  polled : Polled
  visits : List Visit
  chain : Chain ι
  state : ε
  rejections : List Rejection

def Fired.of (id : ChainId) (ctx : Context) : Halt → Fired
  | .done value => .done ⟨value, ctx⟩
  | .failed e => .failed e ctx
  | .rejected why => .suspended ⟨id, .settled (.rejected why), none, ctx⟩
  | .waiting p next => .suspended ⟨id, p, next, ctx⟩

def Chain.opening (c : Chain ι) (event : Event) (ctx : Context) (state : σ) : Frame σ :=
  ⟨ctx.withEvent event, .empty, c.cuts, state⟩

def Chain.launch (h : Host ι ε) (id : ChainId) (c : Chain ι) (event : Event) (ctx : Context)
    (state : ε) : Launch ι ε :=
  let r := c.follow h (fun _ _ => none) 0 c.initial (c.opening event ctx state)
  ⟨.of id r.2.2.ctx r.2.1, r.1, c.leave r.2.2, r.2.2.host⟩

def Progress.of (h : Host ι ε) (id : ChainId) (c : Chain ι) :
    List Visit × Halt × Frame ε → Progress ι ε
  | (visits, .done value, g) => ⟨.done ⟨value, g.ctx⟩, visits, c.leave g, g.host, []⟩
  | (visits, .failed e, g) =>
    ⟨.aborted, visits, c.leave g, h.reject (Stage.rejectionOf e) g.host, [Stage.rejectionOf e]⟩
  | (visits, .rejected why, g) => ⟨.aborted, visits, c.leave g, h.reject why g.host, [why]⟩
  | (visits, .waiting p next, g) => ⟨.waiting ⟨id, p, next, g.ctx⟩, visits, c.leave g, g.host, []⟩

/-- Looks after a suspended firing of a chain that is at rest. -/
def Chain.proceed (h : Host ι ε) (c : Chain ι) (f : Suspended) (state : ε) : Progress ι ε :=
  match h.settlement? f.promise state with
  | none => ⟨.waiting f, [], c, state, []⟩
  | some (.rejected why) => ⟨.aborted, [], c, h.reject why state, [why]⟩
  | some (.fulfilled value) =>
    match f.next with
    | none => ⟨.done ⟨value, f.ctx⟩, [], c, state, []⟩
    | some i => .of h f.chain c
      (c.follow h h.settlement? i value ⟨f.ctx, c.stack, c.cuts, state⟩)

namespace Stage

def leave (id : ChainId) (c : Chain ι) (state : ε) (rejections : List Rejection)
    (s : Stage ι (Backstage ε)) : Stage ι (Backstage ε) :=
  { s with
    slots := s.slots.set id.index ⟨c, false⟩
    extra := ⟨state, s.extra.rejections ++ rejections⟩ }

theorem takeChain_of_rest {id : ChainId} {s : Stage ι σ} {c : Chain ι}
    (hc : s.slots[id.index]? = some ⟨c, false⟩) :
    s.takeChain id = some (c, { s with slots := s.slots.set id.index ⟨c, true⟩ }) := by
  simp only [takeChain, hc]

theorem leave_slot {id : ChainId} {s : Stage ι (Backstage ε)} {x : Slot ι}
    (hs : s.slots[id.index]? = some x) (c : Chain ι) (state : ε) (rejections : List Rejection) :
    (s.leave id c state rejections).slots[id.index]? = some ⟨c, false⟩ := by
  obtain ⟨hi, -⟩ := List.getElem?_eq_some_iff.mp hs
  exact List.getElem?_set_self hi

theorem leave_self {id : ChainId} {s : Stage ι (Backstage ε)} {c : Chain ι}
    (hc : s.slots[id.index]? = some ⟨c, false⟩) (state : ε) (rejections : List Rejection) :
    s.leave id c state rejections =
      { s with extra := ⟨state, s.extra.rejections ++ rejections⟩ } := by
  obtain ⟨hi, he⟩ := List.getElem?_eq_some_iff.mp hc
  rw [leave, ← he, List.set_getElem_self]

theorem chainFire_onStage (h : Host ι ε) (c : Chain ι) (ctx : Context)
    (s : Stage ι (Backstage ε)) :
    c.fire h.onStage ctx s =
      let r := c.follow h (fun _ _ => none) 0 c.initial ⟨ctx, .empty, c.cuts, s.extra.state⟩
      (r.2.1, c.leave r.2.2, r.2.2.ctx, s.withState r.2.2.host) := by
  have hrun := Chain.follow_eq_run h.onStage (fun _ _ => none) c 0 c.initial
    (Frame.on s ⟨ctx, .empty, c.cuts, s.extra.state⟩)
  rw [Chain.follow_onStage h (fun _ _ => none), List.drop_zero] at hrun
  unfold Chain.fire
  exact congrArg (fun r => (r.1, c.leave r.2, r.2.ctx, r.2.host)) hrun

theorem chainResume_onStage (h : Host ι ε) (c : Chain ι) (i : Nat) (value : Option Value)
    (ctx : Context) (s : Stage ι (Backstage ε)) :
    c.resume h.onStage i value ctx s =
      let r := c.follow h h.settlement? i value ⟨ctx, c.stack, c.cuts, s.extra.state⟩
      (r.2.1, c.leave r.2.2, r.2.2.ctx, s.withState r.2.2.host) := by
  have hlook : h.onStage.settlement? =
      fun p (s : Stage ι (Backstage ε)) => h.settlement? p s.extra.state := by
    funext p s
    exact settlement_onStage h p s
  have hrun := Chain.follow_eq_run h.onStage h.onStage.settlement? c i value
    (Frame.on s ⟨ctx, c.stack, c.cuts, s.extra.state⟩)
  rw [hlook, Chain.follow_onStage h h.settlement?] at hrun
  unfold Chain.resume
  rw [hlook]
  exact congrArg (fun r => (r.1, c.leave r.2, r.2.ctx, r.2.host)) hrun

theorem fire_onStage (h : Host ι ε) {id : ChainId} {s : Stage ι (Backstage ε)} {c : Chain ι}
    (hc : s.slots[id.index]? = some ⟨c, false⟩) (event : Event) (ctx : Context) :
    s.fire h.onStage id event ctx =
      ((c.launch h id event ctx s.extra.state).fired,
        s.leave id (c.launch h id event ctx s.extra.state).chain
          (c.launch h id event ctx s.extra.state).state []) := by
  unfold fire Chain.launch Chain.opening
  simp only [takeChain_of_rest hc, chainFire_onStage]
  generalize c.follow h (fun _ _ => none) 0 c.initial _ = r
  obtain ⟨visits, halt, g⟩ := r
  have hstage : putChain id (c.leave g)
      (withState g.host { s with slots := s.slots.set id.index ⟨c, true⟩ }) =
        s.leave id (c.leave g) g.host [] := by
    simp [putChain, withState, leave]
  cases halt <;> simp only [hstage] <;> rfl

theorem poll_onStage (h : Host ι ε) {f : Suspended} {s : Stage ι (Backstage ε)} {c : Chain ι}
    (hc : s.slots[f.chain.index]? = some ⟨c, false⟩) :
    s.poll h.onStage f =
      ((c.proceed h f s.extra.state).polled,
        s.leave f.chain (c.proceed h f s.extra.state).chain
          (c.proceed h f s.extra.state).state (c.proceed h f s.extra.state).rejections) := by
  unfold poll Chain.proceed
  rw [settlement_onStage]
  cases hp : h.settlement? f.promise s.extra.state with
  | none => simp [leave_self hc]
  | some settlement =>
    cases settlement with
    | rejected why =>
      simp only [leave_self hc]
      rfl
    | fulfilled value =>
      cases hn : f.next with
      | none => simp [leave_self hc]
      | some i =>
        simp only [takeChain_of_rest hc, chainResume_onStage]
        generalize c.follow h h.settlement? i value _ = r
        obtain ⟨visits, halt, g⟩ := r
        have hstage : putChain f.chain (c.leave g)
            (withState g.host { s with slots := s.slots.set f.chain.index ⟨c, true⟩ }) =
              { s with
                slots := s.slots.set f.chain.index ⟨c.leave g, false⟩
                extra := ⟨g.host, s.extra.rejections⟩ } := by
          simp [putChain, withState]
        cases halt <;> simp only [hstage] <;> simp [Progress.of, leave, abort, Host.onStage]

end Stage

end AttrChain
