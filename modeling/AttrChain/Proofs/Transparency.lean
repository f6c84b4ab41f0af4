import AttrChain.Proofs.Backstage
import AttrChain.Proofs.Deferral

/-!
Transparency of suspension: a firing that is suspended at any of its calls, and looked after until
it comes to its end, ends as it does without a promise.
-/

namespace AttrChain

variable {ι ω σ : Type}

namespace Stage

/-- A suspended firing is looked after until it comes to its end; in between, `pass` happens. -/
inductive Driven (h : Host ι (Stage ι σ)) (pass : Stage ι σ → Stage ι σ) :
    Suspended → Stage ι σ → Polled → Stage ι σ → Prop where
  | done {f : Suspended} {s t : Stage ι σ} {o : Outcome} :
      s.poll h f = (.done o, t) → Driven h pass f s (.done o) t
  | aborted {f : Suspended} {s t : Stage ι σ} :
      s.poll h f = (.aborted, t) → Driven h pass f s .aborted t
  | waited {f g : Suspended} {s t u : Stage ι σ} {r : Polled} :
      s.poll h f = (.waiting g, t) → Driven h pass g (pass t) r u → Driven h pass f s r u

/-- What was fired comes to its end: at once, or after it was looked after. -/
inductive Ends (h : Host ι (Stage ι σ)) (pass : Stage ι σ → Stage ι σ) :
    Fired × Stage ι σ → Polled → Stage ι σ → Prop where
  | atOnce (o : Outcome) (s : Stage ι σ) : Ends h pass (.done o, s) (.done o) s
  | driven {f : Suspended} {s t : Stage ι σ} {r : Polled} :
      Driven h pass f s r t → Ends h pass (.suspended f, s) r t

theorem Driven.unique {h : Host ι (Stage ι σ)} {pass : Stage ι σ → Stage ι σ} {f : Suspended}
    {s t t' : Stage ι σ} {r r' : Polled} (hr : Driven h pass f s r t)
    (hr' : Driven h pass f s r' t') : r = r' ∧ t = t' := by
  induction hr with
  | done hpoll =>
    cases hr' with
    | done hpoll' =>
      cases hpoll.symm.trans hpoll'
      exact ⟨rfl, rfl⟩
    | aborted hpoll' | waited hpoll' _ => cases hpoll.symm.trans hpoll'
  | aborted hpoll =>
    cases hr' with
    | aborted hpoll' =>
      cases hpoll.symm.trans hpoll'
      exact ⟨rfl, rfl⟩
    | done hpoll' | waited hpoll' _ => cases hpoll.symm.trans hpoll'
  | waited hpoll _ ih =>
    cases hr' with
    | done hpoll' | aborted hpoll' => cases hpoll.symm.trans hpoll'
    | waited hpoll' hrest =>
      cases hpoll.symm.trans hpoll'
      exact ih hrest

def tick (s : Stage ι (Backstage (Owing ω))) : Stage ι (Backstage (Owing ω)) :=
  s.withState s.extra.state.tick

end Stage

def Halt.polled (ctx : Context) : Halt → Polled
  | done value => .done ⟨value, ctx⟩
  | _ => .aborted

def Halt.rejections : Halt → List Rejection
  | failed e => [Stage.rejectionOf e]
  | rejected why => [why]
  | _ => []

theorem settlement_paid (b : Behaviour ι ω) {s : Owing ω} {k : Nat} {value : Option Value}
    (hk : s.debts[k]? = some ⟨value, 0⟩) :
    b.deferring.settlement? (.ticket k) s = some (.fulfilled value) := by
  simp [Host.settlement?, Behaviour.deferring, hk]

theorem settlement_owed (b : Behaviour ι ω) {s : Owing ω} {k looks : Nat} {value : Option Value}
    (hk : s.debts[k]? = some ⟨value, looks + 1⟩) :
    b.deferring.settlement? (.ticket k) s = none := by
  simp [Host.settlement?, Behaviour.deferring, hk]

theorem Owing.tick_debt {s : Owing ω} {k looks : Nat} {value : Option Value}
    (hk : s.debts[k]? = some ⟨value, looks⟩) :
    s.tick.debts[k]? = some ⟨value, looks - 1⟩ := by
  simp [Owing.tick, hk]

theorem driven_of_paid (b : Behaviour ι ω) {f : Suspended} {d : Chain (ι × Option Nat)} {k : Nat}
    {value : Option Value} (hf : f.promise = .ticket k) (looks : Nat) :
    ∀ s : Stage (ι × Option Nat) (Backstage (Owing ω)),
      s.slots[f.chain.index]? = some ⟨d, false⟩ →
      s.extra.state.debts[k]? = some ⟨value, looks⟩ →
      ∃ debts, debts[k]? = some ⟨value, 0⟩ ∧
        ∀ r t, Stage.Driven b.deferring.onStage Stage.tick f
            (s.withState ⟨s.extra.state.world, debts⟩) r t →
          Stage.Driven b.deferring.onStage Stage.tick f s r t := by
  -- Each look in vain leaves the stage as it is and brings the debt nearer.
  induction looks with
  | zero =>
    intro s _ hk
    refine ⟨s.extra.state.debts, hk, ?_⟩
    intro r t hd
    exact hd
  | succ looks ih =>
    intro s hslot hk
    have hpoll : s.poll b.deferring.onStage f = (.waiting f, s) := by
      unfold Stage.poll
      rw [settlement_onStage, hf, settlement_owed b hk]
    obtain ⟨debts, hpaid, hdriven⟩ := ih s.tick hslot (Owing.tick_debt hk)
    refine ⟨debts, hpaid, ?_⟩
    intro r t hd
    exact .waited hpoll (hdriven r t hd)

/-- The same debts at a later time. -/
structure Owing.Aged (s t : Owing ω) : Prop where
  world : t.world = s.world
  debts : ∀ (k : Nat) (value : Option Value) (looks : Nat), s.debts[k]? = some ⟨value, looks⟩ →
    ∃ later, t.debts[k]? = some ⟨value, later⟩

theorem Owing.aged_refl (s : Owing ω) : s.Aged s :=
  ⟨rfl, fun _ _ looks hk => ⟨looks, hk⟩⟩

theorem Owing.aged_tick (s : Owing ω) : s.Aged s.tick :=
  ⟨rfl, fun _ _ looks hk => ⟨looks - 1, tick_debt hk⟩⟩

/-- What comes of a suspended firing of the deferred chain once its debt is paid. -/
def Progress.paid (b : Behaviour ι ω) (plan : Nat → Option Nat) (c : Chain ι) (id : ChainId)
    (value : Option Value) (debts : List Debt) (f : Frame ω) :
    Option Nat → Progress (ι × Option Nat) (Owing ω)
  | none => ⟨.done ⟨value, f.ctx⟩, [], (c.defer plan).leave (f.owe debts), ⟨f.host, debts⟩, []⟩
  | some j => .of b.deferring id ((c.defer plan).leave (f.owe debts))
      ((c.defer plan).follow b.deferring b.deferring.settlement? j value (f.owe debts))

theorem proceed_paid (b : Behaviour ι ω) (plan : Nat → Option Nat) (c : Chain ι) (id : ChainId)
    {k : Nat} {value : Option Value} {debts : List Debt} (hk : debts[k]? = some ⟨value, 0⟩)
    (f : Frame ω) (next : Option Nat) :
    ((c.defer plan).leave (f.owe debts)).proceed b.deferring ⟨id, .ticket k, next, f.ctx⟩
        ⟨f.host, debts⟩ = .paid b plan c id value debts f next := by
  unfold Chain.proceed Progress.paid
  simp only [settlement_paid b (s := ⟨f.host, debts⟩) hk]
  cases next with
  | none => rfl
  | some j =>
    simp only [Chain.follow_leave]
    rfl

/-- A firing of the deferred chain that waits for a debt goes on when the debt is paid, and until
then nothing else happens. -/
theorem driven_goes_on (b : Behaviour ι ω) (plan : Nat → Option Nat) (c : Chain ι) (id : ChainId)
    {k looks : Nat} {value : Option Value} {f : Frame ω} {debts : List Debt} (next : Option Nat)
    {s : Stage (ι × Option Nat) (Backstage (Owing ω))}
    (hslot : s.slots[id.index]? = some ⟨(c.defer plan).leave (f.owe debts), false⟩)
    (hworld : s.extra.state.world = f.host)
    (hk : s.extra.state.debts[k]? = some ⟨value, looks⟩) :
    ∃ later, ∃ s' : Stage (ι × Option Nat) (Backstage (Owing ω)),
      s'.slots = s.slots ∧ s'.extra.rejections = s.extra.rejections ∧
      s'.poll b.deferring.onStage ⟨id, .ticket k, next, f.ctx⟩ =
        ((Progress.paid b plan c id value later f next).polled,
          s'.leave id (Progress.paid b plan c id value later f next).chain
            (Progress.paid b plan c id value later f next).state
            (Progress.paid b plan c id value later f next).rejections) ∧
      ∀ r t, Stage.Driven b.deferring.onStage Stage.tick ⟨id, .ticket k, next, f.ctx⟩ s' r t →
        Stage.Driven b.deferring.onStage Stage.tick ⟨id, .ticket k, next, f.ctx⟩ s r t := by
  obtain ⟨later, hpaid, hdriven⟩ := driven_of_paid b (f := ⟨id, .ticket k, next, f.ctx⟩) rfl looks s
    hslot hk
  rw [hworld] at hdriven
  have hslot' : (s.withState ⟨f.host, later⟩).slots[id.index]? =
      some ⟨(c.defer plan).leave (f.owe later), false⟩ := hslot
  have hpoll := Stage.poll_onStage b.deferring (f := ⟨id, .ticket k, next, f.ctx⟩) hslot'
  rw [Stage.withState_state, proceed_paid b plan c id hpaid f next] at hpoll
  exact ⟨later, s.withState ⟨f.host, later⟩, rfl, rfl, hpoll, hdriven⟩

/-- A firing of the deferred chain that waits comes to the end of the run without promises. -/
structure DrivenTo (b : Behaviour ι ω) (plan : Nat → Option Nat) (c : Chain ι) (f : Suspended)
    (s : Stage (ι × Option Nat) (Backstage (Owing ω))) (halt : Halt) (g : Frame ω)
    (t : Stage (ι × Option Nat) (Backstage (Owing ω))) : Prop where
  driven : Stage.Driven b.deferring.onStage Stage.tick f s (halt.polled g.ctx) t
  slot : ∃ debts, t.slots[f.chain.index]? = some ⟨(c.defer plan).leave (g.owe debts), false⟩
  heard : t.extra.rejections = s.extra.rejections ++ halt.rejections

theorem catchesUp_driven {b : Behaviour ι ω} {plan : Nat → Option Nat} {c : Chain ι}
    {r : Halt × Frame (Owing ω)} {r' : Halt × Frame ω} (hr : Chain.CatchesUp b plan c r r')
    (hend : r'.1.isEnd = true) (id : ChainId) :
    ∀ p next, r.1 = .waiting p next → ∀ s : Stage (ι × Option Nat) (Backstage (Owing ω)),
      s.slots[id.index]? = some ⟨(c.defer plan).leave r.2, false⟩ →
      r.2.host.Aged s.extra.state →
      ∃ t, DrivenTo b plan c ⟨id, p, next, r.2.ctx⟩ s r'.1 r'.2 t := by
  induction hr with
  | level halt g debts =>
    intro p next hw
    dsimp only at hw hend
    rw [hw] at hend
    cases hend
  | @last debts k looks value g hk =>
    intro p next hw s hslot haged
    cases hw
    obtain ⟨later, hlater⟩ := haged.debts k value looks hk
    obtain ⟨paid, s', hslots, hheard, hpoll, hdriven⟩ :=
      driven_goes_on b plan c id none hslot haged.world hlater
    rw [← hslots] at hslot
    refine ⟨_, hdriven _ _ (.done hpoll), ⟨paid, Stage.leave_slot hslot ..⟩, ?_⟩
    exact congrArg (· ++ []) hheard
  | @next debts k looks j value f r' hk hnext ih =>
    intro p next hw s hslot haged
    cases hw
    obtain ⟨later, hlater⟩ := haged.debts k value looks hk
    obtain ⟨paid, s', hslots, hheard, hpoll, hdriven⟩ :=
      driven_goes_on b plan c id (some j) hslot haged.world hlater
    rw [← hslots] at hslot
    have hcatches := hnext paid
    have hrest := ih paid hend
    simp only [Progress.paid] at hpoll
    generalize (c.defer plan).follow b.deferring b.deferring.settlement? j value (f.owe paid) = run
      at hpoll hcatches hrest
    obtain ⟨visits, halt, g⟩ := run
    rcases hcatches.waits_or_level with ⟨p, next, hwait⟩ | ⟨last, hlevel⟩
    · -- The firing waits once more, and what is left of it is looked after in the same way.
      cases hwait
      obtain ⟨t, ht⟩ := hrest p next rfl (s'.leave id ((c.defer plan).leave g) g.host []).tick
        (Stage.leave_slot hslot ..) (Owing.aged_tick g.host)
      refine ⟨t, hdriven _ _ (.waited hpoll ht.driven), ht.slot, ?_⟩
      rw [ht.heard, ← hheard]
      exact congrArg (· ++ r'.1.rejections) (List.append_nil s'.extra.rejections)
    · cases hlevel
      have hslot' := Stage.leave_slot hslot ((c.defer plan).leave (r'.2.owe last))
      have hheard' := congrArg (· ++ r'.1.rejections) hheard
      cases hhalt : r'.1 with
      | done v =>
        rw [hhalt] at hpoll hheard'
        exact ⟨_, hdriven _ _ (.done hpoll), ⟨last, hslot' ..⟩, hheard'⟩
      | failed e =>
        rw [hhalt] at hpoll hheard'
        exact ⟨_, hdriven _ _ (.aborted hpoll), ⟨last, hslot' ..⟩, hheard'⟩
      | rejected why =>
        rw [hhalt] at hend
        cases hend
      | waiting p next =>
        rw [hhalt] at hend
        cases hend

theorem Fired.of_eq_done {id : ChainId} {ctx : Context} {halt : Halt} {o : Outcome}
    (h : Fired.of id ctx halt = .done o) : halt = .done o.value ∧ o = ⟨o.value, ctx⟩ := by
  cases halt <;> cases h
  exact ⟨rfl, rfl⟩

theorem Fired.of_eq_failed {id : ChainId} {ctx ctx' : Context} {halt : Halt} {e : Error}
    (h : Fired.of id ctx halt = .failed e ctx') : halt = .failed e ∧ ctx' = ctx := by
  cases halt <;> cases h
  exact ⟨rfl, rfl⟩

theorem fire_ofChains (h : Host ι ω) (c : Chain ι) (w : ω) (event : Event) (ctx : Context)
    {visits : List Visit} {halt : Halt} {g : Frame ω}
    (hr : c.follow h (fun _ _ => none) 0 c.initial (c.opening event ctx w) = (visits, halt, g)) :
    (Stage.ofChains [c] w).fire h.onStage ⟨0⟩ event ctx =
      (.of ⟨0⟩ g.ctx halt, (Stage.ofChains [c] w).leave ⟨0⟩ (c.leave g) g.host []) := by
  rw [Stage.fire_onStage h rfl event ctx]
  simp only [Chain.launch, show (Stage.ofChains [c] w).extra.state = w from rfl, hr]

variable (b : Behaviour ι ω) (plan : Nat → Option Nat) (c : Chain ι) (w : ω) (event : Event)
  (ctx : Context)

def Chain.lateRun : List Visit × Halt × Frame (Owing ω) :=
  (c.defer plan).follow b.deferring (fun _ _ => none) 0 c.initial ((c.opening event ctx w).owe [])

theorem fire_defer {visits : List Visit} {halt : Halt} {f : Frame (Owing ω)}
    (hr : c.lateRun b plan w event ctx = (visits, halt, f)) :
    (Stage.ofChains [c.defer plan] ⟨w, []⟩).fire b.deferring.onStage ⟨0⟩ event ctx =
      (.of ⟨0⟩ f.ctx halt,
        (Stage.ofChains [c.defer plan] ⟨w, []⟩).leave ⟨0⟩ ((c.defer plan).leave f) f.host []) :=
  fire_ofChains b.deferring (c.defer plan) ⟨w, []⟩ event ctx hr

variable {b c w event ctx} {visits : List Visit} {halt : Halt} {g : Frame ω}

theorem lateRun_catchesUp (hend : halt.isEnd = true)
    (hr : c.follow b.host (fun _ _ => none) 0 c.initial (c.opening event ctx w) =
      (visits, halt, g)) :
    Chain.CatchesUp b plan c (c.lateRun b plan w event ctx).2 (halt, g) := by
  have hcatches := Chain.follow_catchesUp b plan c 0 c.initial (c.opening event ctx w)
  rw [hr] at hcatches
  exact hcatches hend (fun _ _ => none) [] (Or.inl rfl)

theorem held_up_ends (hend : halt.isEnd = true)
    (hr : c.follow b.host (fun _ _ => none) 0 c.initial (c.opening event ctx w) =
      (visits, halt, g))
    {p : Promise} {next : Option Nat}
    (hlate : (c.lateRun b plan w event ctx).2.1 = .waiting p next) :
    ∃ t, Stage.Ends b.deferring.onStage Stage.tick
        ((Stage.ofChains [c.defer plan] ⟨w, []⟩).fire b.deferring.onStage ⟨0⟩ event ctx)
        (halt.polled g.ctx) t ∧
      t.extra.rejections = halt.rejections ∧
      ∃ debts, t.chain? ⟨0⟩ = some ((c.defer plan).leave (g.owe debts)) := by
  have hcatches := lateRun_catchesUp plan hend hr
  cases hrun : c.lateRun b plan w event ctx with
  | mk visits' r =>
    obtain ⟨late, f⟩ := r
    rw [hrun] at hlate hcatches
    cases hlate
    obtain ⟨t, ht⟩ := catchesUp_driven hcatches hend ⟨0⟩ p next rfl
      ((Stage.ofChains [c.defer plan] ⟨w, []⟩).leave ⟨0⟩ ((c.defer plan).leave f) f.host []) rfl
      (Owing.aged_refl f.host)
    obtain ⟨debts, hslot⟩ := ht.slot
    rw [fire_defer b plan c w event ctx hrun]
    refine ⟨t, .driven ht.driven, ht.heard, debts, ?_⟩
    simp only [Stage.chain?, show t.slots[_]? = _ from hslot, Option.map_some]

theorem done_transparent {value : Option Value}
    (hr : c.follow b.host (fun _ _ => none) 0 c.initial (c.opening event ctx w) =
      (visits, .done value, g)) :
    ∃ t, Stage.Ends b.deferring.onStage Stage.tick
        ((Stage.ofChains [c.defer plan] ⟨w, []⟩).fire b.deferring.onStage ⟨0⟩ event ctx)
        (.done ⟨value, g.ctx⟩) t ∧
      t.extra.rejections = [] ∧
      ∃ debts, t.chain? ⟨0⟩ = some ((c.defer plan).leave (g.owe debts)) := by
  have hcatches := lateRun_catchesUp plan rfl hr
  rcases hcatches.waits_or_level with ⟨p, next, hwait⟩ | ⟨debts, hlevel⟩
  · exact held_up_ends plan rfl hr hwait
  · cases hrun : c.lateRun b plan w event ctx with
    | mk visits' r =>
      rw [hrun] at hlevel
      cases hlevel
      rw [fire_defer b plan c w event ctx hrun]
      exact ⟨_, .atOnce _ _, rfl, debts, rfl⟩

/-- A firing whose calls all return at once, against the same firing with any of the results
deferred: a value is reached just the same, with the same context, stack and links; an error is
returned just the same if nothing was deferred before it, else it gives the firing up, and the sink
hears of it once. -/
theorem suspension_transparent (b : Behaviour ι ω) (w : ω) (c : Chain ι)
    (plan : Nat → Option Nat) (event : Event) (ctx : Context) :
    let prompt := (Stage.ofChains [c] w).fire b.host.onStage ⟨0⟩ event ctx
    let late := (Stage.ofChains [c.defer plan] ⟨w, []⟩).fire b.deferring.onStage ⟨0⟩ event ctx
    let before := (c.launch b.host ⟨0⟩ event ctx w).visits.dropLast
    (∀ o, prompt.1 = .done o →
      ∃ t, Stage.Ends b.deferring.onStage Stage.tick late (.done o) t ∧ t.extra.rejections = [] ∧
        ∃ d d', prompt.2.chain? ⟨0⟩ = some d ∧ t.chain? ⟨0⟩ = some d' ∧
          d'.stack = d.stack ∧ ∀ i, d'.next? i = d.next? i) ∧
    (∀ e ctx', prompt.1 = .failed e ctx' →
      ((∀ v ∈ before, c.defers plan v.place = false) →
        late.1 = .failed e ctx' ∧ late.2.extra.rejections = []) ∧
      ((∃ v ∈ before, c.defers plan v.place = true) →
        ∃ t, Stage.Ends b.deferring.onStage Stage.tick late .aborted t ∧
          t.extra.rejections = [⟨some ("err: " ++ e.message)⟩])) := by
  intro prompt late before
  cases hr : c.follow b.host (fun _ _ => none) 0 c.initial (c.opening event ctx w) with
  | mk visits r =>
    obtain ⟨halt, g⟩ := r
    have hprompt : prompt = _ := fire_ofChains b.host c w event ctx hr
    have hbefore : before = visits.dropLast := by simp only [before, Chain.launch, hr]
    rw [hprompt, hbefore]
    refine ⟨?_, ?_⟩
    · intro o ho
      obtain ⟨rfl, houtcome⟩ := Fired.of_eq_done ho
      obtain ⟨t, hends, hheard, debts, hchain⟩ := done_transparent plan hr
      rw [← houtcome] at hends
      refine ⟨t, hends, hheard, c.leave g, (c.defer plan).leave (g.owe debts), rfl, hchain, rfl, ?_⟩
      intro i
      exact Chain.defer_next c plan g (g.owe debts) rfl i
    · intro e ctx' he
      obtain ⟨rfl, rfl⟩ := Fired.of_eq_failed he
      have hfailed := Chain.follow_defer_failed b plan c 0 c.initial (c.opening event ctx w)
        (e := e) (by rw [hr]) []
      rw [hr] at hfailed
      refine ⟨?_, ?_⟩
      · intro hnone
        cases hrun : c.lateRun b plan w event ctx with
        | mk visits' r =>
          have hlevel : (c.lateRun b plan w event ctx).2 = (.failed e, g.owe []) :=
            hfailed.2 hnone
          rw [hrun] at hlevel
          cases hlevel
          have hlate : late = _ := fire_defer b plan c w event ctx hrun
          rw [hlate]
          exact ⟨rfl, rfl⟩
      · intro hsome
        obtain ⟨p, next, hwait⟩ := hfailed.1 hsome
        obtain ⟨t, hends, hheard, -⟩ := held_up_ends plan rfl hr hwait
        exact ⟨t, hends, hheard⟩

/-- A firing of the chain of which all calls are deferred for two looks. -/
def lateEcho (replies : List (Except Error Reply)) :
    Fired × Stage (Except Error Reply × Option Nat) (Backstage (Owing (Nat → Option Settlement))) :=
  (Stage.ofChains [(Chain.echoing replies).defer fun _ => some 2] ⟨fun _ => none, []⟩).fire
    Behaviour.echo.deferring.onStage ⟨0⟩ (.fresh "click" ⟨0⟩ none) .blank

theorem lateEcho_transparent :
    (∃ t, Stage.Ends Behaviour.echo.deferring.onStage Stage.tick
        (lateEcho [.ok .nothing, .ok (.value (.bool true))])
        (.done ⟨some (.bool true), .withEvent (.fresh "click" ⟨0⟩ none) .blank⟩) t) ∧
    ∃ t, Stage.Ends Behaviour.echo.deferring.onStage Stage.tick
        (lateEcho [.ok .nothing, .error .busy]) .aborted t ∧
      t.extra.rejections = [⟨some ("err: " ++ Error.busy.message)⟩] := by
  have hdone := (suspension_transparent Behaviour.echo (fun _ => none)
    (.echoing [.ok .nothing, .ok (.value (.bool true))]) (fun _ => some 2)
    (.fresh "click" ⟨0⟩ none) .blank).1 _ rfl
  have hfailed := (suspension_transparent Behaviour.echo (fun _ => none)
    (.echoing [.ok .nothing, .error .busy]) (fun _ => some 2)
    (.fresh "click" ⟨0⟩ none) .blank).2 .busy _ rfl
  obtain ⟨t, hends, -⟩ := hdone
  exact ⟨⟨t, hends⟩, hfailed.2 (by decide +kernel)⟩

end AttrChain
