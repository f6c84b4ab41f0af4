import AttrChain.Kit.Host

/-!
What the host of chains keeps up, a run of a chain keeps up, and so does a firing on the stage.
-/

namespace AttrChain

variable {ι σ ε α : Type}

/-- The host keeps `P` up, whatever it is asked: `P` is about the event of the running firing and
the state of the host. -/
structure Host.Keeps (h : Host ι σ) (P : Option Event → σ → Prop) : Prop where
  perform : ∀ body args ctx stack s, P ctx.event s →
    P (h.perform body args ctx stack s).2.1.event (h.perform body args ctx stack s).2.2.2
  findOne : ∀ selector start e s, P e s → P e (h.findOne selector start s).2
  findAll : ∀ selector start e s, P e s → P e (h.findAll selector start s).2
  reject : ∀ why e s, P e s → P e (h.reject why s)

/-- The host leaves alone what `view` shows of its state. -/
def Host.Leaves (h : Host ι σ) (view : σ → α) : Prop :=
  ∀ seen, h.Keeps fun _ s => view s = seen

section Runs

variable {h : Host ι σ} {P : Option Event → σ → Prop}

theorem Query.find_keeps (hk : h.Keeps P) (q : Query) (ctx : Context) (e : Option Event) {s : σ}
    (hp : P e s) : P e (q.find h ctx s).2 := by
  unfold find
  split
  · exact hp
  split
  · exact hp
  split
  · exact hp
  split
  · exact hk.findOne _ _ e s hp
  · exact hk.findAll _ _ e s hp

namespace Cell

theorem perform_keeps (hk : h.Keeps P) (i : Nat) (c : Cell ι) (args : List Value) {f : Frame σ}
    (hp : P f.ctx.event f.host) :
    P (c.perform h i args f).2.ctx.event (c.perform h i args f).2.host := by
  unfold perform
  cases c.op with
  | start => exact hp
  | query q => exact q.find_keeps hk f.ctx f.ctx.event hp
  | call instruction =>
    dsimp only
    cases instruction.action with
    | plain body => exact hk.perform body args f.ctx .empty f.host hp
    | access body => exact hk.perform body args f.ctx f.stack f.host hp
    | prune => exact hp

theorem result_keeps (c : Cell ι) (reply : Except Error Reply) {f : Frame σ}
    (hp : P f.ctx.event f.host) :
    P (c.result reply f).2.ctx.event (c.result reply f).2.host := by
  unfold result
  split
  · split <;> exact hp
  · exact hp

theorem invoke_keeps (hk : h.Keeps P) (i : Nat) (c : Cell ι) (incoming : Option Value)
    {f : Frame σ} (hp : P f.ctx.event f.host) :
    P (c.invoke h i incoming f).2.ctx.event (c.invoke h i incoming f).2.host := by
  unfold invoke
  apply result_keeps
  apply perform_keeps hk
  exact hp

end Cell

namespace Chain

theorem run_keeps (hk : h.Keeps P) (look : Promise → σ → Option Settlement)
    (cells : List (Cell ι)) :
    ∀ (i : Nat) (value : Option Value) (f : Frame σ), P f.ctx.event f.host →
      P (run h look i cells value f).2.ctx.event (run h look i cells value f).2.host := by
  induction cells with
  | nil => exact fun _ _ _ hp => hp
  | cons cell rest ih =>
    intro i value f hp
    have hinvoked := cell.invoke_keeps hk i value hp
    simp only [run]
    -- each way to stop leaves the frame of the cell, each way on is a shorter run
    split
    · exact hinvoked
    · split
      · exact ih _ _ _ hinvoked
      · exact hinvoked
    · split
      · split
        · exact ih _ _ _ hinvoked
        · exact hinvoked
      · exact hinvoked
      · exact hinvoked

theorem fire_keeps (hk : h.Keeps P) (c : Chain ι) (ctx : Context) {s : σ} (hp : P ctx.event s) :
    P (c.fire h ctx s).2.2.1.event (c.fire h ctx s).2.2.2 :=
  run_keeps hk _ c.cells 0 c.initial ⟨ctx, .empty, c.cuts, s⟩ hp

theorem resume_keeps (hk : h.Keeps P) (c : Chain ι) (i : Nat) (value : Option Value)
    (ctx : Context) {s : σ} (hp : P ctx.event s) :
    P (c.resume h i value ctx s).2.2.1.event (c.resume h i value ctx s).2.2.2 :=
  run_keeps hk _ (c.cells.drop i) i value ⟨ctx, c.stack, c.cuts, s⟩ hp

end Chain

end Runs

namespace Stage

section Firings

variable {h : Host ι (Stage ι ε)} {P : Option Event → Stage ι ε → Prop}

def IgnoresSlots (P : Option Event → Stage ι ε → Prop) : Prop :=
  ∀ e s slots, P e s → P e { s with slots }

theorem takeChain_keeps (hs : IgnoresSlots P) {id : ChainId} (e : Option Event) {s t : Stage ι ε}
    {c : Chain ι} (ht : s.takeChain id = some (c, t)) (hp : P e s) : P e t := by
  unfold takeChain at ht
  split at ht
  · cases ht
    exact hs e s _ hp
  · cases ht

theorem fire_keeps (hk : h.Keeps P) (hs : IgnoresSlots P) (id : ChainId) (event : Event)
    (ctx : Context) {s : Stage ι ε} (hp : P (some event) s) :
    P (s.fire h id event ctx).1.ctx.event (s.fire h id event ctx).2 := by
  unfold fire
  dsimp only
  cases ht : s.takeChain id with
  | none => exact hp
  | some taken =>
    obtain ⟨c, t⟩ := taken
    have hfired := c.fire_keeps hk (ctx.withEvent event) (takeChain_keeps hs _ ht hp)
    dsimp only
    generalize c.fire h (ctx.withEvent event) t = r at hfired
    obtain ⟨halt, c', ctx', u⟩ := r
    have hput : P ctx'.event (u.putChain id c') := hs _ _ _ hfired
    cases halt <;> exact hput

theorem poll_keeps {R : Stage ι ε → Prop} (hk : h.Keeps fun _ s => R s)
    (hs : IgnoresSlots fun _ (s : Stage ι ε) => R s) (f : Suspended) {s : Stage ι ε} (hr : R s) :
    R (s.poll h f).2 := by
  have hreject : ∀ why t, R t → R (h.reject why t) := fun why t => hk.reject why none t
  unfold poll abort
  split
  · exact hr
  · exact hreject _ _ hr
  · next value _ =>
    split
    · exact hr
    · next i _ =>
      cases ht : s.takeChain f.chain with
      | none => exact hreject _ _ hr
      | some taken =>
        obtain ⟨c, t⟩ := taken
        have hresumed := c.resume_keeps hk i value f.ctx (takeChain_keeps hs none ht hr)
        dsimp only
        generalize c.resume h i value f.ctx t = r at hresumed
        obtain ⟨halt, c', ctx', u⟩ := r
        have hput : R (u.putChain f.chain c') := hs none _ _ hresumed
        cases halt with
        | done value => exact hput
        | failed e => exact hreject _ _ hput
        | rejected why => exact hreject _ _ hput
        | waiting p next => exact hput

end Firings

section Views

variable {h : Host ι (Stage ι ε)} {view : Stage ι ε → α}

theorem ignoresSlots_of_view (hv : ∀ s slots, view { s with slots } = view s) (seen : α) :
    IgnoresSlots fun _ s => view s = seen :=
  fun _ s slots hs => (hv s slots).trans hs

theorem fire_leaves (hl : h.Leaves view) (hv : ∀ s slots, view { s with slots } = view s)
    (id : ChainId) (event : Event) (ctx : Context) (s : Stage ι ε) :
    view (s.fire h id event ctx).2 = view s :=
  fire_keeps (hl (view s)) (ignoresSlots_of_view hv _) id event ctx rfl

theorem poll_leaves (hl : h.Leaves view) (hv : ∀ s slots, view { s with slots } = view s)
    (f : Suspended) (s : Stage ι ε) : view (s.poll h f).2 = view s :=
  poll_keeps (hl (view s)) (ignoresSlots_of_view hv _) f rfl

end Views

section Deliveries

variable {h : Host ι (Stage ι ε)} {view : Stage ι ε → α}

/-- What `view` shows of the stage is nothing that delivering an event changes by itself. -/
def IgnoresDelivery (view : Stage ι ε → α) : Prop :=
  ∀ s slots listeners records fresh log,
    view { s with slots, listeners, records, fresh, log } = view s

theorem deliver_keeps {R : Stage ι ε → Prop} (hk : h.Keeps fun _ s => R s)
    (hd : ∀ s slots listeners records fresh log,
      R s → R { s with slots, listeners, records, fresh, log })
    (current : NodeId) (event : Event) (chosen : ChainId × NodeId) {s : Stage ι ε} (hr : R s) :
    R (s.deliver h current event chosen).2 := by
  let record : Record := ⟨event.name, event.target, current, chosen.2, .pending, none⟩
  have hfired : R (fire h chosen.1 event (.listener current chosen.2)
      { s with records := s.records ++ [record] }).2 :=
    fire_keeps hk (fun _ t slots => hd t slots _ _ _ _) _ _ _ (hd s _ _ _ _ _ hr)
  dsimp only [deliver]
  split
  · exact hd _ _ _ _ _ _ hfired
  · exact hd _ _ _ _ _ _ hfired
  · exact hd _ _ _ _ _ _ (hd _ _ _ _ _ _ hfired)

theorem deliver_leaves (hl : h.Leaves view) (hv : IgnoresDelivery view) (current : NodeId)
    (event : Event) (s : Stage ι ε) (chosen : ChainId × NodeId) :
    view (s.deliver h current event chosen).2 = view s :=
  deliver_keeps (hl (view s)) (fun t _ _ _ _ _ ht => (hv t _ _ _ _ _).trans ht) current event
    chosen rfl

/-- What holds of the stage whenever a chain is called for a listener holds behind the event, if it
has nothing to do with who listens and what is logged. -/
theorem dispatch_keeps {P : Stage ι ε → Prop}
    (hdeliver : ∀ current event s chosen, P s → P (s.deliver h current event chosen).2)
    (hidle : ∀ s listeners log, P s → P { s with listeners, log }) (event : Event)
    (bubbles : Bool) {s : Stage ι ε} (hs : P s) : P (s.dispatch h event bubbles).2 := by
  have hwarned : ∀ (warnings : List String) (s : Stage ι ε), P s →
      P (warnings.foldl (fun s w => s.note .warn .dispatcher w) s) := by
    intro warnings
    induction warnings with
    | nil => exact fun s hs => hs
    | cons w rest ih => exact fun s hs => ih _ (hidle s s.listeners _ hs)
  have hall : ∀ current (chosen : List (ChainId × NodeId)) (event : Event) (s : Stage ι ε), P s →
      P (chosen.foldl (fun left c => left.2.deliver h current left.1 c) (event, s)).2 := by
    intro current chosen
    induction chosen with
    | nil => exact fun _ s hs => hs
    | cons first rest ih => exact fun event s hs => ih _ _ (hdeliver current event s first hs)
  have halong : ∀ path nodes (event : Event) (s : Stage ι ε), P s →
      P (s.deliverAlong h path nodes event).2 := by
    intro path nodes
    induction nodes with
    | nil => exact fun _ s hs => hs
    | cons current rest ih =>
      intro event s hs
      have hthere : P (s.deliverAt h path event current).2 :=
        hall _ _ _ _ (hwarned _ _ (hidle s _ s.log hs))
      simp only [deliverAlong]
      split
      · exact hidle _ _ _ hthere
      · exact ih _ _ hthere
  exact halong _ _ _ _ (hidle s s.listeners _ hs)

theorem dispatch_leaves (hl : h.Leaves view) (hv : IgnoresDelivery view) (event : Event)
    (bubbles : Bool) (s : Stage ι ε) : view (s.dispatch h event bubbles).2 = view s := by
  apply dispatch_keeps (P := fun t => view t = view s) ?_ ?_ event bubbles rfl
  · intro current event t chosen ht
    exact (deliver_leaves hl hv current event t chosen).trans ht
  · intro t listeners log ht
    exact (hv t _ _ _ _ _).trans ht

end Deliveries

end Stage

/-- What an instruction of the kit may do to the event: it sets one of its flags. -/
structure FlagsFree (P : Option Event → σ → Prop) : Prop where
  prevented : ∀ (e : Event) s, P (some e) s → P (some { e with prevented := true }) s
  stopped : ∀ (e : Event) s, P (some e) s → P (some { e with stopped := true }) s

theorem Control.perform_keeps {P : Option Event → σ → Prop} (hf : FlagsFree P) (c : Control)
    (args : List Value) (ctx : Context) (stack : Stack) {s : σ} (hp : P ctx.event s) :
    P (c.perform args ctx stack).2.1.event s := by
  have hprevent : P ctx.preventDefault.event s := by
    dsimp only [Context.preventDefault]
    cases he : ctx.event with
    | none => simpa only [he, Option.map_none] using hp
    | some e => exact hf.prevented e s (he ▸ hp)
  have hstop : P ctx.stopPropagation.event s := by
    dsimp only [Context.stopPropagation]
    cases he : ctx.event with
    | none => simpa only [he, Option.map_none] using hp
    | some e => exact hf.stopped e s (he ▸ hp)
  cases c <;> dsimp only [perform]
  case nil => split <;> exact hp
  case spread =>
    split
    · exact hp
    · split <;> exact hp
  case avoid =>
    split
    · exact hprevent
    · exact hp
  case stop =>
    split
    · exact hstop
    · exact hp
  all_goals exact hp

theorem Compute.perform_event (c : Compute) (args : List Value) (ctx : Context) (d : Document) :
    (c.perform args ctx d).2.event = ctx.event := by
  cases c <;> dsimp only [perform]
  case attr => split <;> rfl

namespace Stage

def IgnoresDocument (P : Option Event → Stage ι ε → Prop) : Prop :=
  ∀ e s document log, P e s → P e { s with document, log }

theorem host_keeps (settings : Settings) {P : Option Event → Stage Kit ε → Prop}
    (hf : FlagsFree P) (hd : IgnoresDocument P) : (host settings).Keeps P where
  perform body args ctx stack s hp := by
    apply hd
    cases body with
    | control c => exact c.perform_keeps hf args ctx stack hp
    | compute c => exact (c.perform_event args ctx s.document).symm ▸ hp
    | change c => exact hp
  findOne selector start e s hp := by
    dsimp only [host, findOne, findAll]
    split
    · exact hp
    · exact hd e s _ _ hp
  findAll selector start e s hp := by
    dsimp only [host, findAll]
    split
    · exact hp
    · exact hd e s _ _ hp
  reject why e s hp := by
    dsimp only [host, logRejection]
    split
    · exact hd e s _ _ hp
    · exact hp

theorem host_leaves (settings : Settings) {view : Stage Kit ε → α}
    (hv : ∀ s document log, view { s with document, log } = view s) :
    (host settings).Leaves view := by
  intro seen
  apply host_keeps settings
  · exact ⟨fun _ _ hs => hs, fun _ _ hs => hs⟩
  · intro e s document log hs
    exact (hv s document log).trans hs

end Stage

end AttrChain
