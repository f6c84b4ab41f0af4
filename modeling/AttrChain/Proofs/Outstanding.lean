import AttrChain.Proofs.Course
import AttrChain.Proofs.Delivery

/-!
Which firings are outstanding while chains are called one after the other, and that none is once the
stage has settled.
-/

namespace AttrChain

variable {ι ε σ : Type}

/-- No instruction leaves a ticket open: what it promises is settled already. -/
def Host.Prompt (h : Host ι σ) : Prop :=
  ∀ body args ctx stack s p, (h.perform body args ctx stack s).1 = .ok (.pending p) →
    ∃ x, p = .settled x

section Runs

variable {h : Host ι σ}

namespace Cell

theorem perform_prompt (hp : h.Prompt) {i : Nat} {c : Cell ι} {args : List Value} {f : Frame σ}
    {p : Promise} (hr : (c.perform h i args f).1 = .ok (.pending p)) : ∃ x, p = .settled x := by
  unfold perform at hr
  cases ho : c.op with
  | start => simp [ho, Reply.nothing] at hr
  | query q => simp [ho, Reply.nothing] at hr
  | call instruction =>
    cases ha : instruction.action with
    | plain body =>
      simp only [ho, ha] at hr
      exact hp _ _ _ _ _ _ hr
    | access body =>
      simp only [ho, ha] at hr
      exact hp _ _ _ _ _ _ hr
    | prune => simp [ho, ha, Reply.nothing] at hr

theorem result_pending {c : Cell ι} {reply : Except Error Reply} {f : Frame σ} {p : Promise}
    (hr : (c.result reply f).1 = .ok (.pending p)) : reply = .ok (.pending p) := by
  unfold result at hr
  split at hr
  · split at hr <;> cases hr
  · exact hr

theorem invoke_prompt (hp : h.Prompt) {i : Nat} {c : Cell ι} {incoming : Option Value}
    {f : Frame σ} {p : Promise} (hr : (c.invoke h i incoming f).1 = .ok (.pending p)) :
    ∃ x, p = .settled x :=
  perform_prompt hp (result_pending hr)

end Cell

/-- A run waits for nothing but a promise that it does not look at. -/
theorem Chain.run_waiting (hp : h.Prompt) {look : Promise → σ → Option Settlement}
    {cells : List (Cell ι)} {i : Nat} {value : Option Value} {f : Frame σ} {p : Promise}
    {next : Option Nat} (hr : (run h look i cells value f).1 = .waiting p next) :
    ∃ x s, p = .settled x ∧ look p s = none := by
  induction cells generalizing i value f with
  | nil => cases hr
  | cons cell rest ih =>
    simp only [run] at hr
    split at hr
    · cases hr
    · split at hr
      · exact ih hr
      · cases hr
    next q hq =>
      split at hr
      · split at hr
        · exact ih hr
        · cases hr
      · cases hr
      next hlook =>
        cases hr
        obtain ⟨x, hx⟩ := Cell.invoke_prompt hp hq
        exact ⟨x, _, hx, hlook⟩

theorem Chain.fire_waiting (hp : h.Prompt) {c : Chain ι} {ctx : Context} {s : σ} {p : Promise}
    {next : Option Nat} (hr : (c.fire h ctx s).1 = .waiting p next) : ∃ x, p = .settled x := by
  obtain ⟨x, _, hx, -⟩ := run_waiting hp hr
  exact ⟨x, hx⟩

theorem Chain.resume_not_waiting (hp : h.Prompt) {c : Chain ι} {i : Nat} {value : Option Value}
    {ctx : Context} {s : σ} {p : Promise} {next : Option Nat} :
    (c.resume h i value ctx s).1 ≠ .waiting p next := by
  intro hr
  obtain ⟨x, _, rfl, hlook⟩ := run_waiting hp hr
  cases hlook

end Runs

namespace Stage

variable {h : Host ι (Stage ι ε)}

theorem fire_suspended (hp : h.Prompt) {id : ChainId} {event : Event} {ctx : Context}
    {s : Stage ι ε} {f : Suspended} (hf : (s.fire h id event ctx).1 = .suspended f) :
    f.chain = id ∧ ∃ x, f.promise = .settled x := by
  unfold fire at hf
  dsimp only at hf
  split at hf
  · cases hf
  next c t _ =>
    cases hr : (c.fire h (ctx.withEvent event) t).1 with
    | done value => simp [hr] at hf
    | failed e => simp [hr] at hf
    | rejected why =>
      simp only [hr] at hf
      cases hf
      exact ⟨rfl, _, rfl⟩
    | waiting p next =>
      simp only [hr] at hf
      cases hf
      exact ⟨rfl, Chain.fire_waiting hp hr⟩

theorem poll_not_waiting (hp : h.Prompt) {f g : Suspended} {s : Stage ι ε}
    (hf : ∃ x, f.promise = .settled x) : (s.poll h f).1 ≠ .waiting g := by
  obtain ⟨x, hx⟩ := hf
  intro hg
  unfold poll abort at hg
  rw [hx] at hg
  dsimp only [Host.settlement?] at hg
  cases x with
  | rejected why => cases hg
  | fulfilled value =>
    dsimp only at hg
    split at hg
    · cases hg
    · split at hg
      · cases hg
      next i _ _ c t _ =>
        cases hr : (c.resume h i value f.ctx t).1 with
        | done value => simp [hr] at hg
        | failed e => simp [hr] at hg
        | rejected why => simp [hr] at hg
        | waiting p next => exact Chain.resume_not_waiting hp hr

def queues (s : Stage ι ε) : List Task × List Task × List Task := (s.waiting, s.ready, s.fresh)

/-- Some firing of the chain is suspended and has not come to its end. -/
def awaits (id : ChainId) (s : Stage ι ε) : Bool :=
  (s.waiting ++ s.ready ++ s.fresh).any fun t => t.firing.chain = id

structure Movable (s : Stage ι ε) : Prop where
  waiting : s.waiting = []
  settled : ∀ t ∈ s.ready ++ s.fresh, ∃ x, t.firing.promise = .settled x

theorem attend_queues (hp : h.Prompt) (hl : h.Leaves queues) (s : Stage ι ε) {t : Task}
    (ht : ∃ x, t.firing.promise = .settled x) : (s.attend h t).queues = s.queues := by
  have hleft : (s.poll h t.firing).2.queues = s.queues := poll_leaves hl (fun _ _ => rfl) _ s
  unfold attend
  split
  next hpoll =>
    rw [hpoll] at hleft
    exact hleft
  next hpoll =>
    rw [hpoll] at hleft
    exact hleft
  next hpoll => exact absurd (congrArg Prod.fst hpoll) (poll_not_waiting hp ht)

theorem attendAll_queues (hp : h.Prompt) (hl : h.Leaves queues) (tasks : List Task)
    (s : Stage ι ε) (ht : ∀ t ∈ tasks, ∃ x, t.firing.promise = .settled x) :
    (tasks.foldl (attend h) s).queues = s.queues := by
  induction tasks generalizing s with
  | nil => rfl
  | cons t rest ih =>
    rw [List.foldl_cons, ih _ fun u hu => ht u (.tail _ hu)]
    exact attend_queues hp hl s (ht t (.head _))

theorem settle_queues (hp : h.Prompt) (hl : h.Leaves queues) {s : Stage ι ε} (hs : s.Movable) :
    (s.settle h).queues = ([], [], []) := by
  rw [settle, attendAll_queues hp hl _ _ hs.settled]
  exact Prod.ext hs.waiting rfl

end Stage

namespace Invocation

variable {h : Host ι (Stage ι ε)}

/-- The stage on which the chain is fired: the call is recorded. -/
def opening (c : Invocation ι ε) : Stage ι ε :=
  { c.stage with records := c.stage.records ++
      [⟨c.event.name, c.event.target, c.current, c.delegate, .pending, none⟩] }

def fired (h : Host ι (Stage ι ε)) (c : Invocation ι ε) : Fired :=
  (c.opening.fire h c.listener.chain c.event (.listener c.current c.delegate)).1

def rest? (h : Host ι (Stage ι ε)) (c : Invocation ι ε) : Option Suspended := (c.fired h).rest?

theorem rest?_eq_some {c : Invocation ι ε} {f : Suspended} :
    c.rest? h = some f ↔ c.fired h = .suspended f := by
  unfold rest? Fired.rest?
  cases c.fired h <;> simp

theorem rest?_spec (hp : h.Prompt) {c : Invocation ι ε} {f : Suspended}
    (hf : c.rest? h = some f) : f.chain = c.listener.chain ∧ ∃ x, f.promise = .settled x :=
  Stage.fire_suspended hp (rest?_eq_some.mp hf)

theorem after_queues (hl : h.Leaves Stage.queues) (c : Invocation ι ε) :
    ∃ tasks, (c.after h).2.queues = (c.stage.waiting, c.stage.ready, c.stage.fresh ++ tasks) ∧
      tasks.map Task.firing = (c.rest? h).toList := by
  have hqueues := Stage.fire_leaves hl (fun _ _ => rfl) c.listener.chain c.event
    (.listener c.current c.delegate) c.opening
  unfold after Stage.deliver rest? fired
  unfold opening at hqueues ⊢
  dsimp only
  generalize Stage.fire h c.listener.chain c.event _ _ = r at hqueues ⊢
  obtain ⟨fired, t⟩ := r
  obtain ⟨hwaiting, hready, hfresh⟩ : t.waiting = c.stage.waiting ∧ t.ready = c.stage.ready ∧
      t.fresh = c.stage.fresh := by
    simpa [Stage.queues] using hqueues
  cases fired with
  | done o => exact ⟨[], by simp [Stage.queues, Stage.setRecord, hwaiting, hready, hfresh], rfl⟩
  | suspended f =>
    exact ⟨[⟨c.stage.records.length, f⟩], by simp [Stage.queues, hwaiting, hready, hfresh], rfl⟩
  | failed e ctx =>
    refine ⟨[], ?_, rfl⟩
    simp [Stage.queues, Stage.setRecord, Stage.note, hwaiting, hready, hfresh]

end Invocation

def Invocation.call (c : Invocation ι ε) : String × NodeId × NodeId × NodeId :=
  (c.event.name, c.event.target, c.current, c.delegate)

/-- What calls add to: the suspended firings, and the records without what came of them. -/
def Stage.ledger (s : Stage ι ε) :
    (List Task × List Task × List Task) × List (String × NodeId × NodeId × NodeId) :=
  (s.queues, s.records.map Record.call)

/-- The calls are made one after the other, from one stage to another, and nothing else is suspended
or recorded in between. -/
inductive Leads (h : Host ι (Stage ι ε)) : Stage ι ε → List (Invocation ι ε) → Stage ι ε → Prop
  | nil {s t} : t.ledger = s.ledger → Leads h s [] t
  | cons {s c rest t} : c.stage.ledger = s.ledger → Leads h (c.after h).2 rest t →
      Leads h s (c :: rest) t

/-- The suspended firings and the records, with what came of them. -/
def Stage.account (s : Stage ι ε) : (List Task × List Task × List Task) × List Record :=
  (s.queues, s.records)

/-- The calls are made one after the other, from one stage to another, and in between no firing is
suspended or looked after, and no record is written or closed. -/
inductive Books (h : Host ι (Stage ι ε)) : Stage ι ε → List (Invocation ι ε) → Stage ι ε → Prop
  | nil {s t} : t.account = s.account → Books h s [] t
  | cons {s c rest t} : c.stage.account = s.account → Books h (c.after h).2 rest t →
      Books h s (c :: rest) t

theorem Stage.ledger_of_account {s t : Stage ι ε} (ht : t.account = s.account) :
    t.ledger = s.ledger := by
  obtain ⟨hqueues, hrecords⟩ := Prod.mk.inj ht
  rw [ledger, ledger, hqueues, hrecords]

namespace Books

variable {h : Host ι (Stage ι ε)} {s t u : Stage ι ε} {calls more : List (Invocation ι ε)}

theorem of_account (ha : t.account = s.account) (hc : Books h t calls u) : Books h s calls u := by
  cases hc with
  | nil hend => exact .nil (hend.trans ha)
  | cons hfirst hrest => exact .cons (hfirst.trans ha) hrest

theorem append (hc : Books h s calls t) (hm : Books h t more u) : Books h s (calls ++ more) u := by
  induction hc with
  | nil ha => exact hm.of_account ha
  | cons hfirst _ ih => exact .cons hfirst (ih hm)

theorem to_account (hc : Books h s calls t) (ha : u.account = t.account) : Books h s calls u := by
  have hall := hc.append (.nil ha)
  rwa [List.append_nil] at hall

theorem leads (hc : Books h s calls t) : Leads h s calls t := by
  induction hc with
  | nil ha => exact .nil (Stage.ledger_of_account ha)
  | cons hfirst _ ih => exact .cons (Stage.ledger_of_account hfirst) ih

end Books

namespace Leads

variable {h : Host ι (Stage ι ε)} {s t u : Stage ι ε} {calls more : List (Invocation ι ε)}

theorem of_ledger (hl : t.ledger = s.ledger) (hc : Leads h t calls u) : Leads h s calls u := by
  cases hc with
  | nil hend => exact .nil (hend.trans hl)
  | cons hfirst hrest => exact .cons (hfirst.trans hl) hrest

theorem append (hc : Leads h s calls t) (hm : Leads h t more u) : Leads h s (calls ++ more) u := by
  induction hc with
  | nil hl => exact hm.of_ledger hl
  | cons hfirst _ ih => exact .cons hfirst (ih hm)

theorem to_ledger (hc : Leads h s calls t) (hl : u.ledger = t.ledger) : Leads h s calls u := by
  have hall := hc.append (.nil hl)
  rwa [List.append_nil] at hall

theorem upto {before after : List (Invocation ι ε)} {c : Invocation ι ε}
    (hc : Leads h s (before ++ c :: after) t) : Leads h s before c.stage := by
  induction before generalizing s with
  | nil =>
    cases hc with
    | cons hfirst _ => exact .nil hfirst
  | cons d before ih =>
    cases hc with
    | cons hfirst hrest => exact .cons hfirst (ih hrest)

theorem recorded (hh : h.Discreet) (hc : Leads h s calls t) :
    t.records.map Record.call = s.records.map Record.call ++ calls.map Invocation.call := by
  induction hc with
  | nil hl => simpa using (Prod.mk.inj hl).2
  | @cons s c rest t hfirst _ ih =>
    have hafter : (c.after h).2.records.map Record.call =
        c.stage.records.map Record.call ++ [c.call] :=
      Stage.deliver_records hh c.current c.event c.stage (c.listener.chain, c.delegate)
    rw [ih, hafter, (Prod.mk.inj hfirst).2]
    simp

theorem outstanding (hl : h.Leaves Stage.queues) (hc : Leads h s calls t) :
    ∃ tasks, t.queues = (s.waiting, s.ready, s.fresh ++ tasks) ∧
      tasks.map Task.firing = calls.filterMap (Invocation.rest? h) := by
  induction hc with
  | nil hend => exact ⟨[], by rw [List.append_nil]; exact (Prod.mk.inj hend).1, rfl⟩
  | @cons s c rest t hfirst _ ih =>
    obtain ⟨one, hafter, hone⟩ := c.after_queues hl
    obtain ⟨more, hmore, hrest⟩ := ih
    simp only [Stage.ledger, Stage.queues, Prod.mk.injEq] at hfirst hafter hmore ⊢
    refine ⟨one ++ more, ⟨?_, ?_, ?_⟩, ?_⟩
    · rw [hmore.1, hafter.1, hfirst.1.1]
    · rw [hmore.2.1, hafter.2.1, hfirst.1.2.1]
    · rw [hmore.2.2, hafter.2.2, hfirst.1.2.2, List.append_assoc]
    · rw [List.map_append, hone, hrest, List.filterMap_cons]
      cases c.rest? h <;> rfl

theorem movable (hp : h.Prompt) (hl : h.Leaves Stage.queues) (hs : s.Movable)
    (hc : Leads h s calls t) : t.Movable := by
  obtain ⟨tasks, hqueues, htasks⟩ := hc.outstanding hl
  simp only [Stage.queues, Prod.mk.injEq] at hqueues
  constructor
  · exact hqueues.1.trans hs.waiting
  · intro task htask
    rw [hqueues.2.1, hqueues.2.2, ← List.append_assoc, List.mem_append] at htask
    rcases htask with hold | hnew
    · exact hs.settled task hold
    · have hfiring := List.mem_map_of_mem (f := Task.firing) hnew
      rw [htasks] at hfiring
      obtain ⟨c, -, hf⟩ := List.mem_filterMap.mp hfiring
      exact (Invocation.rest?_spec hp hf).2

/-- A call from a stage where nothing is outstanding overlaps with a firing of its chain exactly if
a call before it has left one. -/
theorem awaits_iff (hp : h.Prompt) (hl : h.Leaves Stage.queues)
    (hs : s.queues = ([], [], [])) {before after : List (Invocation ι ε)} {c : Invocation ι ε}
    (hc : Leads h s (before ++ c :: after) t) (id : ChainId) :
    c.stage.awaits id = true ↔
      ∃ d ∈ before, d.listener.chain = id ∧ ∃ f, d.fired h = .suspended f := by
  obtain ⟨tasks, hqueues, htasks⟩ := hc.upto.outstanding hl
  simp only [Stage.queues, Prod.mk.injEq] at hs hqueues
  rw [hs.1, hs.2.1, hs.2.2] at hqueues
  have hawaits : c.stage.awaits id = true ↔ ∃ f ∈ tasks.map Task.firing, f.chain = id := by
    simp [Stage.awaits, hqueues]
  rw [hawaits, htasks]
  constructor
  · rintro ⟨f, hf, rfl⟩
    obtain ⟨d, hd, hrest⟩ := List.mem_filterMap.mp hf
    exact ⟨d, hd, (Invocation.rest?_spec hp hrest).1.symm, f, Invocation.rest?_eq_some.mp hrest⟩
  · rintro ⟨d, hd, rfl, f, hf⟩
    have hrest : d.rest? h = some f := Invocation.rest?_eq_some.mpr hf
    exact ⟨f, List.mem_filterMap.mpr ⟨d, hd, hrest⟩, (Invocation.rest?_spec hp hrest).1⟩

end Leads

section Deliveries

variable {h : Host ι (Stage ι ε)}

namespace Stage

theorem callsAll_books (current : NodeId) (pairs : List (Listener × NodeId)) (event : Event)
    (s : Stage ι ε) :
    Books h s (s.callsAll h current pairs event) (s.deliverAll h current pairs event).2 := by
  induction pairs generalizing event s with
  | nil => exact .nil rfl
  | cons p rest ih => exact .cons rfl (ih _ _)

end Stage

theorem Arrival.calls_books (path : List NodeId) (a : Arrival ι ε) :
    Books h a.stage (a.calls h (path.takeWhile (· ≠ a.node))) (a.after h path).2 := by
  obtain ⟨log, hopened⟩ := a.opened_eq (path.takeWhile (· ≠ a.node))
  rw [after_eq]
  apply Books.of_account _ (Stage.callsAll_books _ _ _ _)
  rw [hopened]
  rfl

namespace Stage

theorem arrivals_books (path nodes : List NodeId) (event : Event) (s : Stage ι ε) :
    Books h s
      ((s.arrivals h path nodes event).flatMap fun a =>
        a.calls h (path.takeWhile (· ≠ a.node)))
      (s.deliverAlong h path nodes event).2 := by
  induction nodes generalizing event s with
  | nil => exact .nil rfl
  | cons current rest ih =>
    have hfirst := Arrival.calls_books (h := h) path ⟨current, event, s⟩
    simp only [arrivals, deliverAlong, List.flatMap_cons]
    split
    · rw [List.flatMap_nil, List.append_nil]
      exact hfirst.to_account rfl
    · exact hfirst.append (ih _ _)

def calls (h : Host ι (Stage ι ε)) (event : Event) (bubbles : Bool) (s : Stage ι ε) :
    List (Invocation ι ε) :=
  (s.route h event bubbles).flatMap fun a =>
    a.calls h ((s.document.path event.target).takeWhile (· ≠ a.node))

theorem dispatch_books (event : Event) (bubbles : Bool) (s : Stage ι ε) :
    Books h s (s.calls h event bubbles) (s.dispatch h event bubbles).2 := by
  dsimp only [calls, route, dispatch]
  apply Books.of_account _ (arrivals_books _ _ _ _)
  rfl

end Stage

end Deliveries

theorem Control.perform_prompt {c : Control} {args : List Value} {ctx : Context} {s : Stack}
    {p : Promise} (hr : (c.perform args ctx s).1 = .ok (.pending p)) : ∃ x, p = .settled x := by
  -- only an abort is pending
  have habort : ∀ b : Bool, (if b then Reply.nothing else Reply.abort) = .pending p ∨
      (if b then Reply.abort else Reply.nothing) = .pending p → ∃ x, p = .settled x := by
    rintro (_ | _) (h | h) <;> cases h <;> exact ⟨_, rfl⟩
  cases c <;> dsimp only [perform] at hr
  case nil => split at hr <;> cases hr
  case spread =>
    split at hr
    · cases hr
    · split at hr <;> cases hr
  case avoid => split at hr <;> cases hr
  case stop => split at hr <;> cases hr
  case pass => exact habort _ (.inl (Except.ok.inj hr))
  case finish => exact habort _ (.inr (Except.ok.inj hr))
  case debug => exact habort _ (.inr (Except.ok.inj hr))
  all_goals cases hr

theorem Compute.perform_prompt {c : Compute} {args : List Value} {ctx : Context} {d : Document}
    {p : Promise} (hr : (c.perform args ctx d).1 = .ok (.pending p)) : ∃ x, p = .settled x := by
  have hvalue : ∀ v? : Except Error Value, v?.map Reply.value ≠ .ok (.pending p) := by
    rintro (e | v) h <;> cases h
  cases c <;> dsimp only [perform] at hr
  case attr => split at hr <;> cases hr
  case concat => cases hr
  case defer =>
    cases hr
    exact ⟨_, rfl⟩
  case fail =>
    cases hr
    exact ⟨_, rfl⟩
  all_goals exact absurd hr (hvalue _)

theorem Stage.host_prompt (settings : Settings) :
    (Stage.host settings : Host Kit (Stage Kit ε)).Prompt := by
  intro body args ctx stack s p hr
  cases body with
  | control c => exact c.perform_prompt hr
  | compute c => exact c.perform_prompt hr
  | change c =>
    dsimp only [host, performKit, Kit.perform, Change.perform] at hr
    split at hr <;> cases hr

theorem Stage.host_leaves_queues (settings : Settings) :
    (Stage.host settings : Host Kit (Stage Kit ε)).Leaves Stage.queues :=
  host_leaves settings fun _ _ _ => rfl

end AttrChain
