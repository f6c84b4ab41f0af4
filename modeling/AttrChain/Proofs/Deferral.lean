import AttrChain.Proofs.Behaviour
import AttrChain.Proofs.Links

/-!
Deferred results: some calls of a chain return promises of the values that they would return at
once. Each promise is fulfilled after a number of looks. A run of such a chain stops at more places,
but what it does between them is what the run without promises does.
-/

namespace AttrChain

variable {ι ω : Type}

/-- A value that is still owed, and how many more looks it takes until it is there. -/
structure Debt where
  value : Option Value
  looks : Nat

/-- A world in which values are owed; the number of a ticket is the place of its debt. -/
structure Owing (ω : Type) where
  world : ω
  debts : List Debt

def Owing.tick (s : Owing ω) : Owing ω :=
  { s with debts := s.debts.map fun d => { d with looks := d.looks - 1 } }

/-- The debt that a reply is turned into, if a value that is there is to be deferred. -/
def Debt.of? (tag : Option Nat) : Except Error Reply → Option Debt
  | .ok (.done value) => tag.map fun looks => ⟨value, looks⟩
  | _ => none

def Owing.book (tag : Option Nat) (reply : Except Error Reply) (s : Owing ω) :
    Except Error Reply × Owing ω :=
  match Debt.of? tag reply with
  | some debt => (.ok (.pending (.ticket s.debts.length)), { s with debts := s.debts ++ [debt] })
  | none => (reply, s)

@[simp] theorem Owing.book_none (reply : Except Error Reply) (s : Owing ω) :
    s.book none reply = (reply, s) := by
  cases reply with
  | error e => rfl
  | ok reply => cases reply <;> rfl

/-- Instructions that may carry a tag by which their values are deferred. -/
def Behaviour.deferring (b : Behaviour ι ω) : Host (ι × Option Nat) (Owing ω) where
  perform body args ctx stack s :=
    let (reply, ctx, stack) := b.perform body.1 args ctx stack
    let (reply, s) := s.book body.2 reply
    (reply, ctx, stack, s)
  findOne selector start s := (b.findOne selector start s.world, s)
  findAll selector start s := (b.findAll selector start s.world, s)
  field id name s := b.field id name s.world
  answer number s :=
    match s.debts[number]? with
    | some ⟨value, 0⟩ => some (.fulfilled value)
    | _ => none
  reject _ s := s

namespace Cell

/-- The tag of a cell under a plan: only a call of an instruction is ever deferred. -/
def tag (plan : Option Nat) (c : Cell ι) : Option Nat :=
  match c.op with
  | .call i => if c.isUpdate ∨ i.isPrune then none else plan
  | _ => none

def defer (plan : Option Nat) (c : Cell ι) : Cell (ι × Option Nat) where
  op := match c.op with
    | .start => .start
    | .call i => .call (i.map fun body => (body, c.tag plan))
    | .query q => .query q
  label := c.label
  args := c.args
  want := c.want
  rest := c.rest
  isUpdate := c.isUpdate

theorem tag_of_isUpdate {plan : Option Nat} {c : Cell ι} (hc : c.isUpdate = true) :
    c.tag plan = none := by
  unfold tag
  cases c.op with
  | call i => simp [hc]
  | start => rfl
  | query q => rfl

end Cell

/-- The chain of which calls are deferred by a plan. -/
def Chain.defer (plan : Nat → Option Nat) (c : Chain ι) : Chain (ι × Option Nat) where
  triggers := c.triggers
  cells := c.cells.mapIdx fun i cell => cell.defer (plan i)
  initial := c.initial
  cuts := c.cuts
  stack := c.stack

def Chain.defers (plan : Nat → Option Nat) (c : Chain ι) (i : Nat) : Bool :=
  (c.cells[i]?).any fun cell => (cell.tag (plan i)).isSome

def Halt.isEnd : Halt → Bool
  | done _ => true
  | failed _ => true
  | rejected _ => false
  | waiting _ _ => false

def Frame.owe (debts : List Debt) (f : Frame ω) : Frame (Owing ω) :=
  ⟨f.ctx, f.stack, f.cuts, ⟨f.host, debts⟩⟩

def Frame.book (debts : List Debt) (tag : Option Nat) (r : Except Error Reply × Frame ω) :
    Except Error Reply × Frame (Owing ω) :=
  let (reply, s) := Owing.book tag r.1 ⟨r.2.host, debts⟩
  (reply, ⟨r.2.ctx, r.2.stack, r.2.cuts, s⟩)

@[simp] theorem Frame.book_none (debts : List Debt) (r : Except Error Reply × Frame ω) :
    Frame.book debts none r = (r.1, r.2.owe debts) := by
  simp [Frame.book, Frame.owe]

theorem find_deferring (b : Behaviour ι ω) (q : Query) (ctx : Context) (w : ω)
    (debts : List Debt) :
    q.find b.deferring ctx ⟨w, debts⟩ =
      ((q.find b.host ctx w).1, ⟨(q.find b.host ctx w).2, debts⟩) := by
  unfold Query.find
  split
  · rfl
  split
  · rfl
  split
  · rfl
  split
  · rfl
  · rfl

namespace Cell

theorem perform_defer (b : Behaviour ι ω) (i : Nat) (plan : Option Nat) (c : Cell ι)
    (args : List Value) (f : Frame ω) (debts : List Debt) :
    (c.defer plan).perform b.deferring i args (f.owe debts) =
      Frame.book debts (c.tag plan) (c.perform b.host i args f) := by
  unfold perform defer
  cases hop : c.op with
  | start => simp [tag, hop]
  | query q => simp [tag, hop, find_deferring, Frame.owe]
  | call instruction =>
    cases haction : instruction.action with
    | plain body => simp only [Instruction.map, haction, Action.map]; rfl
    | access body => simp only [Instruction.map, haction, Action.map]; rfl
    | prune =>
      have hprune : instruction.isPrune = true := by simp [Instruction.isPrune, haction]
      simp [Instruction.map, haction, Action.map, tag, hop, hprune, Frame.owe]

/-- A deferred cell does what the cell does, but for the promise of its value. -/
theorem invoke_defer (b : Behaviour ι ω) (i : Nat) (plan : Option Nat) (c : Cell ι)
    (incoming : Option Value) (f : Frame ω) (debts : List Debt) :
    (c.defer plan).invoke b.deferring i incoming (f.owe debts) =
      Frame.book debts (c.tag plan) (c.invoke b.host i incoming f) := by
  have hprepare : (c.defer plan).prepare incoming (f.owe debts) =
      ((c.prepare incoming f).1, (c.prepare incoming f).2.owe debts) := rfl
  rw [invoke_eq, invoke_eq, hprepare, perform_defer]
  generalize c.perform b.host i _ _ = r
  cases hu : c.isUpdate with
  | true =>
    rw [tag_of_isUpdate hu, Frame.book_none, Frame.book_none]
    obtain ⟨reply, g⟩ := r
    have hupdate : (c.defer plan).isUpdate = true := hu
    cases reply with
    | error e => rfl
    | ok reply =>
      cases reply with
      | pending p => rfl
      | done value =>
        -- Only a value that is there is taken for the target of updates.
        cases value with
        | none => rfl
        | some v => simp only [result, hupdate, hu]; rfl
  | false =>
    rw [result_of_not_isUpdate (c := c.defer plan) hu, result_of_not_isUpdate hu]

end Cell

namespace Chain

theorem defer_getElem? {c : Chain ι} {i : Nat} {cell : Cell ι} (plan : Nat → Option Nat)
    (hc : c.cells[i]? = some cell) :
    (c.defer plan).cells[i]? = some (cell.defer (plan i)) := by
  simp [defer, hc]

theorem defer_next (c : Chain ι) (plan : Nat → Option Nat) (f : Frame ω) (g : Frame (Owing ω))
    (hcuts : g.cuts = f.cuts) (i : Nat) :
    ((c.defer plan).leave g).next? i = (c.leave f).next? i := by
  simp only [next_leave, hcuts, defer, List.length_mapIdx]

theorem turn_defer_passes {b : Behaviour ι ω} {c : Chain ι} {i : Nat} {cell : Cell ι}
    {incoming value : Option Value} {f : Frame ω} {t : Turn ω} (plan : Nat → Option Nat)
    (look : Promise → Owing ω → Option Settlement) (debts : List Debt)
    (ht : c.turn b.host (fun _ _ => none) i cell incoming f = t)
    (hv : t.verdict = .passes value) :
    (c.defer plan).turn b.deferring look i (cell.defer (plan i)) incoming (f.owe debts) =
      match cell.tag (plan i) with
      | none => ⟨.passes value, t.next, t.frame.owe debts⟩
      | some looks =>
        ⟨.of look ⟨t.frame.host, debts ++ [⟨value, looks⟩]⟩
            (.ok (.pending (.ticket debts.length))),
          t.next, t.frame.owe (debts ++ [⟨value, looks⟩])⟩ := by
  subst ht
  unfold turn at hv ⊢
  rw [Cell.invoke_defer]
  generalize cell.invoke b.host i incoming f = r at hv ⊢
  obtain ⟨reply, g⟩ := r
  have hnext := defer_next c plan g
  cases reply with
  | error e => cases hv
  | ok reply =>
    cases reply with
    | pending p => cases hv
    | done v =>
      cases hv
      cases cell.tag (plan i) with
      | none => simp [Verdict.of, hnext, Frame.owe]
      | some looks =>
        simp [Frame.book, Owing.book, Debt.of?, hnext, Frame.owe]

/-- A turn that fails, when its cell may be deferred: an error is never deferred. -/
theorem turn_defer_fails {b : Behaviour ι ω} {c : Chain ι} {i : Nat} {cell : Cell ι}
    {incoming : Option Value} {f : Frame ω} {t : Turn ω} {e : Error} (plan : Nat → Option Nat)
    (look : Promise → Owing ω → Option Settlement) (debts : List Debt)
    (ht : c.turn b.host (fun _ _ => none) i cell incoming f = t) (hv : t.verdict = .fails e) :
    (c.defer plan).turn b.deferring look i (cell.defer (plan i)) incoming (f.owe debts) =
      ⟨.fails e, t.next, t.frame.owe debts⟩ := by
  subst ht
  unfold turn at hv ⊢
  rw [Cell.invoke_defer]
  generalize cell.invoke b.host i incoming f = r at hv ⊢
  obtain ⟨reply, g⟩ := r
  have hnext := defer_next c plan g
  cases reply with
  | error e' =>
    cases hv
    simp [Frame.book, Owing.book, Debt.of?, Verdict.of, hnext, Frame.owe]
  | ok reply => cases reply <;> cases hv

/-- The two ways in which promises are looked at: not at all while a chain is fired, and in the
state of the host while a firing goes on. -/
def Looks (h : Host ι ω) (look : Promise → ω → Option Settlement) : Prop :=
  look = (fun _ _ => none) ∨ look = h.settlement?

theorem debt_verdict {b : Behaviour ι ω} {look : Promise → Owing ω → Option Settlement}
    (hlook : Looks b.deferring look) (w : ω) (debts : List Debt) (value : Option Value)
    (looks : Nat) :
    Verdict.of look ⟨w, debts ++ [⟨value, looks⟩]⟩ (.ok (.pending (.ticket debts.length))) =
        .passes value ∨
      Verdict.of look ⟨w, debts ++ [⟨value, looks⟩]⟩ (.ok (.pending (.ticket debts.length))) =
        .waits (.ticket debts.length) := by
  rcases hlook with rfl | rfl
  · exact Or.inr rfl
  · cases looks with
    | zero =>
      refine Or.inl ?_
      simp [Verdict.of, Host.settlement?, Behaviour.deferring]
    | succ looks =>
      refine Or.inr ?_
      simp [Verdict.of, Host.settlement?, Behaviour.deferring]

theorem turn_defer_cases {b : Behaviour ι ω} {c : Chain ι} {i : Nat} {cell : Cell ι}
    {incoming value : Option Value} {f : Frame ω} {t : Turn ω} (plan : Nat → Option Nat)
    {look : Promise → Owing ω → Option Settlement} (hlook : Looks b.deferring look)
    (debts : List Debt) (ht : c.turn b.host (fun _ _ => none) i cell incoming f = t)
    (hv : t.verdict = .passes value) :
    ∃ later,
      (c.defer plan).turn b.deferring look i (cell.defer (plan i)) incoming (f.owe debts) =
          ⟨.passes value, t.next, t.frame.owe later⟩ ∨
        ∃ k looks, later[k]? = some ⟨value, looks⟩ ∧
          (c.defer plan).turn b.deferring look i (cell.defer (plan i)) incoming (f.owe debts) =
            ⟨.waits (.ticket k), t.next, t.frame.owe later⟩ := by
  have hturn := turn_defer_passes plan look debts ht hv
  cases htag : cell.tag (plan i) with
  | none =>
    simp only [htag] at hturn
    exact ⟨debts, Or.inl hturn⟩
  | some looks =>
    simp only [htag] at hturn
    refine ⟨debts ++ [⟨value, looks⟩], ?_⟩
    rcases debt_verdict hlook t.frame.host debts value looks with hd | hd
    · rw [hd] at hturn
      exact Or.inl hturn
    · rw [hd] at hturn
      exact Or.inr ⟨debts.length, looks, by simp, hturn⟩

/-- Where a run of the deferred chain stopped, it comes to a halt of the chain itself once what it
waits for is there, however the debts stand by then. -/
inductive CatchesUp (b : Behaviour ι ω) (plan : Nat → Option Nat) (c : Chain ι) :
    Halt × Frame (Owing ω) → Halt × Frame ω → Prop where
  | level (halt : Halt) (g : Frame ω) (debts : List Debt) :
      CatchesUp b plan c (halt, g.owe debts) (halt, g)
  | last {debts : List Debt} {k looks : Nat} {value : Option Value} (g : Frame ω) :
      debts[k]? = some ⟨value, looks⟩ →
      CatchesUp b plan c (.waiting (.ticket k) none, g.owe debts) (.done value, g)
  | next {debts : List Debt} {k looks j : Nat} {value : Option Value} {f : Frame ω}
      {r : Halt × Frame ω} :
      debts[k]? = some ⟨value, looks⟩ →
      (∀ later, CatchesUp b plan c
        ((c.defer plan).follow b.deferring b.deferring.settlement? j value (f.owe later)).2 r) →
      CatchesUp b plan c (.waiting (.ticket k) (some j), f.owe debts) r

/-- Either a run of the deferred chain waits for a debt, or it stopped as the chain itself does. -/
theorem CatchesUp.waits_or_level {b : Behaviour ι ω} {plan : Nat → Option Nat} {c : Chain ι}
    {r : Halt × Frame (Owing ω)} {r' : Halt × Frame ω} (hr : CatchesUp b plan c r r') :
    (∃ p next, r.1 = .waiting p next) ∨ ∃ debts, r = (r'.1, r'.2.owe debts) := by
  cases hr with
  | level halt g debts => exact Or.inr ⟨debts, rfl⟩
  | last g hk => exact Or.inl ⟨_, _, rfl⟩
  | next hk hnext => exact Or.inl ⟨_, _, rfl⟩

theorem follow_catchesUp (b : Behaviour ι ω) (plan : Nat → Option Nat) (c : Chain ι) (i : Nat)
    (incoming : Option Value) (f : Frame ω)
    (hend : (c.follow b.host (fun _ _ => none) i incoming f).2.1.isEnd = true) :
    ∀ look debts, Looks b.deferring look →
      CatchesUp b plan c ((c.defer plan).follow b.deferring look i incoming (f.owe debts)).2
        (c.follow b.host (fun _ _ => none) i incoming f).2 := by
  -- The look and the debts are free: what follows a wait runs with another look and other debts.
  fun_induction follow b.host (fun _ _ => none) c i incoming f with
  | case1 i incoming f hc =>
    intro look debts hlook
    have hc' : (c.defer plan).cells[i]? = none := by simpa [defer] using hc
    rw [follow_of_none hc']
    exact .level _ f debts
  | case2 i incoming f cell hc j value ho ih =>
    intro look debts hlook
    obtain ⟨hv, hj⟩ := onward_eq_some ho
    have hc' := defer_getElem? plan hc
    obtain ⟨later, ht | ⟨k, looks, hk, ht⟩⟩ := turn_defer_cases plan hlook debts rfl hv
    · rw [follow_of_onward hc' ht (onward_of_passes rfl hj)]
      exact ih hend look later hlook
    · rw [follow_of_halt hc' ht rfl, Turn.halt, Verdict.halt, hj]
      refine .next hk ?_
      intro debts'
      exact ih hend _ debts' (Or.inr rfl)
  | case3 i incoming f cell hc ho =>
    intro look debts hlook
    have hc' := defer_getElem? plan hc
    generalize ht₀ : c.turn b.host (fun _ _ => none) i cell incoming f = t at ho hend ⊢
    cases hv : t.verdict with
    | passes value =>
      have hnext : t.next = none := by simpa [Turn.onward?, hv] using ho
      have hhalt : t.halt = .done value := by simp [Turn.halt, hv, Verdict.halt]
      rw [hhalt]
      obtain ⟨later, ht | ⟨k, looks, hk, ht⟩⟩ := turn_defer_cases plan hlook debts ht₀ hv
      · rw [follow_of_halt hc' ht (by simp [Turn.onward?, hnext])]
        exact .level _ t.frame later
      · rw [follow_of_halt hc' ht rfl, Turn.halt, Verdict.halt, hnext]
        exact .last t.frame hk
    | fails e =>
      have hhalt : t.halt = .failed e := by simp [Turn.halt, hv, Verdict.halt]
      rw [hhalt, follow_of_halt hc' (turn_defer_fails plan look debts ht₀ hv) rfl]
      exact .level _ t.frame debts
    | rejects why => simp [Turn.halt, hv, Verdict.halt, Halt.isEnd] at hend
    | waits p => simp [Turn.halt, hv, Verdict.halt, Halt.isEnd] at hend

/-- A run that fails stops with the same error if no cell before the one that fails is deferred,
and otherwise it is held up. -/
theorem follow_defer_failed (b : Behaviour ι ω) (plan : Nat → Option Nat) (c : Chain ι) (i : Nat)
    (incoming : Option Value) (f : Frame ω) {e : Error}
    (he : (c.follow b.host (fun _ _ => none) i incoming f).2.1 = .failed e) (debts : List Debt) :
    ((∃ v ∈ (c.follow b.host (fun _ _ => none) i incoming f).1.dropLast,
        c.defers plan v.place = true) →
      ∃ p next, ((c.defer plan).follow b.deferring (fun _ _ => none) i incoming
        (f.owe debts)).2.1 = .waiting p next) ∧
    ((∀ v ∈ (c.follow b.host (fun _ _ => none) i incoming f).1.dropLast,
        c.defers plan v.place = false) →
      ((c.defer plan).follow b.deferring (fun _ _ => none) i incoming (f.owe debts)).2 =
        (.failed e, (c.follow b.host (fun _ _ => none) i incoming f).2.2.owe debts)) := by
  fun_induction follow b.host (fun _ _ => none) c i incoming f with
  | case1 i incoming f hc => cases he
  | case2 i incoming f cell hc j value ho ih =>
    obtain ⟨hv, hj⟩ := onward_eq_some ho
    have hc' := defer_getElem? plan hc
    have hrest := follow_followed b.host (fun _ _ => none) c j value
      (c.turn b.host (fun _ _ => none) i cell incoming f).frame (turn_next hj).2
    have hturn := turn_defer_passes plan (fun _ _ => none) debts rfl hv
    obtain ⟨hlate, hplain⟩ := ih he
    rw [List.dropLast_cons_of_ne_nil hrest.nonempty]
    cases htag : cell.tag (plan i) with
    | none =>
      have hi : c.defers plan i = false := by simp [defers, hc, htag]
      simp only [htag] at hturn
      rw [follow_of_onward hc' hturn (onward_of_passes rfl hj)]
      refine ⟨?_, ?_⟩
      · rintro ⟨v, hmem, hd⟩
        rcases List.mem_cons.mp hmem with rfl | hmem
        · rw [hi] at hd
          cases hd
        · exact hlate ⟨v, hmem, hd⟩
      · intro hnone
        exact hplain fun v hmem => hnone v (List.mem_cons_of_mem _ hmem)
    | some looks =>
      have hi : c.defers plan i = true := by simp [defers, hc, htag]
      simp only [htag] at hturn
      rw [follow_of_halt hc' hturn rfl]
      refine ⟨?_, ?_⟩
      · intro _
        exact ⟨_, _, rfl⟩
      · intro hnone
        have := hnone _ List.mem_cons_self
        rw [show c.defers plan i = false from this] at hi
        cases hi
  | case3 i incoming f cell hc ho =>
    have hc' := defer_getElem? plan hc
    generalize ht₀ : c.turn b.host (fun _ _ => none) i cell incoming f = t at ho he ⊢
    have hv : t.verdict = .fails e := by
      unfold Turn.halt at he
      cases hv : t.verdict with
      | fails e' =>
        rw [hv] at he
        cases he
        rfl
      | passes | rejects | waits => rw [hv] at he; cases he
    rw [follow_of_halt hc' (turn_defer_fails plan _ debts ht₀ hv) rfl]
    refine ⟨?_, ?_⟩
    · rintro ⟨v, hmem, -⟩
      cases hmem
    · intro _
      rfl

end Chain
end AttrChain
