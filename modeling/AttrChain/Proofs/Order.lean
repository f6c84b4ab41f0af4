import AttrChain.Proofs.Behaviour
import AttrChain.Proofs.Course

/-!
The order of cells: a firing invokes the cells of its chain from the head on, each of them once, and
none behind a cell that stopped it, however many firings of the chain are suspended meanwhile. The
sink hears of a firing once if it is given up, and otherwise never.
-/

namespace AttrChain

variable {ι ε σ : Type}

/-- Whether no cell may follow: the cell failed, or its result was rejected. -/
def Verdict.stops : Verdict → Bool
  | passes _ => false
  | fails _ => true
  | rejects _ => true
  | waits _ => false

namespace Chain

/-- A run that looks at no promise finds none of them rejected. -/
theorem follow_unseen (h : Host ι σ) (c : Chain ι) (i : Nat) (incoming : Option Value)
    (f : Frame σ) :
    ∀ v ∈ (follow h (fun _ _ => none) c i incoming f).1, ∀ why, v.verdict ≠ .rejects why := by
  have hturn : ∀ (i : Nat) (cell : Cell ι) (incoming : Option Value) (f : Frame σ) why,
      (c.turn h (fun _ _ => none) i cell incoming f).verdict ≠ .rejects why := by
    intro i cell incoming f why
    unfold turn
    generalize cell.invoke h i incoming f = r
    obtain ⟨reply, g⟩ := r
    cases reply with
    | error e => simp [Verdict.of]
    | ok reply => cases reply <;> simp [Verdict.of]
  fun_induction follow h (fun _ _ => none) c i incoming f with
  | case1 i incoming f hc => simp
  | case2 i incoming f cell hc j value ho ih =>
    intro v hv
    rcases List.mem_cons.mp hv with rfl | hv
    · exact hturn i cell incoming f
    · exact ih v hv
  | case3 i incoming f cell hc ho =>
    intro v hv
    rw [List.mem_singleton.mp hv]
    exact hturn i cell incoming f

variable {c : Chain ι} {i : Nat} {visits : List Visit} {halt : Halt}

theorem Followed.onward (hf : Followed c i visits halt) :
    ∀ v ∈ visits.dropLast, v.verdict.stops = false := by
  intro v hv
  obtain ⟨value, hvalue⟩ := hf.passed v hv
  rw [hvalue]
  rfl

theorem Followed.stopped (hf : Followed c i visits halt) {v : Visit} (hv : v ∈ visits)
    (hs : v.verdict.stops = true) :
    (∃ e, v.verdict = .fails e ∧ halt = .failed e) ∨
      (∃ why, v.verdict = .rejects why ∧ halt = .rejected why) := by
  have hlast : v = visits.getLast hf.nonempty := by
    rw [← List.dropLast_concat_getLast hf.nonempty] at hv
    rcases List.mem_append.mp hv with hv | hv
    · rw [hf.onward v hv] at hs
      cases hs
    · exact List.mem_singleton.mp hv
  obtain ⟨next, hnext⟩ := hf.last v (by rw [List.getLast?_eq_some_getLast hf.nonempty, hlast]; rfl)
  cases hverdict : v.verdict with
  | passes value => rw [hverdict] at hs; cases hs
  | waits p => rw [hverdict] at hs; cases hs
  | fails e => exact Or.inl ⟨e, rfl, by rw [hnext, hverdict]; rfl⟩
  | rejects why => exact Or.inr ⟨why, rfl, by rw [hnext, hverdict]; rfl⟩

end Chain

structure Orderly (id : ChainId) (c : Chain ι) (f : Firing) : Prop where
  places : f.visits.map Visit.place = List.range f.visits.length
  bounded : f.visits.length ≤ c.size
  started : c.cells ≠ [] → f.visits ≠ []
  onward : ∀ v ∈ f.visits.dropLast, v.verdict.stops = false
  stopped : ∀ v ∈ f.visits, v.verdict.stops = true → f.rest? = none
  sink : f.rejections.length = if f.isAborted then 1 else 0
  home : ∀ rest ∈ f.rest?, rest.chain = id
  next : ∀ rest ∈ f.rest?, ∀ j ∈ rest.next, j = f.visits.length ∧ j < c.size

namespace Orderly

variable {id : ChainId} {c : Chain ι} {f : Firing}

theorem passing (hf : Orderly id c f) {rest : Suspended} (hr : f.rest? = some rest) :
    ∀ v ∈ f.visits, v.verdict.stops = false := by
  intro v hv
  cases hs : v.verdict.stops with
  | false => rfl
  | true =>
    have := hf.stopped v hv hs
    rw [hr] at this
    cases this

theorem silent (hf : Orderly id c f) {rest : Suspended} (hr : f.rest? = some rest) :
    f.rejections = [] := by
  have hsink := hf.sink
  have ha : f.isAborted = false := by
    unfold Firing.rest? at hr
    unfold Firing.isAborted
    cases hp : f.polls.getLast? with
    | none => rfl
    | some polled =>
      rw [hp] at hr
      cases polled with
      | waiting s => rfl
      | done o => cases hr
      | aborted => cases hr
  rw [ha] at hsink
  exact List.length_eq_zero_iff.mp hsink

/-- A firing that goes on stays orderly if the cells that follow are the next ones. -/
theorem extend (hf : Orderly id c f) {rest : Suspended} (hr : f.rest? = some rest)
    {polled : Polled} {visits : List Visit} {rejections : List Rejection}
    (hplaces : visits.map Visit.place = List.range' f.visits.length visits.length)
    (hbounded : f.visits.length + visits.length ≤ c.size)
    (honward : ∀ v ∈ visits.dropLast, v.verdict.stops = false)
    (hstopped : ∀ v ∈ visits, v.verdict.stops = true → polled.rest? = none)
    (hsink : rejections.length = if polled.isAborted then 1 else 0)
    (hhome : ∀ rest ∈ polled.rest?, rest.chain = id)
    (hnext : ∀ rest ∈ polled.rest?, ∀ j ∈ rest.next,
      j = f.visits.length + visits.length ∧ j < c.size) :
    Orderly id c (f.extend polled visits rejections) := by
  have hpass := hf.passing hr
  refine ⟨?_, ?_, ?_, ?_, ?_, ?_, ?_, ?_⟩
  · have hsplit := @List.range'_append_1 0 f.visits.length visits.length
    rw [Nat.zero_add] at hsplit
    simp only [Firing.extend, List.map_append, List.length_append, hf.places, hplaces,
      List.range_eq_range', hsplit]
  · simpa [Firing.extend] using hbounded
  · intro hc
    have := hf.started hc
    simp [Firing.extend, this]
  · intro v hv
    change v ∈ (f.visits ++ visits).dropLast at hv
    by_cases hn : visits = []
    · subst hn
      rw [List.append_nil] at hv
      exact hpass v (List.dropLast_subset _ hv)
    · rw [List.dropLast_append_of_ne_nil hn] at hv
      rcases List.mem_append.mp hv with hv | hv
      · exact hpass v hv
      · exact honward v hv
  · intro v hv hs
    rw [Firing.rest?_extend]
    rcases List.mem_append.mp hv with hv | hv
    · rw [hpass v hv] at hs
      cases hs
    · exact hstopped v hv hs
  · rw [Firing.isAborted_extend]
    simpa [Firing.extend, hf.silent hr] using hsink
  · simpa using hhome
  · intro rest' hr' j hj
    rw [Firing.rest?_extend] at hr'
    simpa [Firing.extend] using hnext rest' hr' j hj

theorem opened {visits : List Visit} {halt : Halt} (hfollowed : Chain.Followed c 0 visits halt)
    (hunseen : ∀ v ∈ visits, ∀ why, v.verdict ≠ .rejects why) (ctx : Context) :
    Orderly id c ⟨.of id ctx halt, [], visits, []⟩ := by
  have hrest : (Firing.mk (.of id ctx halt) [] visits []).rest? =
      (Fired.of id ctx halt).rest? := rfl
  refine ⟨?_, ?_, fun _ => hfollowed.nonempty, hfollowed.onward, ?_, rfl, ?_, ?_⟩
  · rw [List.range_eq_range']
    exact hfollowed.places
  · simpa [Chain.size] using hfollowed.bounded
  · intro v hv hs
    rcases hfollowed.stopped hv hs with ⟨e, -, he⟩ | ⟨why, hwhy, -⟩
    · rw [hrest, he]
      rfl
    · exact absurd hwhy (hunseen v hv why)
  · intro rest hr
    rw [hrest] at hr
    cases halt <;> cases hr <;> rfl
  · intro rest hr j hj
    rw [hrest] at hr
    cases halt with
    | done value => cases hr
    | failed e => cases hr
    | rejected why =>
      cases hr
      cases hj
    | waiting p next =>
      cases hr
      have := hfollowed.resumes p j (congrArg (Halt.waiting p) hj)
      simpa [Chain.size] using this

theorem launched (h : Host ι ε) (id : ChainId) (c : Chain ι) (event : Event) (ctx : Context)
    (state : ε) :
    Orderly id c
      ⟨(c.launch h id event ctx state).fired, [], (c.launch h id event ctx state).visits, []⟩ := by
  unfold Chain.launch
  by_cases hc : c.cells = []
  · -- Without a head there is nothing to invoke.
    have hnone : c.cells[0]? = none := by simp [hc]
    simp only [Chain.follow_of_none hnone, Fired.of]
    refine ⟨rfl, Nat.zero_le _, fun hne => absurd hc hne, ?_, ?_, rfl, ?_, ?_⟩
    · simp
    · simp
    · intro rest hr
      cases hr
    · intro rest hr
      cases hr
  · exact opened (c.follow_followed h _ 0 c.initial _ (List.length_pos_iff.mpr hc))
      (c.follow_unseen h 0 c.initial _) _

theorem stays (hf : Orderly id c f) {rest : Suspended} (hr : f.rest? = some rest) {polled : Polled}
    {rejections : List Rejection}
    (hsink : rejections.length = if polled.isAborted then 1 else 0)
    (hrest : ∀ r ∈ polled.rest?, r = rest) : Orderly id c (f.extend polled [] rejections) := by
  refine hf.extend hr rfl ?_ ?_ ?_ hsink ?_ ?_
  · simpa using hf.bounded
  · simp
  · simp
  · intro r hmem
    rw [hrest r hmem]
    exact hf.home rest hr
  · intro r hmem
    rw [hrest r hmem]
    simpa using hf.next rest hr

theorem goes_on (h : Host ι ε) (hf : Orderly id c f) {rest : Suspended} {i : Nat}
    (hr : f.rest? = some rest) (hn : rest.next = some i) {visits : List Visit} {halt : Halt}
    (g : Frame ε) (hfollowed : Chain.Followed c i visits halt) :
    Orderly id c (f.extend (Progress.of h rest.chain c (visits, halt, g)).polled
      (Progress.of h rest.chain c (visits, halt, g)).visits
      (Progress.of h rest.chain c (visits, halt, g)).rejections) := by
  obtain ⟨rfl, -⟩ := hf.next rest hr i hn
  have hbounded : f.visits.length + visits.length ≤ c.size := hfollowed.bounded
  have hend : ∀ {polled : Polled} {rejections : List Rejection}, polled.rest? = none →
      rejections.length = (if polled.isAborted then 1 else 0) →
      Orderly id c (f.extend polled visits rejections) := by
    intro polled rejections hnone hsink
    refine hf.extend hr hfollowed.places hbounded hfollowed.onward ?_ hsink ?_ ?_
    · intro _ _ _
      exact hnone
    · simp [hnone]
    · simp [hnone]
  cases halt with
  | done value => exact hend rfl rfl
  | failed e => exact hend rfl rfl
  | rejected why => exact hend rfl rfl
  | waiting p next =>
    refine hf.extend hr hfollowed.places hbounded hfollowed.onward ?_ rfl ?_ ?_
    · intro v hv hs
      rcases hfollowed.stopped hv hs with ⟨e, -, he⟩ | ⟨why, -, he⟩ <;> cases he
    · intro r hmem
      cases hmem
      exact hf.home rest hr
    · intro r hmem j hj
      cases hmem
      exact hfollowed.resumes p j (congrArg (Halt.waiting p) hj)

theorem proceeded (h : Host ι ε) (hf : Orderly id c f) {rest : Suspended}
    (hr : f.rest? = some rest) (state : ε) :
    Orderly id c (f.extend (c.proceed h rest state).polled (c.proceed h rest state).visits
      (c.proceed h rest state).rejections) := by
  unfold Chain.proceed
  cases hp : h.settlement? rest.promise state with
  | none =>
    refine hf.stays hr rfl ?_
    intro r hmem
    cases hmem
    rfl
  | some settlement =>
    cases settlement with
    | rejected why =>
      refine hf.stays hr rfl ?_
      intro r hmem
      cases hmem
    | fulfilled value =>
      cases hn : rest.next with
      | none =>
        refine hf.stays hr rfl ?_
        intro r hmem
        cases hmem
      | some i =>
        have hfollowed := c.follow_followed h h.settlement? i value
          ⟨rest.ctx, c.stack, c.cuts, state⟩ (hf.next rest hr i hn).2
        exact hf.goes_on h hr hn _ hfollowed

end Orderly

namespace Course

variable {h : Host ι ε}

theorem orderly_kept : Kept h (Orderly (ι := ι)) where
  cells := by
    intro id c c' f hcells hf
    have hsize : c'.size = c.size := congrArg List.length hcells
    exact ⟨hf.places, hsize ▸ hf.bounded, fun hne => hf.started (hcells ▸ hne), hf.onward,
      hf.stopped, hf.sink, hf.home, hsize ▸ hf.next⟩
  home := by
    intro id c f rest hf hr
    exact hf.home rest hr
  launched := Orderly.launched h
  proceeded := by
    intro id c f rest state hf hr
    exact hf.proceeded h hr state

theorem firing_orderly (chains : List (Chain ι)) (state : ε) (moves : List (Move ε)) {id : ChainId}
    {n : Nat} {f : Firing}
    (hf : (((start chains state).play h moves).firings id)[n]? = some f) :
    ∃ c, ((start chains state).play h moves).Rests id c ∧ Orderly id c f := by
  have hp := play_holds (orderly_kept (h := h)) (start_holds chains state) moves
  rcases hp id with ⟨c, hc, hfs⟩ | ⟨-, hnone⟩
  · exact ⟨c, hc, hfs f (List.mem_of_getElem? hf)⟩
  · rw [hnone] at hf
    cases hf

/-- A firing changes only when it is looked after, and no more once it has come to its end. -/
theorem act_keeps_firing {p : Course ι ε} {act : Act} {id : ChainId} {n : Nat} {f : Firing}
    (hf : (p.firings id)[n]? = some f) (hm : act ≠ .poll id n ∨ f.rest? = none) :
    ((p.act h act).firings id)[n]? = some f := by
  cases act with
  | fire a event ctx =>
    simp only [Course.act, fire]
    split
    · exact hf
    · dsimp only
      by_cases ha : id = a
      · subst ha
        rw [Function.update_self, List.getElem?_append_left (List.getElem?_eq_some_iff.mp hf).1]
        exact hf
      · rw [Function.update_of_ne ha]
        exact hf
  | rebind a initial =>
    simp only [Course.act, rebind]
    split <;> exact hf
  | poll a k =>
    simp only [Course.act, poll]
    split
    · next g c hg hc =>
      split
      · exact hf
      · next rest hr =>
        dsimp only
        by_cases ha : id = a
        · subst ha
          rw [Function.update_self]
          -- The firing itself cannot have been looked after, since it has no rest.
          have hk : k ≠ n := by
            rintro rfl
            cases hf.symm.trans hg
            rcases hm with hm | hm
            · exact hm rfl
            · rw [hr] at hm
              cases hm
          rw [List.getElem?_set_ne hk]
          exact hf
        · rw [Function.update_of_ne ha]
          exact hf
    · exact hf

theorem play_keeps_firing {p : Course ι ε} {id : ChainId} {n : Nat} {f : Firing}
    (hf : (p.firings id)[n]? = some f) (hr : f.rest? = none) (moves : List (Move ε)) :
    ((p.play h moves).firings id)[n]? = some f := by
  induction moves generalizing p with
  | nil => exact hf
  | cons m moves ih => exact ih (act_keeps_firing (p := p.withState m.state) hf (Or.inr hr))

theorem step_aborts {p : Course ι ε} {id : ChainId} {n : Nat} {c : Chain ι} {f : Firing}
    {rest : Suspended} {state : ε} {why : Rejection} (hc : p.Rests id c)
    (hf : (p.firings id)[n]? = some f) (hr : f.rest? = some rest) (hid : rest.chain = id)
    (hwhy : h.settlement? rest.promise state = some (.rejected why)) :
    ((p.step h ⟨state, .poll id n⟩).firings id)[n]? = some (f.extend .aborted [] [why]) := by
  have hpoll := poll_eq h (p := p.withState state) hc hf hr hid
  have hstate : (p.withState state).stage.extra.state = state := rfl
  simp only [step, act, hpoll, record_firings_self, Chain.proceed, hstate, hwhy]
  exact List.getElem?_set_self (List.getElem?_eq_some_iff.mp hf).1

/-- Whatever is done with the chains on a stage: the cells that a firing has invoked stand in a row
from the head on, each once; a cell that fails or is rejected is the last one, and the firing stays
as it is from there on; and the sink has heard of the firing once if it was given up, else never. -/
theorem cells_in_order_exactly_once (h : Host ι ε) (chains : List (Chain ι)) (state : ε)
    (moves : List (Move ε)) (id : ChainId) (n : Nat) (f : Firing)
    (hf : (((start chains state).play h moves).firings id)[n]? = some f) :
    (∃ c, ((start chains state).play h moves).stage.chain? id = some c ∧
      f.visits.map Visit.place = List.range f.visits.length ∧
      f.visits.length ≤ c.size ∧ (c.cells ≠ [] → f.visits ≠ [])) ∧
    (∀ v ∈ f.visits.dropLast, v.verdict.stops = false) ∧
    ((f.rest? = none ∨ ∃ v ∈ f.visits, v.verdict.stops = true) →
      ∀ more, (((start chains state).play h (moves ++ more)).firings id)[n]? = some f) ∧
    (∀ rest state' why, f.rest? = some rest →
      h.settlement? rest.promise state' = some (.rejected why) →
      ∀ more, (((start chains state).play h
        (moves ++ ⟨state', .poll id n⟩ :: more)).firings id)[n]? =
          some (f.extend .aborted [] [why])) ∧
    f.rejections.length = if f.isAborted then 1 else 0 := by
  obtain ⟨c, hc, ho⟩ := firing_orderly chains state moves hf
  refine ⟨⟨c, hc.chain, ho.places, ho.bounded, ho.started⟩, ho.onward, ?_, ?_, ho.sink⟩
  · intro hend more
    have hr : f.rest? = none := by
      rcases hend with hr | ⟨v, hv, hs⟩
      · exact hr
      · exact ho.stopped v hv hs
    rw [play_append]
    exact play_keeps_firing hf hr more
  · intro rest state' why hr hwhy more
    rw [play_append]
    have hstep := step_aborts hc hf hr (ho.home rest hr) hwhy
    exact play_keeps_firing hstep (by simp [Polled.rest?]) more

/-- A chain that waits for a ticket and then fails is fired twice, and the second firing goes on
before the first one. -/
def overtaking : Course (Except Error Reply) (Nat → Option Settlement) :=
  let closed := fun _ => none
  let opened := fun _ => some (.fulfilled none)
  let event := Event.fresh "click" ⟨0⟩ none
  (start [.echoing [.ok (.pending (.ticket 0)), .error .busy]] closed).play Behaviour.echo.host
    [⟨closed, .fire ⟨0⟩ event .blank⟩, ⟨closed, .fire ⟨0⟩ event .blank⟩,
      ⟨opened, .poll ⟨0⟩ 1⟩, ⟨opened, .poll ⟨0⟩ 0⟩]

theorem overtaking_in_order :
    ∃ f, (overtaking.firings ⟨0⟩)[0]? = some f ∧
      f.visits.map Visit.place = List.range 3 ∧ f.rejections.length = 1 := by
  have hend : ((overtaking.firings ⟨0⟩)[0]?).map (fun f => (f.visits.length, f.isAborted)) =
      some (3, true) := by decide +kernel
  obtain ⟨f, hf, hends⟩ := Option.map_eq_some_iff.mp hend
  obtain ⟨hlength, haborted⟩ := Prod.mk.inj hends
  obtain ⟨⟨c, -, hplaces, -⟩, -, -, -, hsink⟩ :=
    cells_in_order_exactly_once Behaviour.echo.host _ _ _ ⟨0⟩ 0 f hf
  rw [hlength] at hplaces
  rw [haborted] at hsink
  exact ⟨f, hf, hplaces, hsink⟩

end Course
end AttrChain
