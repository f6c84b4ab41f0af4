import AttrChain.Proofs.Cuts
import AttrChain.Proofs.Order

/-!
Firings one after another. What an earlier firing leaves behind, a stack half used, an error or a
promise that nobody looks at any more, is nothing to a later one. Only a prune is: once one was
invoked, later firings end in front of the first prune of the chain. The firing that prunes goes on
to the end itself.
-/

namespace AttrChain

variable {ι ε σ ω : Type}

/-- A firing of a chain: its event and context, the state in which the world is, and the states of
the world in which it is looked after before it is left alone. -/
structure Shot (ε : Type) where
  event : Event
  ctx : Context
  state : ε
  looks : List ε

namespace Firing

def isDone (f : Firing) : Bool :=
  match f.polls.getLast?, f.fired with
  | none, .done _ => true
  | some (.done _), _ => true
  | _, _ => false

def prunes (c : Chain ι) (f : Firing) : Bool := f.visits.any fun v => c.prunes v.place

theorem isDone_extend {f : Firing} {polled : Polled} {visits : List Visit}
    {rejections : List Rejection} :
    (f.extend polled visits rejections).isDone = true ↔ ∃ o, polled = .done o := by
  cases polled <;> simp [isDone, extend]

end Firing

namespace Chain

def look (h : Host ι ε) (r : Firing × Chain ι) (state : ε) : Firing × Chain ι :=
  match r.1.rest? with
  | none => r
  | some rest =>
    (r.1.extend (r.2.proceed h rest state).polled (r.2.proceed h rest state).visits
        (r.2.proceed h rest state).rejections,
      (r.2.proceed h rest state).chain)

def setOff (h : Host ι ε) (id : ChainId) (c : Chain ι) (s : Shot ε) : Firing × Chain ι :=
  (⟨(c.launch h id s.event s.ctx s.state).fired, [], (c.launch h id s.event s.ctx s.state).visits,
    []⟩, (c.launch h id s.event s.ctx s.state).chain)

def shoot (h : Host ι ε) (id : ChainId) (c : Chain ι) (s : Shot ε) : Firing × Chain ι :=
  s.looks.foldl (look h) (c.setOff h id s)

/-- A firing on the way, of a chain whose links led up to place `m` when it was fired. -/
structure InFlight (c : Chain ι) (m : Nat) (id : ChainId) (r : Firing × Chain ι) : Prop where
  cells : r.2.cells = c.cells
  initial : r.2.initial = c.initial
  orderly : Orderly id r.2 r.1
  bounded : r.1.visits.length ≤ m
  cuts : ∀ k, k ∈ r.2.cuts ↔
    k ∈ c.cuts ∨ ∃ v ∈ r.1.visits, c.prunes v.place = true ∧ k = v.place - 1
  finished : r.1.isDone = true → r.1.visits.length = m
  resumes : ∀ rest ∈ r.1.rest?,
    rest.next = if r.1.visits.length < m then some r.1.visits.length else none
  pruned : ∀ v ∈ r.1.visits.getLast?, c.prunes v.place = true → r.1.visits.length = m

variable {c d : Chain ι} {m : Nat} {id : ChainId} {r : Firing × Chain ι} {h : Host ι ε}

theorem InFlight.place_lt (hr : InFlight c m id r) {v : Visit} (hv : v ∈ r.1.visits) :
    v.place < r.1.visits.length :=
  List.mem_range.mp (hr.orderly.places ▸ List.mem_map_of_mem hv)

theorem InFlight.leads (hr : InFlight c m id r) (hl : c.Leads c.cuts 0 m) :
    r.2.Leads r.2.cuts r.1.visits.length m := by
  refine ⟨hr.cells ▸ hl.1, ?_⟩
  intro j hj hjm
  have hcut : j ∈ r.2.cuts ↔ j ∈ c.cuts := by
    rw [hr.cuts, or_iff_left_iff_imp]
    rintro ⟨v, hv, -, he⟩
    have := hr.place_lt hv
    omega
  rw [hcut, hr.cells]
  exact hl.2 j (Nat.zero_le j) hjm

theorem follow_not_rejected (h : Host ι σ) (c : Chain ι) (incoming : Option Value) (f : Frame σ)
    (hc : 0 < c.cells.length) (why : Rejection) :
    (follow h (fun _ _ => none) c 0 incoming f).2.1 ≠ .rejected why := by
  intro hhalt
  obtain ⟨hne, -, -, -, hlast, -⟩ := follow_followed h (fun _ _ => none) c 0 incoming f hc
  obtain ⟨next, hnext⟩ := hlast _ (List.getLast?_eq_some_getLast hne)
  have hunseen := follow_unseen h c 0 incoming f _ (List.getLast_mem hne) why
  rw [hhalt] at hnext
  cases hv : (List.getLast _ hne).verdict with
  | rejects why' =>
    rw [hv] at hnext hunseen
    injection hnext with he
    exact hunseen (congrArg _ he.symm)
  | passes | fails | waits => rw [hv] at hnext; cases hnext

theorem setOff_inFlight (h : Host ι ε) (id : ChainId) (hhead : c.prunes 0 = false) (hm : 0 < m)
    (hl : c.Leads c.cuts 0 m) (s : Shot ε) : InFlight c m id (c.setOff h id s) := by
  have horderly := (Course.orderly_kept (h := h)).cells
    (launch_cells h id c s.event s.ctx s.state) (Orderly.launched h id c s.event s.ctx s.state)
  have hcuts := mem_follow_cuts h (fun _ _ => none) c 0 c.initial (c.opening s.event s.ctx s.state)
  have hcovers :=
    follow_covers h (fun _ _ => none) c.initial (c.opening s.event s.ctx s.state) hhead hm hl
  have hunseen := follow_not_rejected h c c.initial (c.opening s.event s.ctx s.state)
    (Nat.lt_of_lt_of_le hm hl.1)
  unfold setOff
  unfold launch at horderly ⊢
  generalize follow h (fun _ _ => none) c 0 c.initial (c.opening s.event s.ctx s.state) = run
    at horderly hcuts hcovers hunseen ⊢
  obtain ⟨visits, halt, g⟩ := run
  obtain ⟨hbounded, hfinished, hresumes, hpruned⟩ := hcovers
  simp only [Nat.zero_add] at hbounded hfinished hresumes hpruned
  refine ⟨rfl, rfl, horderly, hbounded, hcuts, ?_, ?_, hpruned⟩
  · intro hdone
    cases halt with
    | done value => exact hfinished value rfl
    | failed | rejected | waiting => cases hdone
  · intro rest hrest
    cases halt with
    | done | failed => cases hrest
    | rejected why => exact absurd rfl (hunseen why)
    | waiting p next =>
      cases hrest
      exact hresumes p next rfl

theorem InFlight.stays (hr : InFlight c m id r) {rest : Suspended} (hrest : r.1.rest? = some rest)
    {polled : Polled} {rejections : List Rejection}
    (horderly : Orderly id r.2 (r.1.extend polled [] rejections))
    (hdone : (∃ o, polled = .done o) → r.1.visits.length = m)
    (hwait : ∀ g ∈ polled.rest?, g = rest) :
    InFlight c m id (r.1.extend polled [] rejections, r.2) := by
  refine ⟨hr.cells, hr.initial, horderly, ?_, ?_, ?_, ?_, ?_⟩
  · simpa [Firing.extend] using hr.bounded
  · simpa [Firing.extend] using hr.cuts
  · intro hd
    simpa [Firing.extend] using hdone (Firing.isDone_extend.mp hd)
  · intro g hg
    rw [Firing.rest?_extend] at hg
    rw [hwait g hg]
    simpa [Firing.extend] using hr.resumes rest hrest
  · simpa [Firing.extend] using hr.pruned

theorem InFlight.runs (hr : InFlight c m id r) {visits : List Visit} {halt : Halt} {g : Frame ε}
    (hne : visits ≠ []) (hcovers : r.2.Covers r.1.visits.length m visits halt)
    (hcuts : ∀ k, k ∈ g.cuts ↔
      k ∈ r.2.cuts ∨ ∃ v ∈ visits, r.2.prunes v.place = true ∧ k = v.place - 1)
    {polled : Polled} {rejections : List Rejection}
    (horderly : Orderly id (r.2.leave g) (r.1.extend polled visits rejections))
    (hdone : ∀ o, polled = .done o → ∃ value, halt = .done value)
    (hwait : ∀ rest ∈ polled.rest?, ∃ p, halt = .waiting p rest.next) :
    InFlight c m id (r.1.extend polled visits rejections, r.2.leave g) := by
  have hprunes := prunes_congr hr.cells
  have hlast : (r.1.visits ++ visits).getLast? = visits.getLast? := by
    rw [List.getLast?_append, List.getLast?_eq_some_getLast hne]
    rfl
  refine ⟨hr.cells, hr.initial, horderly, ?_, ?_, ?_, ?_, ?_⟩
  · simpa [Firing.extend] using hcovers.bounded
  · intro k
    change k ∈ g.cuts ↔ _
    rw [hcuts, hr.cuts]
    simp only [Firing.extend, List.mem_append, or_and_right, exists_or, hprunes, or_assoc]
  · intro hd
    obtain ⟨o, hpolled⟩ := Firing.isDone_extend.mp hd
    obtain ⟨value, hv⟩ := hdone o hpolled
    simpa [Firing.extend] using hcovers.finished value hv
  · intro rest hrest
    rw [Firing.rest?_extend] at hrest
    obtain ⟨p, hv⟩ := hwait rest hrest
    simpa [Firing.extend] using hcovers.resumes p rest.next hv
  · intro v hv hpv
    have hv' : v ∈ visits.getLast? := hlast ▸ hv
    simpa [Firing.extend] using hcovers.pruned v hv' (hprunes v.place ▸ hpv)

theorem InFlight.resumed (hr : InFlight c m id r) (hhead : c.prunes 0 = false)
    (hl : c.Leads c.cuts 0 m) (hlt : r.1.visits.length < m) {rest : Suspended}
    (hnext : rest.next = some r.1.visits.length) {value : Option Value} {state : ε}
    (hp : h.settlement? rest.promise state = some (.fulfilled value))
    (horderly : Orderly id (r.2.proceed h rest state).chain
      (r.1.extend (r.2.proceed h rest state).polled (r.2.proceed h rest state).visits
        (r.2.proceed h rest state).rejections)) :
    InFlight c m id
      (r.1.extend (r.2.proceed h rest state).polled (r.2.proceed h rest state).visits
          (r.2.proceed h rest state).rejections,
        (r.2.proceed h rest state).chain) := by
  have hlead := hr.leads hl
  have hhead' : r.2.prunes 0 = false := (prunes_congr hr.cells 0).trans hhead
  have hcovers := follow_covers h h.settlement? value ⟨rest.ctx, r.2.stack, r.2.cuts, state⟩
    hhead' hlt hlead
  have hcuts := mem_follow_cuts h h.settlement? r.2 r.1.visits.length value
    ⟨rest.ctx, r.2.stack, r.2.cuts, state⟩
  have hne := (follow_followed h h.settlement? r.2 r.1.visits.length value
    ⟨rest.ctx, r.2.stack, r.2.cuts, state⟩ (Nat.lt_of_lt_of_le hlt hlead.1)).nonempty
  unfold proceed at horderly ⊢
  simp only [hp, hnext] at horderly ⊢
  generalize follow h h.settlement? r.2 r.1.visits.length value _ = run
    at horderly hcovers hcuts hne ⊢
  obtain ⟨visits, halt, g⟩ := run
  cases halt with
  | done value =>
    refine hr.runs hne hcovers hcuts horderly ?_ ?_
    · intro o _
      exact ⟨value, rfl⟩
    · intro rest' hrest'
      cases hrest'
  | failed e | rejected why =>
    refine hr.runs hne hcovers hcuts horderly ?_ ?_
    · intro o ho
      cases ho
    · intro rest' hrest'
      cases hrest'
  | waiting p next =>
    refine hr.runs hne hcovers hcuts horderly ?_ ?_
    · intro o ho
      cases ho
    · intro rest' hrest'
      cases hrest'
      exact ⟨p, rfl⟩

theorem InFlight.goes_on (hr : InFlight c m id r) (hhead : c.prunes 0 = false)
    (hl : c.Leads c.cuts 0 m) {rest : Suspended} (hrest : r.1.rest? = some rest) (state : ε) :
    InFlight c m id
      (r.1.extend (r.2.proceed h rest state).polled (r.2.proceed h rest state).visits
          (r.2.proceed h rest state).rejections,
        (r.2.proceed h rest state).chain) := by
  have horderly := (Course.orderly_kept (h := h)).cells (proceed_cells h r.2 rest state)
    (hr.orderly.proceeded h hrest state)
  have hnext := hr.resumes rest hrest
  cases hp : h.settlement? rest.promise state with
  | none =>
    unfold proceed at horderly ⊢
    simp only [hp] at horderly ⊢
    refine hr.stays hrest horderly ?_ ?_
    · rintro ⟨o, ho⟩
      cases ho
    · intro g hg
      cases hg
      rfl
  | some settlement =>
    cases settlement with
    | rejected why =>
      unfold proceed at horderly ⊢
      simp only [hp] at horderly ⊢
      refine hr.stays hrest horderly ?_ ?_
      · rintro ⟨o, ho⟩
        cases ho
      · intro g hg
        cases hg
    | fulfilled value =>
      by_cases hlt : r.1.visits.length < m
      · rw [if_pos hlt] at hnext
        exact hr.resumed hhead hl hlt hnext hp horderly
      · rw [if_neg hlt] at hnext
        unfold proceed at horderly ⊢
        simp only [hp, hnext] at horderly ⊢
        refine hr.stays hrest horderly ?_ ?_
        · intro _
          exact Nat.le_antisymm hr.bounded (Nat.le_of_not_lt hlt)
        · intro g hg
          cases hg

theorem look_inFlight (hr : InFlight c m id r) (hhead : c.prunes 0 = false)
    (hl : c.Leads c.cuts 0 m) (state : ε) : InFlight c m id (look h r state) := by
  unfold look
  cases hrest : r.1.rest? with
  | none => exact hr
  | some rest => exact hr.goes_on hhead hl hrest state

theorem looks_inFlight (hr : InFlight c m id r) (hhead : c.prunes 0 = false)
    (hl : c.Leads c.cuts 0 m) (states : List ε) :
    InFlight c m id (states.foldl (look h) r) := by
  induction states generalizing r with
  | nil => exact hr
  | cons state states ih => exact ih (look_inFlight hr hhead hl state)

theorem shoot_inFlight (h : Host ι ε) (id : ChainId) (hhead : c.prunes 0 = false) (hm : 0 < m)
    (hl : c.Leads c.cuts 0 m) (s : Shot ε) : InFlight c m id (c.shoot h id s) :=
  looks_inFlight (setOff_inFlight h id hhead hm hl s) hhead hl s.looks

/-- Chains that have the same cells up to place `m`, to which their links lead. -/
structure Agree (m : Nat) (c d : Chain ι) : Prop where
  leads : c.Leads c.cuts 0 m
  leads' : d.Leads d.cuts 0 m
  cells : ∀ j < m, d.cells[j]? = c.cells[j]?
  head : c.prunes 0 = false
  initial : d.initial = c.initial

theorem Agree.head' (ha : Agree m c d) (hm : 0 < m) : d.prunes 0 = false := by
  rw [prunes, ha.cells 0 hm]
  exact ha.head

theorem setOff_alike (h : Host ι ε) (id : ChainId) (ha : Agree m c d) (hm : 0 < m) (s : Shot ε) :
    (d.setOff h id s).1 = (c.setOff h id s).1 ∧
      (d.setOff h id s).2.stack = (c.setOff h id s).2.stack := by
  obtain ⟨left, hleft⟩ := follow_withCuts h (fun _ _ => none) c.initial
    (c.opening s.event s.ctx s.state) ha.cells ha.head d.cuts hm ha.leads ha.leads'
  have hopening : d.opening s.event s.ctx s.state =
      (c.opening s.event s.ctx s.state).withCuts d.cuts := rfl
  unfold setOff launch
  rw [ha.initial, hopening, hleft]
  exact ⟨rfl, rfl⟩

theorem proceed_alike (ha : Agree m c d) {f : Firing} {c' d' : Chain ι}
    (hc : InFlight c m id (f, c')) (hd : InFlight d m id (f, d')) (hstack : d'.stack = c'.stack)
    {rest : Suspended} (hrest : f.rest? = some rest) (state : ε) :
    (d'.proceed h rest state).polled = (c'.proceed h rest state).polled ∧
    (d'.proceed h rest state).visits = (c'.proceed h rest state).visits ∧
    (d'.proceed h rest state).rejections = (c'.proceed h rest state).rejections ∧
    (d'.proceed h rest state).chain.stack = (c'.proceed h rest state).chain.stack := by
  have hnext := hc.resumes rest hrest
  unfold proceed
  cases hp : h.settlement? rest.promise state with
  | none => exact ⟨rfl, rfl, rfl, hstack⟩
  | some settlement =>
    cases settlement with
    | rejected why => exact ⟨rfl, rfl, rfl, hstack⟩
    | fulfilled value =>
      by_cases hlt : f.visits.length < m
      · have hcells : ∀ j < m, d'.cells[j]? = c'.cells[j]? := by
          intro j hj
          rw [hd.cells, hc.cells]
          exact ha.cells j hj
        have hhead : c'.prunes 0 = false := (prunes_congr hc.cells 0).trans ha.head
        obtain ⟨left, hleft⟩ := follow_withCuts h h.settlement? value
          ⟨rest.ctx, c'.stack, c'.cuts, state⟩ hcells hhead d'.cuts hlt (hc.leads ha.leads)
          (hd.leads ha.leads')
        rw [if_pos hlt] at hnext
        simp only [Frame.withCuts] at hleft
        simp only [hnext, hstack, hleft]
        generalize follow h h.settlement? c' f.visits.length value _ = run
        obtain ⟨visits, halt, g⟩ := run
        cases halt <;> exact ⟨rfl, rfl, rfl, rfl⟩
      · rw [if_neg hlt] at hnext
        simp only [hnext]
        exact ⟨trivial, trivial, trivial, hstack⟩

theorem look_alike (ha : Agree m c d) {f : Firing} {c' d' : Chain ι}
    (hc : InFlight c m id (f, c')) (hd : InFlight d m id (f, d')) (hstack : d'.stack = c'.stack)
    (state : ε) :
    (look h (f, d') state).1 = (look h (f, c') state).1 ∧
      (look h (f, d') state).2.stack = (look h (f, c') state).2.stack := by
  unfold look
  cases hrest : f.rest? with
  | none => simpa only using ⟨trivial, hstack⟩
  | some rest =>
    obtain ⟨hpolled, hvisits, hrejections, hstack'⟩ :=
      proceed_alike (h := h) ha hc hd hstack hrest state
    simp only [hpolled, hvisits, hrejections, hstack', and_self]

theorem shoot_alike (h : Host ι ε) (id : ChainId) (ha : Agree m c d) (hm : 0 < m) (s : Shot ε) :
    (d.shoot h id s).1 = (c.shoot h id s).1 ∧
      (d.shoot h id s).2.stack = (c.shoot h id s).2.stack := by
  have hlooks : ∀ (states : List ε) (r r' : Firing × Chain ι), InFlight c m id r →
      InFlight d m id r' → r'.1 = r.1 → r'.2.stack = r.2.stack →
      (states.foldl (look h) r').1 = (states.foldl (look h) r).1 ∧
        (states.foldl (look h) r').2.stack = (states.foldl (look h) r).2.stack := by
    intro states
    induction states with
    | nil => exact fun _ _ _ _ hfiring hstack => ⟨hfiring, hstack⟩
    | cons state states ih =>
      rintro ⟨f, c'⟩ ⟨f', d'⟩ hc hd rfl hstack
      obtain ⟨hfiring, hstack'⟩ := look_alike (h := h) ha hc hd hstack state
      exact ih _ _ (look_inFlight hc ha.head ha.leads state)
        (look_inFlight hd (ha.head' hm) ha.leads' state) hfiring hstack'
  obtain ⟨hfiring, hstack⟩ := setOff_alike h id ha hm s
  exact hlooks s.looks _ _ (setOff_inFlight h id ha.head hm ha.leads s)
    (setOff_inFlight h id (ha.head' hm) hm ha.leads' s) hfiring hstack

end Chain

namespace Shot

def moves (id : ChainId) (n : Nat) (s : Shot ε) : List (Move ε) :=
  ⟨s.state, .fire id s.event s.ctx⟩ :: s.looks.map fun state => ⟨state, .poll id n⟩

def allMoves (id : ChainId) : Nat → List (Shot ε) → List (Move ε)
  | _, [] => []
  | n, s :: rest => s.moves id n ++ allMoves id (n + 1) rest

end Shot

namespace Course

variable {h : Host ι ε} {p : Course ι ε} {id : ChainId} {c : Chain ι}

theorem step_look {fs : List Firing} {f : Firing} (hc : p.Rests id c)
    (hf : p.firings id = fs ++ [f]) (ho : Orderly id c f) (state : ε) :
    (p.step h ⟨state, .poll id fs.length⟩).Rests id (Chain.look h (f, c) state).2 ∧
      (p.step h ⟨state, .poll id fs.length⟩).firings id =
        fs ++ [(Chain.look h (f, c) state).1] := by
  have hrests : (p.withState state).Rests id c := hc
  have hget : ((p.withState state).firings id)[fs.length]? = some f := by
    simp [withState, hf]
  unfold step act Chain.look
  cases hr : f.rest? with
  | none =>
    simp only [poll, hget, hrests.chain, hr]
    exact ⟨hc, hf⟩
  | some rest =>
    simp only [poll_eq h hrests hget hr (ho.home rest hr)]
    refine ⟨record_rests hrests .., ?_⟩
    rw [record_firings_self]
    simp [withState, hf]

theorem play_looks {fs : List Firing} {r : Firing × Chain ι} {d : Chain ι} {m : Nat}
    (hr : d.InFlight m id r) (hhead : d.prunes 0 = false) (hl : d.Leads d.cuts 0 m)
    (hc : p.Rests id r.2) (hf : p.firings id = fs ++ [r.1]) (states : List ε) :
    (p.play h (states.map fun state => ⟨state, .poll id fs.length⟩)).Rests id
        (states.foldl (Chain.look h) r).2 ∧
      (p.play h (states.map fun state => ⟨state, .poll id fs.length⟩)).firings id =
        fs ++ [(states.foldl (Chain.look h) r).1] := by
  induction states generalizing p r with
  | nil => exact ⟨hc, hf⟩
  | cons state states ih =>
    obtain ⟨hc', hf'⟩ := step_look (h := h) hc hf hr.orderly state
    exact ih (Chain.look_inFlight hr hhead hl state) hc' hf'

/-- A shot in a course is a shot of the chain by itself. -/
theorem play_shot (h : Host ι ε) (id : ChainId) {m : Nat} (hc : p.Rests id c)
    (hhead : c.prunes 0 = false) (hm : 0 < m) (hl : c.Leads c.cuts 0 m) {n : Nat}
    (hn : (p.firings id).length = n) (s : Shot ε) :
    (p.play h (s.moves id n)).Rests id (c.shoot h id s).2 ∧
      (p.play h (s.moves id n)).firings id = p.firings id ++ [(c.shoot h id s).1] := by
  subst hn
  have hrests : (p.withState s.state).Rests id c := hc
  have hfire : p.step h ⟨s.state, .fire id s.event s.ctx⟩ = _ :=
    fire_eq h hrests s.event s.ctx
  have hr := Chain.setOff_inFlight h id hhead hm hl s
  have hfired : (p.step h ⟨s.state, .fire id s.event s.ctx⟩).firings id =
      p.firings id ++ [(c.setOff h id s).1] := by
    rw [hfire]
    exact record_firings_self ..
  have hstill : (p.step h ⟨s.state, .fire id s.event s.ctx⟩).Rests id (c.setOff h id s).2 := by
    rw [hfire]
    exact record_rests hrests ..
  exact play_looks hr hhead hl hstill hfired s.looks

/-- How a chain stands between shots: its links lead as far as the prunes of its firings allow. -/
structure Stands (p : Course ι ε) (id : ChainId) (c c' : Chain ι) : Prop where
  rests : p.Rests id c'
  cells : c'.cells = c.cells
  initial : c'.initial = c.initial
  uncut : (p.firings id).any (·.prunes c) = false → ∀ k, k ∈ c'.cuts ↔ k ∈ c.cuts
  leads : c'.Leads c'.cuts 0 (c.extent ((p.firings id).any (·.prunes c)))

theorem stands_self (hc : p.Rests id c) (hnone : p.firings id = []) : p.Stands id c c := by
  refine ⟨hc, rfl, rfl, ?_, ?_⟩
  · intro _ k
    exact Iff.rfl
  · rw [hnone]
    exact c.leads_extent

theorem Stands.still_uncut {c' : Chain ι} {m : Nat} {r : Firing × Chain ι}
    (hs : p.Stands id c c') (hr : c'.InFlight m id r) (hp : r.1.prunes c = false) (k : Nat) :
    k ∈ r.2.cuts ↔ k ∈ c'.cuts := by
  rw [hr.cuts, or_iff_left_iff_imp]
  rintro ⟨v, hv, hpv, -⟩
  rw [Chain.prunes_congr hs.cells] at hpv
  exact absurd hpv (List.any_eq_false.mp hp v hv)

theorem no_later_prune {c' : Chain ι} {r : Firing × Chain ι}
    (hr : c'.InFlight (c.extent true) id r) : r.1.prunes c = false := by
  apply List.any_eq_false.mpr
  intro v hv hpv
  have hlt : v.place < c.extent true := Nat.lt_of_lt_of_le (hr.place_lt hv) hr.bounded
  rw [Chain.not_prunes_of_lt_extent hlt] at hpv
  cases hpv

theorem Stands.leads_after {c' : Chain ι} {r : Firing × Chain ι} (hs : p.Stands id c c')
    (hhead : c.prunes 0 = false)
    (hr : c'.InFlight (c.extent ((p.firings id).any (·.prunes c))) id r) :
    r.2.Leads r.2.cuts 0 (c.extent ((p.firings id).any (·.prunes c) || r.1.prunes c)) := by
  cases hp : r.1.prunes c with
  | false =>
    rw [Bool.or_false]
    exact hs.leads.congr hr.cells (hs.still_uncut hr hp)
  | true =>
    obtain ⟨v, hv, hpv⟩ := List.any_eq_true.mp hp
    cases hb : (p.firings id).any (·.prunes c) with
    | true =>
      rw [hb] at hr
      rw [no_later_prune hr] at hp
      cases hp
    | false =>
      have hbounded := hr.bounded
      rw [hb] at hbounded
      have hcuts : ∀ k, k ∈ r.2.cuts ↔
          k ∈ c.cuts ∨ ∃ v ∈ r.1.visits, c.prunes v.place = true ∧ k = v.place - 1 := by
        intro k
        rw [hr.cuts, hs.uncut hb]
        simp only [Chain.prunes_congr hs.cells]
      have hleads := Chain.leads_pruned hhead hcuts hr.orderly.places hbounded ⟨v, hv, hpv⟩
      exact hleads.congr (hr.cells.trans hs.cells) fun _ => Iff.rfl

theorem Stands.shot {c' : Chain ι} (hs : p.Stands id c c') (hhead : c.prunes 0 = false)
    (hpos : ∀ b, 0 < c.extent b) {n : Nat} (hn : (p.firings id).length = n) (s : Shot ε) :
    (p.play h (s.moves id n)).Stands id c (c'.shoot h id s).2 ∧
      (p.play h (s.moves id n)).firings id = p.firings id ++ [(c'.shoot h id s).1] := by
  have hhead' : c'.prunes 0 = false := (Chain.prunes_congr hs.cells 0).trans hhead
  obtain ⟨hrests, hfirings⟩ := play_shot h id hs.rests hhead' (hpos _) hs.leads hn s
  have hr := Chain.shoot_inFlight h id hhead' (hpos _) hs.leads s
  generalize c'.shoot h id s = r at hrests hfirings hr ⊢
  have hany : ((p.play h (s.moves id n)).firings id).any (·.prunes c) =
      ((p.firings id).any (·.prunes c) || r.1.prunes c) := by
    rw [hfirings]
    simp
  refine ⟨⟨hrests, hr.cells.trans hs.cells, hr.initial.trans hs.initial, ?_, ?_⟩, hfirings⟩
  · intro hnone k
    rw [hany, Bool.or_eq_false_iff] at hnone
    exact (hs.still_uncut hr hnone.2 k).trans (hs.uncut hnone.1 k)
  · rw [hany]
    exact hs.leads_after hhead hr

theorem Stands.shots {c' : Chain ι} (hs : p.Stands id c c') (hhead : c.prunes 0 = false)
    (hpos : ∀ b, 0 < c.extent b) (shots : List (Shot ε)) {n : Nat}
    (hn : (p.firings id).length = n) :
    (∃ c'', (p.play h (Shot.allMoves id n shots)).Stands id c c'') ∧
      ((p.play h (Shot.allMoves id n shots)).firings id).length = n + shots.length := by
  induction shots generalizing p c' n with
  | nil => exact ⟨⟨c', hs⟩, hn⟩
  | cons s shots ih =>
    obtain ⟨hs', hfirings⟩ := hs.shot (h := h) hhead hpos hn s
    have hn' : ((p.play h (s.moves id n)).firings id).length = n + 1 := by
      rw [hfirings]
      simp [hn]
    rw [Shot.allMoves, play_append]
    have hrest := ih hs' hn'
    rw [List.length_cons, Nat.add_comm shots.length, ← Nat.add_assoc]
    exact hrest

/-- A fresh chain of the cells that are still reached is fired like the chain itself. -/
theorem Stands.agree {c' fresh : Chain ι} (hs : p.Stands id c c') (hhead : c.prunes 0 = false)
    (hcells : fresh.cells = if (p.firings id).any (·.prunes c) then
      c.reached.takeWhile (!·.isPrune) else c.reached)
    (hinitial : fresh.initial = c.initial) (hcuts : fresh.cuts = []) :
    fresh.size = c.extent ((p.firings id).any (·.prunes c)) ∧ Chain.Agree fresh.size c' fresh := by
  have hsize : fresh.size = c.extent ((p.firings id).any (·.prunes c)) :=
    congrArg List.length hcells
  have hprefix : fresh.cells <+: c.cells := by
    rw [hcells]
    have hwhole := Chain.reachedFrom_isPrefix c.cuts 0 c.cells
    split
    · exact (List.takeWhile_prefix _).trans hwhole
    · exact hwhole
  refine ⟨hsize, hsize ▸ hs.leads, ⟨Nat.le_refl _, ?_⟩, ?_, ?_, ?_⟩
  · intro j _ hj
    simp [hcuts, Chain.size]
  · intro j hj
    rw [hs.cells]
    have hget := List.prefix_iff_getElem?.mp hprefix j hj
    rw [hget, List.getElem?_eq_getElem hj]
  · exact (Chain.prunes_congr hs.cells 0).trans hhead
  · exact hinitial.trans hs.initial.symm

/-- A chain, compiled or copied, is fired any number of times, and each firing is looked after for a
while and then left alone, wherever it stands. The next firing, looked after alike, is the first
firing of a fresh chain: of the one with all cells that the chain is linked to, or if an earlier
firing has invoked a prune, of the one with the cells in front of the first prune. A firing that
comes to its value has invoked all these cells, and no prune is the last cell of a firing unless
there is no other behind it. -/
theorem fires_like_fresh (b : Behaviour ι ω) (w : ω) (triggers : List Trigger)
    (cells : List (Cell ι)) (initial : Option Value) (cuts : List Nat) (stack : Stack)
    (shots : List (Shot ω)) (shot : Shot ω) :
    let c : Chain ι := ⟨triggers, .head triggers :: cells, initial, cuts, stack⟩
    let before := (start [c] w).play b.host (Shot.allMoves ⟨0⟩ 0 shots)
    let after := before.play b.host (shot.moves ⟨0⟩ shots.length)
    let linked := c.reached.tail
    let left :=
      if (before.firings ⟨0⟩).any (·.prunes c) then linked.takeWhile (!·.isPrune) else linked
    let fresh := (Chain.ofCells triggers left).rebind initial
    let alone := (start [fresh] w).play b.host (shot.moves ⟨0⟩ 0)
    (cuts = [] → linked = cells) ∧
    ∃ f d e, (after.firings ⟨0⟩)[shots.length]? = some f ∧ (alone.firings ⟨0⟩)[0]? = some f ∧
      after.stage.chain? ⟨0⟩ = some d ∧ alone.stage.chain? ⟨0⟩ = some e ∧ d.stack = e.stack ∧
      f.visits.map Visit.place = List.range f.visits.length ∧
      (f.isDone = true → f.visits.length = fresh.size) ∧
      ∀ v ∈ f.visits.getLast?, c.prunes v.place = true → f.visits.length = fresh.size := by
  intro c before after linked left fresh alone
  have hhead : c.prunes 0 = false := rfl
  have hreached : c.reached = .head triggers :: linked := by
    simp only [linked, Chain.reached, c, Chain.reachedFrom]
    split <;> rfl
  have hpos : ∀ b, 0 < c.extent b := by
    intro b
    cases b <;> simp [Chain.extent, hreached, Cell.isPrune, Cell.head]
  -- The fresh chain consists of the first cells of the chain.
  have hcells : fresh.cells = if (before.firings ⟨0⟩).any (·.prunes c) then
      c.reached.takeWhile (!·.isPrune) else c.reached := by
    simp only [fresh, left, Chain.rebind, Chain.ofCells, hreached]
    split <;> simp [Cell.isPrune, Cell.head]
  have hstart : (start [c] w).Stands ⟨0⟩ c c := stands_self (show _ = _ from rfl) rfl
  obtain ⟨⟨c', hs⟩, hlength⟩ := hstart.shots (h := b.host) hhead hpos shots (n := 0) rfl
  rw [Nat.zero_add] at hlength
  obtain ⟨hsize, hagree⟩ := hs.agree hhead hcells Option.or_none rfl
  have hm : 0 < fresh.size := hsize ▸ hpos _
  obtain ⟨hfiring, hstack⟩ := Chain.shoot_alike b.host ⟨0⟩ hagree hm shot
  obtain ⟨hafter, hfirings⟩ := hs.shot (h := b.host) hhead hpos hlength shot
  obtain ⟨hrests, hfirst⟩ := play_shot b.host ⟨0⟩ (p := start [fresh] w) (c := fresh) rfl
    (hagree.head' hm) hm hagree.leads' (n := 0) rfl shot
  have hflight := Chain.shoot_inFlight b.host ⟨0⟩ hagree.head hm hagree.leads shot
  refine ⟨?_, (c'.shoot b.host ⟨0⟩ shot).1, (c'.shoot b.host ⟨0⟩ shot).2,
    (fresh.shoot b.host ⟨0⟩ shot).2, ?_, ?_, hafter.rests.chain, hrests.chain, hstack.symm,
    hflight.orderly.places, hflight.finished, ?_⟩
  · intro hnone
    simp only [linked, Chain.reached, c, hnone, Chain.reachedFrom_nil, List.tail_cons]
  · simp [after, before, hfirings, hlength]
  · rw [hfirst, hfiring]
    rfl
  · intro v hv hp
    exact hflight.pruned v hv ((Chain.prunes_congr hs.cells v.place).trans hp)

def curtailedCells : List (Cell (Except Error Reply)) :=
  [.call (.plain (.ok (.value (.bool true))) none) ⟨"value", [], none⟩,
    .call .prune ⟨"prune", [], none⟩,
    .call (.plain (.ok (.pending (.ticket 0))) none) ⟨"wait", [], none⟩]

def click : Shot (Nat → Option Settlement) :=
  ⟨.fresh "click" ⟨0⟩ none, .blank, fun _ => none, []⟩

/-- The chain is fired twice, and the first firing is left alone where it waits. -/
def curtailed : Course (Except Error Reply) (Nat → Option Settlement) :=
  ((start [⟨[], .head [] :: curtailedCells, none, [], .empty⟩] fun _ => none).play
    Behaviour.echo.host (Shot.allMoves ⟨0⟩ 0 [click])).play Behaviour.echo.host (click.moves ⟨0⟩ 1)

theorem curtailed_like_fresh :
    ∃ f, (curtailed.firings ⟨0⟩)[1]? = some f ∧ f.isDone = true ∧
      f.visits.map Visit.place = List.range 2 := by
  have hend : ((curtailed.firings ⟨0⟩)[1]?).map Firing.isDone = some true := by decide +kernel
  obtain ⟨-, f, -, -, hf, -, -, -, -, hplaces, hdone, -⟩ := fires_like_fresh Behaviour.echo
    (fun _ => none) [] curtailedCells none [] .empty [click] click
  have hf' : (curtailed.firings ⟨0⟩)[1]? = some f := hf
  rw [hf'] at hend
  have hf_done : f.isDone = true := Option.some.inj hend
  have hsize : f.visits.length = 2 := by
    rw [hdone hf_done]
    decide +kernel
  rw [hsize] at hplaces
  exact ⟨f, hf', hf_done, hplaces⟩

end Course

end AttrChain
