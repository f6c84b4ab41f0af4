import AttrChain.Proofs.Independence
import AttrChain.Proofs.Unlinking

/-!
The links of a chain at every instant of a course, with any number of firings suspended. Links are
only ever cut. A chain shows all its labels until one of its firings comes to the first prune, and
from then on those in front of it.
-/

namespace AttrChain

variable {ι ε : Type}

namespace Instant

/-- What a chain has lost of its links from one instant to a later one. -/
structure Later (x y : Instant ι) : Prop where
  cells : y.chain.cells = x.chain.cells
  cuts : ∀ k ∈ x.chain.cuts, k ∈ y.chain.cuts

instance : Trans (Later (ι := ι)) Later Later where
  trans := fun hxy hyz => ⟨hyz.cells.trans hxy.cells, fun k hk => hyz.cuts k (hxy.cuts k hk)⟩

theorem Next.later {x y : Instant ι} (hxy : x.Next y) : x.Later y :=
  ⟨hxy.cells, fun k hk => (hxy.cuts k).mpr (.inl hk)⟩

theorem pairwise_later {instants : List (Instant ι)} (hjoined : instants.IsChain Next) :
    instants.Pairwise Later :=
  List.isChain_iff_pairwise.mp (hjoined.imp fun _ _ => Next.later)

theorem Later.next_eq_none {x y : Instant ι} (hxy : x.Later y) {i : Nat}
    (hi : x.chain.next? i = none) : y.chain.next? i = none := by
  unfold Chain.next? at hi ⊢
  rw [hxy.cells]
  split at hi
  · cases hi
  next hlink =>
    rw [if_neg]
    rintro ⟨hlen, hcut⟩
    exact hlink ⟨hlen, fun hk => hcut (hxy.cuts i hk)⟩

theorem invoked_lt {x y : Instant ι} {instants : List (Instant ι)}
    (hjoined : (x :: instants).IsChain Next) (hy : y ∈ instants) {j : Nat}
    (hj : y.invoked = some j) : j < x.chain.cells.length := by
  induction instants generalizing x with
  | nil => cases hy
  | cons z instants ih =>
    cases hjoined with
    | cons_cons hxz hrest =>
      rcases List.mem_cons.mp hy with rfl | hy
      · exact hxz.here j hj
      · exact hxz.cells ▸ ih hrest hy

/-- The links that are cut at an instant: those cut before, and those to the prunes that were
invoked since then. -/
theorem mem_cuts {x y : Instant ι} {earlier later : List (Instant ι)}
    (hjoined : (x :: (earlier ++ y :: later)).IsChain Next) (k : Nat) :
    k ∈ y.chain.cuts ↔ k ∈ x.chain.cuts ∨
      ∃ j, some j ∈ (earlier ++ [y]).map invoked ∧ x.chain.prunes j = true ∧ k = j - 1 := by
  induction earlier generalizing x with
  | nil =>
    cases hjoined with
    | cons_cons hxy _ =>
      simp only [hxy.cuts, List.nil_append, List.map_cons, List.map_nil, List.mem_singleton,
        Option.mem_def, eq_comm (a := y.invoked)]
  | cons z earlier ih =>
    cases hjoined with
    | cons_cons hxz hrest =>
      have hprunes : z.chain.prunes = x.chain.prunes := funext (Chain.prunes_congr hxz.cells)
      rw [ih hrest, hxz.cuts, hprunes, or_assoc]
      simp only [List.cons_append, List.map_cons, List.mem_cons, Option.mem_def, or_and_right,
        exists_or, eq_comm (a := z.invoked)]

/-- The link to the first prune is cut at an instant if it was before, or if the prune was invoked
since then. -/
theorem firstPrune_cut {x y : Instant ι} {earlier later : List (Instant ι)}
    (hhead : x.chain.prunes 0 = false)
    (hjoined : (x :: (earlier ++ y :: later)).IsChain Next) :
    x.chain.firstPrune - 1 ∈ y.chain.cuts ↔
      x.chain.firstPrune - 1 ∈ x.chain.cuts ∨
        some x.chain.firstPrune ∈ (earlier ++ [y]).map invoked := by
  rw [mem_cuts hjoined]
  apply or_congr_right
  constructor
  · rintro ⟨j, hj, hprune, hplace⟩
    have hpos := Chain.pos_of_prunes hhead hprune
    have hfirst := Chain.firstPrune_le hprune
    have hlen := (Chain.isPrune_of_prunes hprune).1
    have hstart := Chain.pos_of_prunes hhead (Chain.prunes_firstPrune (by omega))
    obtain rfl : x.chain.firstPrune = j := by omega
    exact hj
  · intro hmem
    refine ⟨_, hmem, Chain.prunes_firstPrune ?_, rfl⟩
    obtain ⟨z, hz, hinvoked⟩ := List.mem_map.mp hmem
    have hlater : z ∈ earlier ++ y :: later := by
      rw [← List.singleton_append, ← List.append_assoc]
      exact List.mem_append_left later hz
    exact invoked_lt hjoined hlater hinvoked

end Instant

namespace Course

variable {h : Host ι ε} {p : Course ι ε}

/-- Each chain is kempt, with the cuts that its firings have made behind them. -/
def Kempt (p : Course ι ε) : Prop :=
  ∀ id c, p.Rests id c → c.Kempt ∧ ∀ f ∈ p.firings id, c.Trimmed c.cuts f.visits.length

theorem start_rests {rows : List (List Trigger × List (Cell ι))} {state : ε} {id : ChainId}
    {c : Chain ι} (hc : (start (rows.map fun r => .ofCells r.1 r.2) state).Rests id c) :
    ∃ r ∈ rows, .ofCells r.1 r.2 = c := by
  have hslot := List.mem_of_getElem? hc
  simpa [start, Stage.ofChains] using hslot

theorem start_kempt (rows : List (List Trigger × List (Cell ι))) (state : ε) :
    (start (rows.map fun r => .ofCells r.1 r.2) state).Kempt := by
  intro id c hc
  obtain ⟨⟨triggers, cells⟩, -, rfl⟩ := start_rests hc
  refine ⟨⟨rfl, ?_⟩, by simp [start]⟩
  constructor
  · intro k hk
    cases hk
  · intro k hk
    cases hk
  · intro hlt
    cases hlt

theorem record_kempt (hp : p.Kempt) {id : ChainId} {c d : Chain ι} {instants : List (Instant ι)}
    (hc : p.Rests id c) (hpasses : c.Passes instants d) (state : ε) (rejections : List Rejection)
    {firings : List Firing} (ht : c.Trimmed d.cuts 0)
    (hfs : ∀ f ∈ firings, c.Trimmed d.cuts f.visits.length) :
    (p.record id d state rejections firings).Kempt := by
  intro a b hb
  by_cases ha : a = id
  · subst ha
    obtain rfl : d = b := by
      have := (record_rests hc d state rejections firings).symm.trans hb
      injection this with this
      injection this
    refine ⟨⟨(Chain.prunes_congr hpasses.cells 0).trans (hp a c hc).1.head,
      ht.congr hpasses.cells⟩, ?_⟩
    intro f hf
    rw [record_firings_self] at hf
    exact (hfs f hf).congr hpasses.cells
  · rw [record_firings_of_ne p ha]
    exact hp a b ((record_slot_of_ne p ha d state rejections firings).symm.trans hb)

def passage (h : Host ι ε) (p : Course ι ε) (id : ChainId) : Act → List (Instant ι)
  | .fire a event ctx =>
    match p.stage.chain? id with
    | some c => if a = id then c.launching h event ctx p.stage.extra.state else []
    | none => []
  | .poll a n =>
    match p.stage.chain? id, (p.firings id)[n]?.bind Firing.rest? with
    | some c, some rest => if a = id then c.proceeding h rest p.stage.extra.state else []
    | _, _ => []
  | .rebind _ _ => []

def Invoked (p : Course ι ε) (id : ChainId) (j : Nat) : Prop :=
  ∃ f ∈ p.firings id, ∃ v ∈ f.visits, v.place = j

theorem exists_visit_set {firings : List Firing} {n : Nat} {f : Firing}
    (hf : firings[n]? = some f) (polled : Polled) (visits : List Visit)
    (rejections : List Rejection) (j : Nat) :
    (∃ g ∈ firings.set n (f.extend polled visits rejections), ∃ v ∈ g.visits, v.place = j) ↔
      (∃ g ∈ firings, ∃ v ∈ g.visits, v.place = j) ∨ ∃ v ∈ visits, v.place = j := by
  obtain ⟨hn, hfn⟩ := List.getElem?_eq_some_iff.mp hf
  have hself : f.extend polled visits rejections ∈
      firings.set n (f.extend polled visits rejections) := List.mem_set hn _
  constructor
  · rintro ⟨g, hg, v, hv, hj⟩
    rcases List.mem_or_eq_of_mem_set hg with hg | rfl
    · exact .inl ⟨g, hg, v, hv, hj⟩
    · rcases List.mem_append.mp hv with hv | hv
      · exact .inl ⟨f, List.mem_of_getElem? hf, v, hv, hj⟩
      · exact .inr ⟨v, hv, hj⟩
  · rintro (⟨g, hg, v, hv, hj⟩ | ⟨v, hv, hj⟩)
    · obtain ⟨k, hk, rfl⟩ := List.getElem_of_mem hg
      by_cases hkn : n = k
      · subst hkn
        rw [hfn] at hv
        exact ⟨_, hself, v, List.mem_append_left visits hv, hj⟩
      · have hmem : firings[k] ∈ firings.set n (f.extend polled visits rejections) := by
          apply List.mem_of_getElem? (i := k)
          rw [List.getElem?_set_ne hkn]
          exact List.getElem?_eq_getElem hk
        exact ⟨_, hmem, v, hv, hj⟩
    · exact ⟨_, hself, v, List.mem_append_right f.visits hv, hj⟩

/-- How the moves get a chain from one course to another over some instants. -/
structure Leads (id : ChainId) (p : Course ι ε) (c : Chain ι) (instants : List (Instant ι))
    (q : Course ι ε) (d : Chain ι) : Prop where
  rests : q.Rests id d
  passes : c.Passes instants d
  invoked : ∀ j, q.Invoked id j ↔ p.Invoked id j ∨ some j ∈ instants.map Instant.invoked

theorem fire_kempt (hp : p.Kempt) {id : ChainId} {c : Chain ι} (hc : p.Rests id c) (event : Event)
    (ctx : Context) :
    (p.fire h id event ctx).Kempt ∧
      ∃ d, Leads id p c (c.launching h event ctx p.stage.extra.state)
        (p.fire h id event ctx) d := by
  obtain ⟨hkempt, hfs⟩ := hp id c hc
  obtain ⟨hpasses, hend⟩ := hkempt.launching h id event ctx p.stage.extra.state
  rw [fire_eq h hc]
  refine ⟨record_kempt hp hc hpasses _ _ hend.rest ?_, _, record_rests hc .., hpasses, ?_⟩
  · intro f hf
    rcases List.mem_append.mp hf with hf | hf
    · exact (hfs f hf).grow hend.rest hpasses.grows
    · rw [List.mem_singleton.mp hf]
      exact hend
  · intro j
    unfold Invoked
    simp only [record_firings_self, List.mem_append, List.mem_singleton, or_and_right, exists_or,
      exists_eq_left, Chain.launching_invoked h id, List.mem_map, Option.some.injEq]

theorem poll_kempt (hp : p.Kempt) (ho : p.Holds Orderly) {id : ChainId} {c : Chain ι} {n : Nat}
    {f : Firing} {rest : Suspended} (hc : p.Rests id c) (hf : (p.firings id)[n]? = some f)
    (hr : f.rest? = some rest) :
    (p.poll h id n).Kempt ∧
      ∃ d, Leads id p c (c.proceeding h rest p.stage.extra.state) (p.poll h id n) d := by
  obtain ⟨hkempt, hfs⟩ := hp id c hc
  have hmem := List.mem_of_getElem? hf
  have horderly : Orderly id c f := by
    rcases ho id with ⟨d, hd, hall⟩ | ⟨-, hnone⟩
    · cases hc.symm.trans hd
      exact hall f hmem
    · rw [hnone] at hmem
      cases hmem
  obtain ⟨hpasses, hend⟩ := hkempt.proceeding h p.stage.extra.state (hfs f hmem)
    fun j hj => (horderly.next rest hr j hj).1
  rw [poll_eq h hc hf hr (horderly.home rest hr)]
  refine ⟨record_kempt hp hc hpasses _ _ hend.rest ?_, _, record_rests hc .., hpasses, ?_⟩
  · intro g hg
    rcases List.mem_or_eq_of_mem_set hg with hg | rfl
    · exact (hfs g hg).grow hend.rest hpasses.grows
    · simpa [Firing.extend] using hend
  · intro j
    unfold Invoked
    rw [record_firings_self, Chain.proceeding_invoked]
    simp only [List.mem_map, Option.some.injEq]
    exact exists_visit_set hf _ _ _ j

theorem rebind_kempt (hp : p.Kempt) (ho : p.Holds Orderly) (id : ChainId)
    (initial : Option Value) : (p.rebind id initial).Kempt := by
  rcases ho id with ⟨c, hc, -⟩ | ⟨hn, -⟩
  · unfold rebind
    simp only [hc.chain]
    intro a b hb
    rcases Nat.lt_trichotomy a.index p.stage.slots.length with hlt | heq | hgt
    · exact hp a b ((List.getElem?_append_left hlt).symm.trans hb)
    · -- the copy has the links of the original, and no firing yet
      have hnone : p.firings a = [] := by
        rcases ho a with ⟨d, hd, -⟩ | ⟨-, hnone⟩
        · have := (List.getElem?_eq_some_iff.mp hd).1
          omega
        · exact hnone
      obtain rfl : c.rebind initial = b := by simpa [Rests, Stage.addChain, heq] using hb
      refine ⟨⟨(hp id c hc).1.head, (hp id c hc).1.trimmed.congr rfl⟩, ?_⟩
      simp [hnone]
    · have := (List.getElem?_eq_some_iff.mp hb).1
      simp only [Stage.addChain, List.length_append, List.length_singleton] at this
      omega
  · have hchain : p.stage.chain? id = none := by simp [Stage.chain?, hn]
    unfold rebind
    simpa only [hchain] using hp

theorem act_kempt (hp : p.Kempt) (ho : p.Holds Orderly) (act : Act) : (p.act h act).Kempt := by
  cases act with
  | rebind id initial => exact rebind_kempt hp ho id initial
  | fire id event ctx =>
    rcases ho id with ⟨c, hc, -⟩ | ⟨hn, -⟩
    · exact (fire_kempt hp hc event ctx).1
    · have hchain : p.stage.chain? id = none := by simp [Stage.chain?, hn]
      simpa only [Course.act, fire, hchain] using hp
  | poll id n =>
    rcases ho id with ⟨c, hc, -⟩ | ⟨-, hnone⟩
    · cases hf : (p.firings id)[n]? with
      | none => simpa only [Course.act, poll, hf] using hp
      | some f =>
        cases hr : f.rest? with
        | none => simpa only [Course.act, poll, hf, hc.chain, hr] using hp
        | some rest => exact (poll_kempt hp ho hc hf hr).1
    · simpa only [Course.act, poll, hnone, List.getElem?_nil] using hp

theorem step_kempt (hp : p.Kempt) (ho : p.Holds Orderly) (m : Move ε) : (p.step h m).Kempt :=
  act_kempt (p := p.withState m.state) hp (withState_holds ho m.state) m.act

theorem play_kempt (hp : p.Kempt) (ho : p.Holds Orderly) (moves : List (Move ε)) :
    (p.play h moves).Kempt := by
  induction moves generalizing p with
  | nil => exact hp
  | cons m moves ih => exact ih (step_kempt hp ho m) (step_holds orderly_kept ho m)

theorem act_leads (hp : p.Kempt) (ho : p.Holds Orderly) {id : ChainId} {c : Chain ι}
    (hc : p.Rests id c) (act : Act) : ∃ d, Leads id p c (p.passage h id act) (p.act h act) d := by
  have hstill : ∀ {act : Act}, (p.act h act).Rests id c →
      (p.act h act).firings id = p.firings id → p.passage h id act = [] →
      ∃ d, Leads id p c (p.passage h id act) (p.act h act) d := by
    intro act hrests hfirings hnone
    refine ⟨c, hrests, hnone ▸ .none c, ?_⟩
    intro j
    simp [Invoked, hfirings, hnone]
  have hother : ∀ {act : Act}, act.runs id = false → p.passage h id act = [] →
      ∃ d, Leads id p c (p.passage h id act) (p.act h act) d := by
    intro act hact hnone
    obtain ⟨hrests, hfirings⟩ := act_of_not_runs (h := h) ho hc hact
    exact hstill hrests hfirings hnone
  cases act with
  | rebind a initial => exact hother rfl rfl
  | fire a event ctx =>
    by_cases ha : a = id
    · subst ha
      simp only [passage, hc.chain, if_true]
      exact (fire_kempt hp hc event ctx).2
    · exact hother (decide_eq_false ha) (by simp [passage, hc.chain, ha])
  | poll a n =>
    by_cases ha : a = id
    · subst ha
      cases hf : (p.firings a)[n]? with
      | none =>
        have hact : p.act h (.poll a n) = p := by simp only [Course.act, poll, hf]
        exact hstill (by rwa [hact]) (by rw [hact]) (by simp [passage, hc.chain, hf])
      | some f =>
        cases hr : f.rest? with
        | none =>
          have hact : p.act h (.poll a n) = p := by simp only [Course.act, poll, hf, hc.chain, hr]
          exact hstill (by rwa [hact]) (by rw [hact]) (by simp [passage, hc.chain, hf, hr])
        | some rest =>
          simp only [passage, hc.chain, hf, Option.bind_some, hr, if_true]
          exact (poll_kempt hp ho hc hf hr).2
    · have hnone : p.passage h id (.poll a n) = [] := by
        simp only [passage, hc.chain, if_neg ha]
        split <;> rfl
      exact hother (decide_eq_false ha) hnone

def resting (p : Course ι ε) (id : ChainId) : List (Instant ι) :=
  (p.stage.chain? id).toList.map fun c => ⟨c, none⟩

/-- The instants of a chain throughout the moves: as it rests between them, and as it is after each
cell that is invoked. -/
def instants (h : Host ι ε) (id : ChainId) (p : Course ι ε) : List (Move ε) → List (Instant ι)
  | [] => p.resting id
  | m :: moves =>
    p.resting id ++ (p.withState m.state).passage h id m.act ++ (p.step h m).instants h id moves

/-- What the instants of a chain throughout some moves tell: they come one after the other, from the
chain as it rests before the moves to the chain as it rests behind them, with the cells that its
firings invoke. -/
structure Told (h : Host ι ε) (p : Course ι ε) (id : ChainId) (c : Chain ι)
    (moves : List (Move ε)) : Prop where
  first : ∃ later, p.instants h id moves = ⟨c, none⟩ :: later
  last : (p.instants h id moves).getLast? = ((p.play h moves).stage.chain? id).map (⟨·, none⟩)
  joined : (p.instants h id moves).IsChain Instant.Next
  kempt : ∀ x ∈ p.instants h id moves, x.chain.Kempt
  invoked : ∀ j, (p.play h moves).Invoked id j ↔
    p.Invoked id j ∨ some j ∈ (p.instants h id moves).map Instant.invoked

theorem instants_told (hp : p.Kempt) (ho : p.Holds Orderly) {id : ChainId} {c : Chain ι}
    (hc : p.Rests id c) (moves : List (Move ε)) : Told h p id c moves := by
  have hresting : p.resting id = [⟨c, none⟩] := by simp [resting, hc.chain]
  induction moves generalizing p c with
  | nil =>
    have hinstants : p.instants h id [] = [⟨c, none⟩] := hresting
    constructor
    · exact ⟨[], hinstants⟩
    · rw [hinstants, play, List.foldl_nil, hc.chain]
      rfl
    · rw [hinstants]
      exact .singleton _
    · simpa [hinstants] using (hp id c hc).1
    · simp [hinstants, play]
  | cons m moves ih =>
    obtain ⟨d, hd, hpasses, hinvoked⟩ :=
      act_leads (h := h) (p := p.withState m.state) hp ho hc m.act
    have htold := ih (step_kempt hp ho m) (step_holds orderly_kept ho m) hd
      (by simp [resting, step, hd.chain])
    obtain ⟨later, hlater⟩ := htold.first
    have hinstants : p.instants h id (m :: moves) =
        ⟨c, none⟩ :: ((p.withState m.state).passage h id m.act ++
          (p.step h m).instants h id moves) := by rw [instants, hresting]; rfl
    constructor
    · exact ⟨_, hinstants⟩
    · have hne : (p.step h m).instants h id moves ≠ [] := by simp [hlater]
      rw [hinstants, ← List.cons_append, List.getLast?_append_of_ne_nil _ hne]
      exact htold.last
    · have hjoined := htold.joined
      rw [hlater] at hjoined
      rw [hinstants, hlater]
      exact List.isChain_cons_split.mpr ⟨hpasses.joined, hjoined⟩
    · intro x hx
      rw [hinstants] at hx
      rcases List.mem_cons.mp hx with rfl | hx
      · exact (hp id c hc).1
      · rcases List.mem_append.mp hx with hx | hx
        · exact hpasses.kempt x hx
        · exact htold.kempt x hx
    · intro j
      have hstep : (p.step h m).Invoked id j ↔ _ := hinvoked j
      rw [hinstants, List.map_cons, List.map_append, List.mem_cons, List.mem_append]
      refine (htold.invoked j).trans ?_
      rw [hstep, or_assoc]
      simp [Invoked, withState]

theorem labels_later {c : Chain ι} {x : Instant ι} {earlier later : List (Instant ι)}
    (hc : c.Kempt) (hx : x.chain.Kempt)
    (hjoined : (⟨c, none⟩ :: (earlier ++ x :: later)).IsChain Instant.Next) :
    x.chain.labels =
      if some c.firstPrune ∈ (earlier ++ [x]).map Instant.invoked then c.frontLabels
      else c.labels := by
  have hlater : Instant.Later ⟨c, none⟩ x :=
    (List.pairwise_cons.mp (Instant.pairwise_later hjoined)).1 x (by simp)
  have hfirst : x.chain.firstPrune = c.firstPrune :=
    congrArg (List.findIdx Cell.isPrune) hlater.cells
  have hall : x.chain.allLabels = c.allLabels := by rw [Chain.allLabels, hlater.cells]; rfl
  have hfront : x.chain.frontLabels = c.frontLabels := by
    rw [Chain.frontLabels, hlater.cells]
    rfl
  rw [hx.labels_eq, hc.labels_eq, hfirst, hall, hfront]
  have hcut := Instant.firstPrune_cut hc.head hjoined
  change c.firstPrune - 1 ∈ x.chain.cuts ↔ c.firstPrune - 1 ∈ c.cuts ∨ some c.firstPrune ∈ _ at hcut
  simp only [hcut, ite_or]
  split <;> split <;> rfl

theorem rests_of_chain (ho : p.Holds Orderly) {id : ChainId} {c : Chain ι}
    (hc : p.stage.chain? id = some c) : p.Rests id c := by
  rcases ho id with ⟨d, hd, -⟩ | ⟨hn, -⟩
  · cases hc.symm.trans hd.chain
    exact hd
  · simp [Stage.chain?, hn] at hc

theorem rebind_chain {id : ChainId} {c : Chain ι} (hc : p.stage.chain? id = some c)
    (initial : Option Value) :
    (p.rebind id initial).stage.chain? ⟨p.stage.slots.length⟩ = some (c.rebind initial) := by
  simp only [rebind, hc]
  simp [Stage.chain?, Stage.addChain]

/-- Whatever is done with the chains on a stage, a chain keeps its cells, and at each instant of a
course a cell is linked to the next one or to none, to none only at the end or in front of a prune,
and to none for good. The labels are those met along the links: all of them or those in front of the
first prune; and they become the latter when a firing of the chain invokes that prune, at no other
instant. A copy begins with the links that the chain has. -/
theorem links_only_cut (h : Host ι ε) (rows : List (List Trigger × List (Cell ι))) (state : ε)
    (before moves : List (Move ε)) (id : ChainId) (c : Chain ι)
    (hc : ((start (rows.map fun r => .ofCells r.1 r.2) state).play h before).stage.chain? id =
      some c) :
    let p := (start (rows.map fun r => .ofCells r.1 r.2) state).play h before
    let instants := p.instants h id moves
    instants.getLast? = ((p.play h moves).stage.chain? id).map (⟨·, none⟩) ∧
    (∀ j, (p.play h moves).Invoked id j ↔
      p.Invoked id j ∨ some j ∈ instants.map Instant.invoked) ∧
    (∀ x ∈ instants, x.chain.cells = c.cells ∧
      (∀ i < c.cells.length, x.chain.next? i = some (i + 1) ∨
        (x.chain.next? i = none ∧ (i + 1 = c.cells.length ∨ c.prunes (i + 1) = true))) ∧
      x.chain.Walks (x.chain.next? 0) x.chain.labels) ∧
    instants.Pairwise (fun x y => ∀ i, x.chain.next? i = none → y.chain.next? i = none) ∧
    (before = [] → c.labels = c.allLabels) ∧
    (c.labels = c.allLabels ∨ c.labels = c.frontLabels) ∧
    (∀ earlier x later, instants = earlier ++ x :: later →
      x.chain.labels =
        if some c.firstPrune ∈ (earlier ++ [x]).map Instant.invoked then c.frontLabels
        else c.labels) ∧
    (∀ initial, ∃ d,
      (p.rebind id initial).stage.chain? ⟨p.stage.slots.length⟩ = some d ∧
        d.cells = c.cells ∧ (∀ i, d.next? i = c.next? i) ∧ d.labels = c.labels) := by
  intro p instants
  have hstart : Holds Orderly (start (rows.map fun r => Chain.ofCells r.1 r.2) state) :=
    start_holds _ _
  have ho : p.Holds Orderly := play_holds orderly_kept hstart before
  have hp : p.Kempt := play_kempt (start_kempt rows state) hstart before
  have hrests := rests_of_chain ho hc
  have hkempt := (hp id c hrests).1
  have htold : Told h p id c moves := instants_told hp ho hrests moves
  obtain ⟨rest, hrest⟩ := htold.first
  have hjoined := htold.joined
  have hlater := Instant.pairwise_later hjoined
  have hcells : ∀ x ∈ instants, x.chain.cells = c.cells := by
    intro x hx
    change x ∈ p.instants h id moves at hx
    rw [hrest] at hx hlater
    rcases List.mem_cons.mp hx with rfl | hx
    · rfl
    · exact ((List.pairwise_cons.mp hlater).1 x hx).cells
  refine ⟨htold.last, htold.invoked, ?_, ?_, ?_, ?_, ?_, ?_⟩
  · intro x hx
    refine ⟨hcells x hx, ?_, x.chain.walks_labels⟩
    intro i hi
    have hnext := (htold.kempt x hx).next_cases (hcells x hx ▸ hi)
    rwa [hcells x hx, Chain.prunes_congr (hcells x hx)] at hnext
  · exact hlater.imp fun hxy i => hxy.next_eq_none
  · rintro rfl
    obtain ⟨r, -, rfl⟩ := start_rests hrests
    exact hkempt.labels_eq
  · rw [hkempt.labels_eq]
    split
    · exact .inr rfl
    · exact .inl rfl
  · intro earlier x later hsplit
    change p.instants h id moves = _ at hsplit
    cases earlier with
    | nil =>
      rw [hrest] at hsplit
      cases hsplit
      simp
    | cons first earlier =>
      have hx : x.chain.Kempt := htold.kempt x (by simp [hsplit])
      rw [hrest] at hsplit
      cases hsplit
      rw [hrest] at hjoined
      simpa using labels_later hkempt hx hjoined
  · intro initial
    exact ⟨_, rebind_chain hc initial, rfl, fun _ => rfl, rfl⟩

def clipping : List (Cell (Except Error Reply)) :=
  [.call (.plain (.ok (.pending (.ticket 0))) none) ⟨"wait", [], none⟩,
    .call .prune ⟨"prune", [], none⟩, .call (.plain (.ok .nothing) none) ⟨"ret", [], none⟩]

def clippingMoves : List (Move (Nat → Option Settlement)) :=
  let closed := fun _ => none
  let event := Event.fresh "click" ⟨0⟩ none
  [⟨closed, .fire ⟨0⟩ event .blank⟩, ⟨closed, .fire ⟨0⟩ event .blank⟩,
    ⟨fun _ => some (.fulfilled none), .poll ⟨0⟩ 0⟩]

theorem clipping_links_only_cut :
    let p : Course (Except Error Reply) (Nat → Option Settlement) :=
      start [.ofCells [] clipping] (fun _ => none)
    (p.instants Behaviour.echo.host ⟨0⟩ clippingMoves).Pairwise
      (fun x y => ∀ i, x.chain.next? i = none → y.chain.next? i = none) ∧
    (p.instants Behaviour.echo.host ⟨0⟩ clippingMoves).map (fun x => x.chain.labels) =
      List.replicate 7 ["wait", "prune", "ret"] ++ List.replicate 3 ["wait"] := by
  intro p
  refine ⟨?_, ?_⟩
  · exact (links_only_cut Behaviour.echo.host [([], clipping)] (fun _ => none) [] clippingMoves ⟨0⟩
      (.ofCells [] clipping) rfl).2.2.2.1
  · decide +kernel

end Course

end AttrChain
