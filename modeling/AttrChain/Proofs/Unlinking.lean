import AttrChain.Proofs.Backstage
import AttrChain.Proofs.Cuts
import Mathlib.Data.List.Chain

/-!
The links of a chain from cell to cell, while one of its firings runs. A run cuts none but links to
prunes, and the one to the first prune before any other; so a chain shows all its labels, or those
in front of the first prune.
-/

namespace AttrChain

variable {ι σ : Type}

/-- A chain at an instant of a course. The instant follows the turn of the cell at a place, or the
chain is at rest. -/
structure Instant (ι : Type) where
  chain : Chain ι
  invoked : Option Nat

/-- From one instant to the next the cells are the same, and a link is cut if the cell that was
invoked is a prune: the one that leads to it. -/
structure Instant.Next (x y : Instant ι) : Prop where
  cells : y.chain.cells = x.chain.cells
  here : ∀ j ∈ y.invoked, j < x.chain.cells.length
  cuts : ∀ k, k ∈ y.chain.cuts ↔
    k ∈ x.chain.cuts ∨ ∃ j ∈ y.invoked, x.chain.prunes j = true ∧ k = j - 1

theorem Instant.Next.still {x : Instant ι} {d : Chain ι} (hcells : d.cells = x.chain.cells)
    (hcuts : d.cuts = x.chain.cuts) : x.Next ⟨d, none⟩ :=
  ⟨hcells, by simp, by simp [hcuts]⟩

namespace Chain

/-- The place of the first prune; without one, the place behind the last cell. -/
def firstPrune (c : Chain ι) : Nat := c.cells.findIdx Cell.isPrune

def allLabels (c : Chain ι) : List String := c.cells.tail.map Cell.label

def frontLabels (c : Chain ι) : List String :=
  (c.cells.tail.takeWhile (!·.isPrune)).map Cell.label

/-- Following the links from a cell comes to an end and meets cells with these labels. -/
inductive Walks (c : Chain ι) : Option Nat → List String → Prop
  | stop : Walks c none []
  | step {i cell labels} : c.cells[i]? = some cell → Walks c (c.next? i) labels →
      Walks c (some i) (cell.label :: labels)

section Labels

variable {c : Chain ι}

theorem walks_reachedFrom (c : Chain ι) (i : Nat) (hi : i < c.cells.length) :
    Walks c (some i) ((reachedFrom c.cuts i (c.cells.drop i)).map Cell.label) := by
  have hcell : c.cells[i]? = some c.cells[i] := List.getElem?_eq_getElem hi
  rw [List.drop_eq_getElem_cons hi, reachedFrom]
  by_cases hcut : i ∈ c.cuts
  · have hnext : c.next? i = none := by simp [next?, hcut]
    rw [if_pos hcut]
    exact .step hcell (hnext ▸ .stop)
  · rw [if_neg hcut, List.map_cons]
    apply Walks.step hcell
    by_cases hlast : i + 1 < c.cells.length
    · have hnext : c.next? i = some (i + 1) := by simp [next?, hcut, hlast]
      rw [hnext]
      exact walks_reachedFrom c (i + 1) hlast
    · have hnext : c.next? i = none := by simp [next?, hlast]
      rw [hnext, List.drop_eq_nil_of_le (Nat.le_of_not_lt hlast)]
      exact .stop
termination_by c.cells.length - i

theorem walks_labels (c : Chain ι) : Walks c (c.next? 0) c.labels := by
  unfold labels
  rcases Nat.eq_zero_or_pos c.cells.length with hnone | hc
  · have hnext : c.next? 0 = none := by simp [next?, hnone]
    rw [List.length_eq_zero_iff.mp hnone, hnext]
    exact .stop
  · have hwalk := walks_reachedFrom c 0 hc
    rw [List.drop_zero] at hwalk
    rw [List.map_tail]
    generalize (reachedFrom c.cuts 0 c.cells).map Cell.label = labels at hwalk
    cases hwalk with
    | step _ hrest => exact hrest

theorem isPrune_of_prunes {j : Nat} (hj : c.prunes j = true) :
    ∃ hlt : j < c.cells.length, c.cells[j].isPrune = true := by
  unfold prunes at hj
  cases hcell : c.cells[j]? with
  | none => simp [hcell] at hj
  | some cell =>
    obtain ⟨hlt, rfl⟩ := List.getElem?_eq_some_iff.mp hcell
    exact ⟨hlt, by simpa [hcell] using hj⟩

theorem prunes_firstPrune (hc : c.firstPrune < c.cells.length) : c.prunes c.firstPrune = true := by
  rw [prunes, List.getElem?_eq_getElem hc]
  exact List.findIdx_getElem (w := hc)

theorem firstPrune_le {j : Nat} (hj : c.prunes j = true) : c.firstPrune ≤ j := by
  obtain ⟨hlen, hprune⟩ := isPrune_of_prunes hj
  by_contra hlt
  rw [List.not_of_lt_findIdx (Nat.lt_of_not_le hlt)] at hprune
  cases hprune

theorem pos_of_prunes (hhead : c.prunes 0 = false) {j : Nat} (hj : c.prunes j = true) : 0 < j := by
  apply Nat.pos_of_ne_zero
  rintro rfl
  rw [hhead] at hj
  cases hj

/-- The links that may be cut when a firing has invoked the first `i` cells: links to prunes, the
one to the first prune among them as soon as there is any, or the firing is past that prune. -/
structure Trimmed (c : Chain ι) (cuts : List Nat) (i : Nat) : Prop where
  prunes : ∀ k ∈ cuts, c.prunes (k + 1) = true
  first : ∀ k ∈ cuts, c.firstPrune - 1 ∈ cuts
  past : c.firstPrune < i → c.firstPrune - 1 ∈ cuts

theorem Trimmed.congr {d : Chain ι} {cuts : List Nat} {i : Nat} (ht : c.Trimmed cuts i)
    (hcells : d.cells = c.cells) : d.Trimmed cuts i := by
  have hfirst : d.firstPrune = c.firstPrune := congrArg (List.findIdx Cell.isPrune) hcells
  constructor
  · intro k hk
    rw [prunes_congr hcells]
    exact ht.prunes k hk
  · rw [hfirst]
    exact ht.first
  · rw [hfirst]
    exact ht.past

theorem Trimmed.grow {cuts cuts' : List Nat} {i : Nat} (ht : c.Trimmed cuts i)
    (ht' : c.Trimmed cuts' 0) (hsub : ∀ k ∈ cuts, k ∈ cuts') : c.Trimmed cuts' i :=
  ⟨ht'.prunes, ht'.first, fun hi => hsub _ (ht.past hi)⟩

theorem Trimmed.rest {cuts : List Nat} {i : Nat} (ht : c.Trimmed cuts i) : c.Trimmed cuts 0 :=
  ⟨ht.prunes, ht.first, fun hi => absurd hi (Nat.not_lt_zero _)⟩

theorem Trimmed.step {cuts : List Nat} {i : Nat} {cell : Cell ι} (ht : c.Trimmed cuts i)
    (hhead : c.prunes 0 = false) (hc : c.cells[i]? = some cell) :
    c.Trimmed (cell.cutsAfter i cuts) (i + 1) := by
  have hcell : c.prunes i = cell.isPrune := by simp [Chain.prunes, hc]
  have hpast : c.firstPrune < i + 1 → c.firstPrune - 1 ∈ cell.cutsAfter i cuts := by
    intro hlt
    rw [Cell.mem_cutsAfter]
    rcases Nat.lt_or_eq_of_le (Nat.le_of_lt_succ hlt) with hlt | heq
    · exact .inl (ht.past hlt)
    · have hfirst := prunes_firstPrune (heq ▸ (List.getElem?_eq_some_iff.mp hc).1)
      rw [heq, hcell] at hfirst
      exact .inr ⟨hfirst, by rw [heq]⟩
  constructor
  · intro k hk
    rcases Cell.mem_cutsAfter.mp hk with hk | ⟨hprune, rfl⟩
    · exact ht.prunes k hk
    · rw [← hcell] at hprune
      rw [Nat.sub_add_cancel (pos_of_prunes hhead hprune)]
      exact hprune
  · intro k hk
    rcases Cell.mem_cutsAfter.mp hk with hk | ⟨hprune, -⟩
    · exact Cell.mem_cutsAfter.mpr (.inl (ht.first k hk))
    · exact hpast (Nat.lt_succ_of_le (firstPrune_le (hcell.trans hprune)))
  · exact hpast

/-- A chain as its firings leave it. -/
structure Kempt (c : Chain ι) : Prop where
  head : c.prunes 0 = false
  trimmed : c.Trimmed c.cuts 0

theorem Kempt.of_leave {i : Nat} {f : Frame σ} (hhead : c.prunes 0 = false)
    (ht : c.Trimmed f.cuts i) : (c.leave f).Kempt :=
  ⟨hhead, ht.rest.congr rfl⟩

theorem Kempt.length_reached (hc : c.Kempt) (hcut : c.firstPrune - 1 ∈ c.cuts) :
    c.reached.length = c.firstPrune := by
  have hprune := hc.trimmed.prunes _ hcut
  have hlen := (isPrune_of_prunes hprune).1
  have hfirst := firstPrune_le hprune
  have hpos : 0 < c.firstPrune := by
    by_contra hzero
    have hstart : c.prunes c.firstPrune = true := prunes_firstPrune (by omega)
    rw [Nat.eq_zero_of_not_pos hzero, hc.head] at hstart
    cases hstart
  have hlink := fun j => lt_length_reachedFrom c.cuts c.cells 0 j
  simp only [Nat.zero_add] at hlink
  change ∀ j, j < c.reached.length → (_ ↔ j + 1 < c.reached.length) at hlink
  have hsome : 0 < c.reached.length := by
    cases hcells : c.cells with
    | nil => simp [hcells] at hlen
    | cons cell rest =>
      simp only [reached, hcells, reachedFrom]
      split <;> simp
  apply Nat.le_antisymm
  · by_contra hgt
    have := (hlink (c.firstPrune - 1) (by omega)).mpr (by omega)
    exact this.2 hcut
  · by_contra hlt
    -- the walk ends in front of the first prune only at a link that is cut
    have hend := hlink (c.reached.length - 1) (by omega)
    have hended : c.reached.length - 1 ∈ c.cuts := by
      by_contra hlinked
      have := hend.mp ⟨by omega, hlinked⟩
      omega
    have := firstPrune_le (hc.trimmed.prunes _ hended)
    omega

theorem Kempt.labels_eq (hc : c.Kempt) :
    c.labels = if c.firstPrune - 1 ∈ c.cuts then c.frontLabels else c.allLabels := by
  split
  next hcut =>
    have hreached : c.reached = c.cells.take c.firstPrune := by
      have hprefix := List.prefix_iff_eq_take.mp (reachedFrom_isPrefix c.cuts 0 c.cells)
      change c.reached = c.cells.take c.reached.length at hprefix
      rwa [hc.length_reached hcut] at hprefix
    change c.reached.tail.map Cell.label = _
    rw [hreached, frontLabels]
    congr 1
    unfold firstPrune
    cases hcells : c.cells with
    | nil => rfl
    | cons cell rest =>
      have hcell : cell.isPrune = false := by simpa [Chain.prunes, hcells] using hc.head
      simp [List.findIdx_cons, hcell, List.takeWhile_eq_take_findIdx_not]
  next hcut =>
    have hnone : c.cuts = [] := by
      apply List.eq_nil_iff_forall_not_mem.mpr
      intro k hk
      exact hcut (hc.trimmed.first k hk)
    rw [Chain.labels, hnone, reachedFrom_nil, allLabels]

theorem Kempt.next_cases (hc : c.Kempt) {i : Nat} (hi : i < c.cells.length) :
    c.next? i = some (i + 1) ∨
      (c.next? i = none ∧ (i + 1 = c.cells.length ∨ c.prunes (i + 1) = true)) := by
  unfold next?
  split
  next hlink => exact .inl rfl
  next hlink =>
    refine .inr ⟨rfl, ?_⟩
    by_cases hcut : i ∈ c.cuts
    · exact .inr (hc.trimmed.prunes i hcut)
    · have : ¬i + 1 < c.cells.length := fun hlast => hlink ⟨hlast, hcut⟩
      exact .inl (by omega)

end Labels

/-- A run told cell by cell: the instants after the cells that it invokes. -/
def passage (h : Host ι σ) (look : Promise → σ → Option Settlement) (c : Chain ι)
    (i : Nat) (incoming : Option Value) (f : Frame σ) : List (Instant ι) :=
  match c.cells[i]? with
  | none => []
  | some cell =>
    ⟨c.leave (c.turn h look i cell incoming f).frame, some i⟩ ::
      match _honward : (c.turn h look i cell incoming f).onward? with
      | some (j, value) => passage h look c j value (c.turn h look i cell incoming f).frame
      | none => []
termination_by c.cells.length - i
decreasing_by
  obtain ⟨rfl, hj⟩ := turn_next (onward_eq_some _honward).2
  omega

section Passages

variable {h : Host ι σ} {look : Promise → σ → Option Settlement} {c : Chain ι} {i : Nat}
  {cell : Cell ι} {incoming : Option Value} {f : Frame σ}

theorem passage_of_none (hc : c.cells[i]? = none) : c.passage h look i incoming f = [] := by
  rw [passage]
  simp only [hc]

theorem passage_of_onward {j : Nat} {value : Option Value} (hc : c.cells[i]? = some cell)
    (ho : (c.turn h look i cell incoming f).onward? = some (j, value)) :
    c.passage h look i incoming f =
      ⟨c.leave (c.turn h look i cell incoming f).frame, some i⟩ ::
        c.passage h look j value (c.turn h look i cell incoming f).frame := by
  rw [passage]
  simp only [hc]
  split
  · next ho' => cases ho.symm.trans ho'; rfl
  · next ho' => rw [ho] at ho'; cases ho'

theorem passage_of_halt (hc : c.cells[i]? = some cell)
    (ho : (c.turn h look i cell incoming f).onward? = none) :
    c.passage h look i incoming f =
      [⟨c.leave (c.turn h look i cell incoming f).frame, some i⟩] := by
  rw [passage]
  simp only [hc]
  split
  · next ho' => rw [ho] at ho'; cases ho'
  · rfl

theorem turn_cuts (h : Host ι σ) (look : Promise → σ → Option Settlement) (c : Chain ι) (i : Nat)
    (cell : Cell ι) (incoming : Option Value) (f : Frame σ) :
    (c.turn h look i cell incoming f).frame.cuts = cell.cutsAfter i f.cuts :=
  Cell.invoke_cuts h i cell incoming f

theorem next_turn {x : Instant ι} (hcells : x.chain.cells = c.cells) (hcuts : x.chain.cuts = f.cuts)
    (hc : c.cells[i]? = some cell) :
    x.Next ⟨c.leave (c.turn h look i cell incoming f).frame, some i⟩ := by
  refine ⟨hcells.symm, ?_, ?_⟩
  · intro j hj
    cases hj
    rw [hcells]
    exact (List.getElem?_eq_some_iff.mp hc).1
  intro k
  have hprune : x.chain.prunes i = cell.isPrune := by simp [Chain.prunes, hcells, hc]
  change k ∈ (c.turn h look i cell incoming f).frame.cuts ↔ _
  rw [turn_cuts, Cell.mem_cutsAfter, hcuts]
  simp only [Option.mem_def, Option.some.injEq, exists_eq_left', hprune]

/-- The instants of a run come one after the other, from the chain as the run finds it to the chain
as it leaves it. -/
theorem passage_isChain (h : Host ι σ) (look : Promise → σ → Option Settlement) (c : Chain ι)
    (i : Nat) (incoming : Option Value) (f : Frame σ) {x : Instant ι}
    (hcells : x.chain.cells = c.cells) (hcuts : x.chain.cuts = f.cuts) :
    (x :: (c.passage h look i incoming f ++
      [⟨c.leave (c.follow h look i incoming f).2.2, none⟩])).IsChain Instant.Next := by
  fun_induction follow h look c i incoming f generalizing x with
  | case1 i incoming f hc =>
    rw [passage_of_none hc]
    exact .cons_cons (.still hcells.symm hcuts.symm) (.singleton _)
  | case2 i incoming f cell hc j value ho ih =>
    rw [passage_of_onward hc ho]
    exact .cons_cons (next_turn hcells hcuts hc) (ih rfl rfl)
  | case3 i incoming f cell hc ho =>
    rw [passage_of_halt hc ho]
    exact .cons_cons (next_turn hcells hcuts hc) (.cons_cons (.still rfl rfl) (.singleton _))

theorem passage_invoked (h : Host ι σ) (look : Promise → σ → Option Settlement) (c : Chain ι)
    (i : Nat) (incoming : Option Value) (f : Frame σ) :
    (c.passage h look i incoming f).map Instant.invoked =
      (c.follow h look i incoming f).1.map fun v => some v.place := by
  fun_induction follow h look c i incoming f with
  | case1 i incoming f hc => rw [passage_of_none hc]; rfl
  | case2 i incoming f cell hc j value ho ih =>
    rw [passage_of_onward hc ho, List.map_cons, List.map_cons, ih]
  | case3 i incoming f cell hc ho => rw [passage_of_halt hc ho]; rfl

/-- A run that starts behind the cells its firing has invoked keeps the chain kempt from cell to
cell, and leaves it as becomes a firing that is past those of the run, too. -/
theorem passage_trimmed (h : Host ι σ) (look : Promise → σ → Option Settlement) (c : Chain ι)
    (i : Nat) (incoming : Option Value) (f : Frame σ) (hhead : c.prunes 0 = false)
    (ht : c.Trimmed f.cuts i) :
    (∀ x ∈ c.passage h look i incoming f, x.chain.Kempt) ∧
      c.Trimmed (c.follow h look i incoming f).2.2.cuts
        (i + (c.follow h look i incoming f).1.length) := by
  fun_induction follow h look c i incoming f with
  | case1 i incoming f hc =>
    rw [passage_of_none hc]
    exact ⟨by simp, ht⟩
  | case2 i incoming f cell hc j value ho ih =>
    have hturn := ht.step hhead hc
    rw [← turn_cuts h look c i cell incoming f] at hturn
    obtain ⟨rfl, -⟩ := turn_next (onward_eq_some ho).2
    obtain ⟨hlater, hend⟩ := ih hturn
    rw [passage_of_onward hc ho]
    refine ⟨?_, ?_⟩
    · rintro x (_ | ⟨_, hx⟩)
      · exact .of_leave hhead hturn
      · exact hlater x hx
    · rw [List.length_cons, ← Nat.add_assoc, Nat.add_right_comm]
      exact hend
  | case3 i incoming f cell hc ho =>
    have hturn := ht.step hhead hc
    rw [← turn_cuts h look c i cell incoming f] at hturn
    rw [passage_of_halt hc ho]
    refine ⟨?_, hturn⟩
    intro x hx
    rw [List.mem_singleton.mp hx]
    exact .of_leave hhead hturn

end Passages

section Firings

variable {h : Host ι σ} {c : Chain ι}

def launching (h : Host ι σ) (c : Chain ι) (event : Event) (ctx : Context) (state : σ) :
    List (Instant ι) :=
  c.passage h (fun _ _ => none) 0 c.initial (c.opening event ctx state)

def proceeding (h : Host ι σ) (c : Chain ι) (f : Suspended) (state : σ) : List (Instant ι) :=
  match h.settlement? f.promise state, f.next with
  | some (.fulfilled value), some i =>
    c.passage h h.settlement? i value ⟨f.ctx, c.stack, c.cuts, state⟩
  | _, _ => []

/-- From the chain at rest over some instants to the chain at rest again. -/
structure Passes (c : Chain ι) (instants : List (Instant ι)) (d : Chain ι) : Prop where
  cells : d.cells = c.cells
  grows : ∀ k ∈ c.cuts, k ∈ d.cuts
  joined : (⟨c, none⟩ :: (instants ++ [⟨d, none⟩])).IsChain Instant.Next
  kempt : ∀ x ∈ instants, x.chain.Kempt

theorem Passes.none (c : Chain ι) : c.Passes [] c :=
  ⟨rfl, fun _ hk => hk, .cons_cons (.still rfl rfl) (.singleton _), by simp⟩

theorem passage_passes (h : Host ι σ) (look : Promise → σ → Option Settlement) {i : Nat}
    (incoming : Option Value) {f : Frame σ} (hhead : c.prunes 0 = false) (hcuts : f.cuts = c.cuts)
    (ht : c.Trimmed f.cuts i) :
    c.Passes (c.passage h look i incoming f) (c.leave (c.follow h look i incoming f).2.2) := by
  refine ⟨rfl, ?_, ?_, (passage_trimmed h look c i incoming f hhead ht).1⟩
  · intro k hk
    exact (mem_follow_cuts h look c i incoming f k).mpr (.inl (hcuts ▸ hk))
  · exact passage_isChain h look c i incoming f rfl hcuts.symm

theorem Kempt.launching (hc : c.Kempt) (h : Host ι σ) (id : ChainId) (event : Event)
    (ctx : Context) (state : σ) :
    c.Passes (c.launching h event ctx state) (c.launch h id event ctx state).chain ∧
      c.Trimmed (c.launch h id event ctx state).chain.cuts
        (c.launch h id event ctx state).visits.length := by
  have hend := (passage_trimmed h (fun _ _ => none) c 0 c.initial (c.opening event ctx state)
    hc.head hc.trimmed).2
  rw [Nat.zero_add] at hend
  exact ⟨passage_passes h _ c.initial hc.head rfl hc.trimmed, hend⟩

theorem Kempt.proceeding (hc : c.Kempt) (h : Host ι σ) {f : Suspended} (state : σ) {n : Nat}
    (ht : c.Trimmed c.cuts n) (hn : ∀ j ∈ f.next, j = n) :
    c.Passes (c.proceeding h f state) (c.proceed h f state).chain ∧
      c.Trimmed (c.proceed h f state).chain.cuts (n + (c.proceed h f state).visits.length) := by
  unfold Chain.proceeding Chain.proceed
  cases hp : h.settlement? f.promise state with
  | none => exact ⟨.none c, ht⟩
  | some settlement =>
    cases settlement with
    | rejected why => exact ⟨.none c, ht⟩
    | fulfilled value =>
      cases hnext : f.next with
      | none => exact ⟨.none c, ht⟩
      | some i =>
        obtain rfl := hn i hnext
        have hpasses := passage_passes h h.settlement? value
          (f := ⟨f.ctx, c.stack, c.cuts, state⟩) hc.head rfl ht
        have hend := (passage_trimmed h h.settlement? c i value ⟨f.ctx, c.stack, c.cuts, state⟩
          hc.head ht).2
        dsimp only
        generalize c.follow h h.settlement? i value _ = r at hpasses hend
        obtain ⟨visits, halt, g⟩ := r
        cases halt <;> exact ⟨hpasses, hend⟩

theorem launching_invoked (h : Host ι σ) (id : ChainId) (c : Chain ι) (event : Event)
    (ctx : Context) (state : σ) :
    (c.launching h event ctx state).map Instant.invoked =
      (c.launch h id event ctx state).visits.map fun v => some v.place :=
  passage_invoked ..

theorem proceeding_invoked (h : Host ι σ) (c : Chain ι) (f : Suspended) (state : σ) :
    (c.proceeding h f state).map Instant.invoked =
      (c.proceed h f state).visits.map fun v => some v.place := by
  unfold proceeding proceed
  cases h.settlement? f.promise state with
  | none => rfl
  | some settlement =>
    cases settlement with
    | rejected why => rfl
    | fulfilled value =>
      cases f.next with
      | none => rfl
      | some i =>
        have hinvoked := passage_invoked h h.settlement? c i value ⟨f.ctx, c.stack, c.cuts, state⟩
        dsimp only
        generalize c.follow h h.settlement? i value _ = r at hinvoked ⊢
        obtain ⟨visits, halt, g⟩ := r
        cases halt <;> exact hinvoked

end Firings

end Chain

end AttrChain
