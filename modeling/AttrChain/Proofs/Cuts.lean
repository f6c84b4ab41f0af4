import AttrChain.Proofs.Links
import Mathlib.Tactic.ByContra

/-!
The links of a chain that are cut: which ones a run cuts, how far the others lead, and that a run
depends on nothing but how far they lead. A prune cuts the link to itself, behind the run, which goes
on as if nothing was cut.
-/

namespace AttrChain

variable {ι σ : Type}

def Frame.withCuts (cuts : List Nat) (f : Frame σ) : Frame σ := { f with cuts }

namespace Cell

def cutsAfter (c : Cell ι) (i : Nat) (cuts : List Nat) : List Nat :=
  if c.isPrune then cuts.insert (i - 1) else cuts

theorem mem_cutsAfter {c : Cell ι} {i j : Nat} {cuts : List Nat} :
    j ∈ c.cutsAfter i cuts ↔ j ∈ cuts ∨ (c.isPrune = true ∧ j = i - 1) := by
  unfold cutsAfter
  by_cases hp : c.isPrune = true
  · simp [hp, or_comm]
  · simp [hp]

theorem perform_withCuts (h : Host ι σ) (i : Nat) (c : Cell ι) (args : List Value) (f : Frame σ)
    (cuts : List Nat) :
    c.perform h i args (f.withCuts cuts) =
      ((c.perform h i args f).1, (c.perform h i args f).2.withCuts (c.cutsAfter i cuts)) := by
  unfold perform
  cases hop : c.op with
  | start => simp only [cutsAfter, isPrune, hop]; rfl
  | query q => simp only [cutsAfter, isPrune, hop]; rfl
  | call instruction =>
    cases haction : instruction.action <;>
      simp only [cutsAfter, isPrune, hop, Instruction.isPrune, haction] <;> rfl

theorem perform_cuts (h : Host ι σ) (i : Nat) (c : Cell ι) (args : List Value) (f : Frame σ) :
    (c.perform h i args f).2.cuts = c.cutsAfter i f.cuts :=
  congrArg (fun r => r.2.cuts) (c.perform_withCuts h i args f f.cuts)

theorem result_withCuts (c : Cell ι) (reply : Except Error Reply) (f : Frame σ)
    (cuts : List Nat) :
    c.result reply (f.withCuts cuts) =
      ((c.result reply f).1, (c.result reply f).2.withCuts cuts) := by
  unfold result
  split
  · split <;> rfl
  · rfl

theorem result_cuts (c : Cell ι) (reply : Except Error Reply) (f : Frame σ) :
    (c.result reply f).2.cuts = f.cuts :=
  congrArg (fun r => r.2.cuts) (c.result_withCuts reply f f.cuts)

theorem invoke_withCuts (h : Host ι σ) (i : Nat) (c : Cell ι) (incoming : Option Value)
    (f : Frame σ) (cuts : List Nat) :
    c.invoke h i incoming (f.withCuts cuts) =
      ((c.invoke h i incoming f).1,
        (c.invoke h i incoming f).2.withCuts (c.cutsAfter i cuts)) := by
  have hprepare : c.prepare incoming (f.withCuts cuts) =
      ((c.prepare incoming f).1, (c.prepare incoming f).2.withCuts cuts) := rfl
  rw [invoke_eq, invoke_eq, hprepare, perform_withCuts, result_withCuts]

theorem invoke_cuts (h : Host ι σ) (i : Nat) (c : Cell ι) (incoming : Option Value)
    (f : Frame σ) : (c.invoke h i incoming f).2.cuts = c.cutsAfter i f.cuts := by
  rw [invoke_eq, result_cuts, perform_cuts]
  rfl

/-- A prune is done at once and hands no value on. -/
theorem invoke_prune {c : Cell ι} (hp : c.isPrune = true) (h : Host ι σ) (i : Nat)
    (incoming : Option Value) (f : Frame σ) : (c.invoke h i incoming f).1 = .ok .nothing := by
  have hperform : ∀ args g, (c.perform h i args g).1 = .ok .nothing := by
    intro args g
    unfold isPrune at hp
    unfold perform
    cases hop : c.op with
    | start => rfl
    | query q => rfl
    | call instruction =>
      simp only [hop, Instruction.isPrune] at hp
      cases haction : instruction.action with
      | prune => simp only [haction]
      | plain body | access body => simp [haction] at hp
  rw [invoke_eq, hperform]
  rfl

end Cell

namespace Chain

def prunes (c : Chain ι) (i : Nat) : Bool := (c.cells[i]?).any Cell.isPrune

theorem prunes_congr {c d : Chain ι} (hcells : d.cells = c.cells) (i : Nat) :
    d.prunes i = c.prunes i := by
  rw [prunes, hcells]
  rfl

/-- With these links cut, the cells from place `i` on are linked up to the cell before place `m`,
and that one is linked to nothing. -/
def Leads (c : Chain ι) (cuts : List Nat) (i m : Nat) : Prop :=
  m ≤ c.cells.length ∧ ∀ j, i ≤ j → j < m → ((j + 1 < c.cells.length ∧ j ∉ cuts) ↔ j + 1 < m)

variable {c d : Chain ι} {h : Host ι σ} {look : Promise → σ → Option Settlement} {i m : Nat}
  {incoming : Option Value} {f : Frame σ}

theorem Leads.later {cuts : List Nat} (hl : c.Leads cuts i m) {k : Nat} (hk : i ≤ k) :
    c.Leads cuts k m :=
  ⟨hl.1, fun j hj => hl.2 j (Nat.le_trans hk hj)⟩

theorem Leads.congr {cuts cuts' : List Nat} (hl : c.Leads cuts i m) (hcells : d.cells = c.cells)
    (hcuts : ∀ k, k ∈ cuts' ↔ k ∈ cuts) : d.Leads cuts' i m := by
  unfold Leads at hl ⊢
  simpa only [hcells, hcuts] using hl

theorem Leads.cutsAfter {cuts : List Nat} (hl : c.Leads cuts i m) (cell : Cell ι) {k : Nat}
    (hk : i < k) : c.Leads (cell.cutsAfter i cuts) k m := by
  refine ⟨hl.1, ?_⟩
  intro j hj hjm
  rw [← hl.2 j (by omega) hjm, Cell.mem_cutsAfter]
  have hne : j ≠ i - 1 := by omega
  simp [hne]

/-- The link that a cell finds after it was invoked. Its own prune does not cut it. -/
theorem turn_next_of_leads (h : Host ι σ) (look : Promise → σ → Option Settlement)
    (incoming : Option Value) {cell : Cell ι} (hi : i < m) (hl : c.Leads f.cuts i m)
    (hhead : i = 0 → cell.isPrune = false) :
    (c.turn h look i cell incoming f).next = if i + 1 < m then some (i + 1) else none := by
  have hne : ¬(cell.isPrune = true ∧ i = i - 1) := by
    rintro ⟨hp, he⟩
    rw [hhead (by omega)] at hp
    cases hp
  unfold turn
  simp only [next_leave, Cell.invoke_cuts, Cell.mem_cutsAfter, or_iff_left hne,
    hl.2 i (Nat.le_refl i) hi]

theorem turn_withCuts (h : Host ι σ) (look : Promise → σ → Option Settlement)
    (incoming : Option Value) {cell : Cell ι} {cuts : List Nat} (hi : i < m)
    (hc : c.Leads f.cuts i m) (hd : d.Leads cuts i m) (hhead : i = 0 → cell.isPrune = false) :
    d.turn h look i cell incoming (f.withCuts cuts) =
      ⟨(c.turn h look i cell incoming f).verdict, (c.turn h look i cell incoming f).next,
        (c.turn h look i cell incoming f).frame.withCuts (cell.cutsAfter i cuts)⟩ := by
  have hnext := turn_next_of_leads h look incoming hi hc hhead
  have hnext' := turn_next_of_leads h look incoming (f := f.withCuts cuts) hi hd hhead
  rw [hnext, ← hnext']
  unfold turn
  rw [Cell.invoke_withCuts]
  rfl

theorem not_isPrune_of_head (hhead : c.prunes 0 = false) {cell : Cell ι}
    (hc : c.cells[i]? = some cell) (hi : i = 0) : cell.isPrune = false := by
  subst hi
  simpa [prunes, hc] using hhead

theorem onward_of_leads {h : Host ι σ} {look : Promise → σ → Option Settlement} {cell : Cell ι}
    {j : Nat} {value : Option Value} (hi : i < m) (hl : c.Leads f.cuts i m)
    (hhead : i = 0 → cell.isPrune = false)
    (ho : (c.turn h look i cell incoming f).onward? = some (j, value)) :
    j = i + 1 ∧ j < c.cells.length ∧ j < m ∧
      c.Leads (c.turn h look i cell incoming f).frame.cuts j m := by
  have hn := (onward_eq_some ho).2
  obtain ⟨rfl, hlen⟩ := turn_next hn
  rw [turn_next_of_leads h look incoming hi hl hhead] at hn
  have hj : i + 1 < m := by
    by_contra hm
    simp [hm] at hn
  have hframe : (c.turn h look i cell incoming f).frame.cuts = cell.cutsAfter i f.cuts :=
    Cell.invoke_cuts ..
  exact ⟨rfl, hlen, hj, hframe ▸ hl.cutsAfter cell (Nat.lt_succ_self i)⟩

/-- Two chains that agree on the cells to which their links lead run alike. -/
theorem follow_withCuts (h : Host ι σ) (look : Promise → σ → Option Settlement)
    (incoming : Option Value) (f : Frame σ) (hcells : ∀ j < m, d.cells[j]? = c.cells[j]?)
    (hhead : c.prunes 0 = false) :
    ∀ cuts, i < m → c.Leads f.cuts i m → d.Leads cuts i m →
      ∃ left, d.follow h look i incoming (f.withCuts cuts) =
        ((c.follow h look i incoming f).1, (c.follow h look i incoming f).2.1,
          (c.follow h look i incoming f).2.2.withCuts left) := by
  fun_induction follow h look c i incoming f with
  | case1 i incoming f hc =>
    intro cuts hi hl hl'
    have := List.getElem?_eq_none_iff.mp hc
    have := hl.1
    omega
  | case2 i incoming f cell hc j value ho ih =>
    intro cuts hi hl hl'
    have hhead' := not_isPrune_of_head hhead hc
    have ht := turn_withCuts h look incoming hi hl hl' hhead'
    obtain ⟨rfl, -, hj, hlater⟩ := onward_of_leads hi hl hhead' ho
    obtain ⟨left, hleft⟩ := ih (cell.cutsAfter i cuts) hj hlater
      (hl'.cutsAfter cell (Nat.lt_succ_self i))
    refine ⟨left, ?_⟩
    rw [follow_of_onward ((hcells i hi).trans hc) ht ho, hleft]
  | case3 i incoming f cell hc ho =>
    intro cuts hi hl hl'
    have ht := turn_withCuts h look incoming hi hl hl' (not_isPrune_of_head hhead hc)
    refine ⟨cell.cutsAfter i cuts, ?_⟩
    rw [follow_of_halt ((hcells i hi).trans hc) ht ho]
    rfl

/-- The links that are cut after a run: those before it, and those of the prunes that it has
invoked. -/
theorem mem_follow_cuts (h : Host ι σ) (look : Promise → σ → Option Settlement) (c : Chain ι)
    (i : Nat) (incoming : Option Value) (f : Frame σ) (k : Nat) :
    k ∈ (c.follow h look i incoming f).2.2.cuts ↔
      k ∈ f.cuts ∨
        ∃ v ∈ (c.follow h look i incoming f).1, c.prunes v.place = true ∧ k = v.place - 1 := by
  have hturn : ∀ (i : Nat) (cell : Cell ι) (incoming : Option Value) (f : Frame σ),
      c.cells[i]? = some cell →
      (k ∈ (c.turn h look i cell incoming f).frame.cuts ↔
        k ∈ f.cuts ∨ (c.prunes i = true ∧ k = i - 1)) := by
    intro i cell incoming f hc
    have hp : c.prunes i = cell.isPrune := by simp [prunes, hc]
    rw [hp, ← Cell.mem_cutsAfter, ← Cell.invoke_cuts h i cell incoming f]
    rfl
  fun_induction follow h look c i incoming f with
  | case1 i incoming f hc => simp
  | case2 i incoming f cell hc j value ho ih =>
    refine ih.trans ?_
    rw [hturn i cell incoming f hc]
    simp [or_assoc]
  | case3 i incoming f cell hc ho =>
    rw [hturn i cell incoming f hc]
    simp

/-- How far a run gets that the links lead up to place `m`. -/
structure Covers (c : Chain ι) (i m : Nat) (visits : List Visit) (halt : Halt) : Prop where
  bounded : i + visits.length ≤ m
  finished : ∀ value, halt = .done value → i + visits.length = m
  resumes : ∀ p next, halt = .waiting p next →
    next = if i + visits.length < m then some (i + visits.length) else none
  pruned : ∀ v ∈ visits.getLast?, c.prunes v.place = true → i + visits.length = m

theorem Covers.cons {visits : List Visit} {halt : Halt} (hrest : c.Covers (i + 1) m visits halt)
    (hne : visits ≠ []) (v : Visit) : c.Covers i m (v :: visits) halt := by
  have hlength : i + (v :: visits).length = i + 1 + visits.length := by
    rw [List.length_cons]
    omega
  constructor
  · rw [hlength]
    exact hrest.bounded
  · rw [hlength]
    exact hrest.finished
  · rw [hlength]
    exact hrest.resumes
  · rw [hlength, List.getLast?_cons_of_ne_nil hne]
    exact hrest.pruned

theorem end_of_passes {h : Host ι σ} {look : Promise → σ → Option Settlement} {cell : Cell ι}
    {value : Option Value} (hi : i < m) (hl : c.Leads f.cuts i m)
    (hhead : i = 0 → cell.isPrune = false)
    (ho : (c.turn h look i cell incoming f).onward? = none)
    (hv : (c.turn h look i cell incoming f).verdict = .passes value) : i + 1 = m := by
  have hnext := turn_next_of_leads h look incoming hi hl hhead
  by_contra hm
  have hlt : i + 1 < m := by omega
  rw [if_pos hlt] at hnext
  rw [onward_of_passes hv hnext] at ho
  cases ho

theorem halt_covers {h : Host ι σ} {look : Promise → σ → Option Settlement} {cell : Cell ι}
    (hhead : c.prunes 0 = false) (hi : i < m) (hl : c.Leads f.cuts i m)
    (hc : c.cells[i]? = some cell) (ho : (c.turn h look i cell incoming f).onward? = none) :
    c.Covers i m [⟨i, (c.turn h look i cell incoming f).verdict⟩]
      (c.turn h look i cell incoming f).halt := by
  have hhead' := not_isPrune_of_head hhead hc
  constructor
  · simp only [List.length_cons, List.length_nil]
    omega
  · intro value he
    unfold Turn.halt at he
    cases hv : (c.turn h look i cell incoming f).verdict with
    | passes value' => exact end_of_passes hi hl hhead' ho hv
    | fails | rejects | waits => rw [hv] at he; cases he
  · intro p next he
    unfold Turn.halt at he
    cases hv : (c.turn h look i cell incoming f).verdict with
    | waits q =>
      rw [hv] at he
      injection he with _ hn
      rw [← hn, turn_next_of_leads h look incoming hi hl hhead']
      rfl
    | passes | fails | rejects => rw [hv] at he; cases he
  · intro v hmem hp
    cases hmem
    have hprune : cell.isPrune = true := by simpa [prunes, hc] using hp
    have hpasses : (c.turn h look i cell incoming f).verdict = .passes none := by
      unfold turn
      simp only [Cell.invoke_prune hprune h i incoming f, Reply.nothing, Verdict.of]
    exact end_of_passes hi hl hhead' ho hpasses

theorem follow_covers (h : Host ι σ) (look : Promise → σ → Option Settlement)
    (incoming : Option Value) (f : Frame σ) (hhead : c.prunes 0 = false) (hi : i < m)
    (hl : c.Leads f.cuts i m) :
    c.Covers i m (c.follow h look i incoming f).1 (c.follow h look i incoming f).2.1 := by
  fun_induction follow h look c i incoming f with
  | case1 i incoming f hc =>
    have := List.getElem?_eq_none_iff.mp hc
    have := hl.1
    omega
  | case2 i incoming f cell hc j value ho ih =>
    obtain ⟨rfl, hlen, hj, hlater⟩ := onward_of_leads hi hl (not_isPrune_of_head hhead hc) ho
    exact (ih hj hlater).cons (follow_followed h look c (i + 1) value _ hlen).nonempty _
  | case3 i incoming f cell hc ho => exact halt_covers hhead hi hl hc ho

theorem reachedFrom_isPrefix (cuts : List Nat) (i : Nat) (cells : List (Cell ι)) :
    reachedFrom cuts i cells <+: cells := by
  induction cells generalizing i with
  | nil => exact List.prefix_rfl
  | cons cell rest ih =>
    unfold reachedFrom
    by_cases hi : i ∈ cuts
    · rw [if_pos hi]
      exact ⟨rest, rfl⟩
    · rw [if_neg hi]
      exact List.cons_prefix_cons.mpr ⟨rfl, ih (i + 1)⟩

theorem reachedFrom_nil (i : Nat) (cells : List (Cell ι)) : reachedFrom [] i cells = cells := by
  induction cells generalizing i with
  | nil => rfl
  | cons cell rest ih => simp [reachedFrom, ih]

theorem lt_length_reachedFrom (cuts : List Nat) (cells : List (Cell ι)) (i j : Nat)
    (hj : j < (reachedFrom cuts i cells).length) :
    (j + 1 < cells.length ∧ i + j ∉ cuts) ↔ j + 1 < (reachedFrom cuts i cells).length := by
  induction cells generalizing i j with
  | nil => simp [reachedFrom] at hj
  | cons cell rest ih =>
    unfold reachedFrom at hj ⊢
    by_cases hi : i ∈ cuts
    · have hj0 : j = 0 := by simpa [hi] using hj
      simp [hi, hj0]
    · cases j with
      | zero =>
        -- The cell behind a link that is in place is reached.
        cases rest with
        | nil => simp [hi, reachedFrom]
        | cons next rest =>
          have hne : 0 < (reachedFrom cuts (i + 1) (next :: rest)).length := by
            unfold reachedFrom
            split <;> simp
          simp [hi, hne]
      | succ j =>
        rw [if_neg hi, List.length_cons] at hj ⊢
        have hrest := ih (i + 1) j (by omega)
        rw [List.length_cons, Nat.add_lt_add_iff_right, Nat.add_lt_add_iff_right, ← hrest,
          show i + (j + 1) = i + 1 + j by omega]

def reached (c : Chain ι) : List (Cell ι) := reachedFrom c.cuts 0 c.cells

theorem prunes_of_reached {c : Chain ι} {j : Nat} (hj : j < c.reached.length) :
    c.prunes j = c.reached[j].isPrune := by
  have hcell := List.prefix_iff_getElem?.mp (reachedFrom_isPrefix c.cuts 0 c.cells) j hj
  simp only [prunes, hcell]
  rfl

/-- The number of cells that a firing can invoke: those that are reached, and after a prune only
those before the first prune. -/
def extent (c : Chain ι) (pruned : Bool) : Nat :=
  (if pruned then c.reached.takeWhile (!·.isPrune) else c.reached).length

theorem extent_true (c : Chain ι) : c.extent true = c.reached.findIdx Cell.isPrune := by
  simp [extent, List.takeWhile_eq_take_findIdx_not, List.findIdx_le_length]

theorem leads_extent (c : Chain ι) : c.Leads c.cuts 0 (c.extent false) := by
  refine ⟨(reachedFrom_isPrefix c.cuts 0 c.cells).length_le, ?_⟩
  intro j _ hj
  simpa [extent, reached] using
    lt_length_reachedFrom c.cuts c.cells 0 j (by simpa [extent, reached] using hj)

theorem not_prunes_of_lt_extent {c : Chain ι} {j : Nat} (hj : j < c.extent true) :
    c.prunes j = false := by
  rw [extent_true] at hj
  rw [prunes_of_reached (Nat.lt_of_lt_of_le hj List.findIdx_le_length)]
  exact List.not_of_lt_findIdx hj

theorem prunes_extent {c : Chain ι} (hlt : c.extent true < c.extent false) :
    c.prunes (c.extent true) = true := by
  have hlt' : c.extent true < c.reached.length := hlt
  rw [prunes_of_reached hlt']
  simp only [extent_true] at hlt' ⊢
  exact List.findIdx_getElem

/-- Once a prune was invoked, the links lead up to the first one. -/
theorem leads_pruned {c : Chain ι} {cuts : List Nat} {visits : List Visit}
    (hhead : c.prunes 0 = false)
    (hcuts : ∀ k, k ∈ cuts ↔
      k ∈ c.cuts ∨ ∃ v ∈ visits, c.prunes v.place = true ∧ k = v.place - 1)
    (hplaces : visits.map Visit.place = List.range visits.length)
    (hbounded : visits.length ≤ c.extent false)
    (hprune : ∃ v ∈ visits, c.prunes v.place = true) : c.Leads cuts 0 (c.extent true) := by
  have hplace : ∀ v ∈ visits, v.place < visits.length := by
    intro v hv
    exact List.mem_range.mp (hplaces ▸ List.mem_map_of_mem hv)
  have hfirst : ∀ v ∈ visits, c.prunes v.place = true → c.extent true ≤ v.place := by
    intro v hv hp
    by_contra hlt
    rw [not_prunes_of_lt_extent (Nat.lt_of_not_le hlt)] at hp
    cases hp
  obtain ⟨v, hv, hp⟩ := hprune
  have hlast := hfirst v hv hp
  have hvlt := hplace v hv
  have hext : c.extent true < c.extent false := by omega
  have hpos : c.extent true ≠ 0 := by
    intro hzero
    have := prunes_extent hext
    rw [hzero, hhead] at this
    cases this
  -- All places up to the last one invoked were invoked, so the first prune was.
  obtain ⟨u, hu, hplace_u⟩ : ∃ u ∈ visits, u.place = c.extent true := by
    have hmem : c.extent true ∈ visits.map Visit.place := by
      rw [hplaces]
      exact List.mem_range.mpr (by omega)
    exact List.mem_map.mp hmem
  have hwhole := leads_extent c
  refine ⟨Nat.le_trans (Nat.le_of_lt hext) hwhole.1, ?_⟩
  intro j _ hj
  have hlink := hwhole.2 j (Nat.zero_le j) (by omega)
  have hlen := hwhole.1
  constructor
  · rintro ⟨-, hcut⟩
    by_contra hend
    apply hcut
    rw [hcuts]
    exact Or.inr ⟨u, hu, hplace_u ▸ prunes_extent hext, by omega⟩
  · intro hnext
    refine ⟨by omega, ?_⟩
    rw [hcuts]
    rintro (hcut | ⟨t, ht, hpt, hjt⟩)
    · exact (hlink.mpr (by omega)).2 hcut
    · have := hfirst t ht hpt
      omega

end Chain

end AttrChain
