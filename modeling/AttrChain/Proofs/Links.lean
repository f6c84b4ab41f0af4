import AttrChain.Chain.Run

/-!
Runs told along the links of a chain: the cells that a run invokes, one after another, and what came
of each of them.
-/

namespace AttrChain

variable {ι σ : Type}

namespace Cell

/-- What a cell does before it runs what it is made for: the arguments, and the frame with the data
for it. -/
def prepare (c : Cell ι) (incoming : Option Value) (f : Frame σ) : List Value × Frame σ :=
  let (args, stack) := c.arguments (f.stack.push incoming.toList)
  let (data, stack) := c.takeData stack
  (args, { f with ctx := { f.ctx with data }, stack })

theorem invoke_eq (h : Host ι σ) (i : Nat) (c : Cell ι) (incoming : Option Value) (f : Frame σ) :
    c.invoke h i incoming f =
      c.result (c.perform h i (c.prepare incoming f).1 (c.prepare incoming f).2).1
        (c.perform h i (c.prepare incoming f).1 (c.prepare incoming f).2).2 := rfl

theorem result_of_not_isUpdate {c : Cell ι} (hc : c.isUpdate = false)
    (reply : Except Error Reply) (f : Frame σ) : c.result reply f = (reply, f) := by
  unfold result
  split
  · rw [hc]
    rfl
  · rfl

end Cell

inductive Verdict where
  | passes (value : Option Value)
  | fails (e : Error)
  | rejects (why : Rejection)
  | waits (p : Promise)

/-- A promise is looked at in the state of the host that the cell has left behind. -/
def Verdict.of (look : Promise → σ → Option Settlement) (s : σ) : Except Error Reply → Verdict
  | .error e => .fails e
  | .ok (.done value) => .passes value
  | .ok (.pending p) => match look p s with
    | some (.fulfilled value) => .passes value
    | some (.rejected why) => .rejects why
    | none => .waits p

def Verdict.halt (next : Option Nat) : Verdict → Halt
  | .passes value => .done value
  | .fails e => .failed e
  | .rejects why => .rejected why
  | .waits p => .waiting p next

/-- A cell invoked: what came of it, the link that it finds to the next cell, and what it leaves. -/
structure Turn (σ : Type) where
  verdict : Verdict
  next : Option Nat
  frame : Frame σ

def Turn.onward? (t : Turn σ) : Option (Nat × Option Value) :=
  match t.verdict with
  | .passes value => t.next.map fun j => (j, value)
  | _ => none

def Turn.halt (t : Turn σ) : Halt := t.verdict.halt t.next

structure Visit where
  place : Nat
  verdict : Verdict

namespace Chain

def turn (h : Host ι σ) (look : Promise → σ → Option Settlement) (c : Chain ι) (i : Nat)
    (cell : Cell ι) (incoming : Option Value) (f : Frame σ) : Turn σ :=
  let (reply, f) := cell.invoke h i incoming f
  ⟨Verdict.of look f.host reply, (c.leave f).next? i, f⟩

theorem next_leave (c : Chain ι) (f : Frame σ) (i : Nat) :
    (c.leave f).next? i =
      if i + 1 < c.cells.length ∧ i ∉ f.cuts then some (i + 1) else none := rfl

theorem next_eq_some {c : Chain ι} {i j : Nat} (h : c.next? i = some j) :
    j = i + 1 ∧ j < c.cells.length := by
  unfold next? at h
  split at h
  · next hl => cases h; exact ⟨rfl, hl.1⟩
  · cases h

theorem turn_next {h : Host ι σ} {look : Promise → σ → Option Settlement} {c : Chain ι}
    {i j : Nat} {cell : Cell ι} {incoming : Option Value} {f : Frame σ}
    (hn : (c.turn h look i cell incoming f).next = some j) : j = i + 1 ∧ j < c.cells.length :=
  next_eq_some (c := c.leave (cell.invoke h i incoming f).2) hn

theorem onward_eq_some {t : Turn σ} {j : Nat} {value : Option Value}
    (h : t.onward? = some (j, value)) : t.verdict = .passes value ∧ t.next = some j := by
  unfold Turn.onward? at h
  split at h
  · next hv =>
    obtain ⟨k, hk, he⟩ := Option.map_eq_some_iff.mp h
    cases he
    exact ⟨hv, hk⟩
  · cases h

theorem onward_of_passes {t : Turn σ} {j : Nat} {value : Option Value}
    (hv : t.verdict = .passes value) (hj : t.next = some j) : t.onward? = some (j, value) := by
  simp [Turn.onward?, hv, hj]

/-- The run told along the links, with the cells that it invokes. -/
def follow (h : Host ι σ) (look : Promise → σ → Option Settlement) (c : Chain ι)
    (i : Nat) (incoming : Option Value) (f : Frame σ) : List Visit × Halt × Frame σ :=
  match c.cells[i]? with
  | none => ([], .done incoming, f)
  | some cell =>
    match _honward : (c.turn h look i cell incoming f).onward? with
    | some (j, value) =>
      (⟨i, (c.turn h look i cell incoming f).verdict⟩ ::
        (follow h look c j value (c.turn h look i cell incoming f).frame).1,
        (follow h look c j value (c.turn h look i cell incoming f).frame).2)
    | none =>
      ([⟨i, (c.turn h look i cell incoming f).verdict⟩],
        (c.turn h look i cell incoming f).halt, (c.turn h look i cell incoming f).frame)
termination_by c.cells.length - i
decreasing_by
  all_goals
    obtain ⟨rfl, hj⟩ := turn_next (onward_eq_some _honward).2
    omega

theorem follow_of_none {h : Host ι σ} {look : Promise → σ → Option Settlement} {c : Chain ι}
    {i : Nat} {incoming : Option Value} {f : Frame σ} (hc : c.cells[i]? = none) :
    follow h look c i incoming f = ([], .done incoming, f) := by
  rw [follow]
  simp only [hc]

theorem follow_of_onward {h : Host ι σ} {look : Promise → σ → Option Settlement} {c : Chain ι}
    {i j : Nat} {cell : Cell ι} {incoming value : Option Value} {f : Frame σ} {t : Turn σ}
    (hc : c.cells[i]? = some cell) (ht : c.turn h look i cell incoming f = t)
    (ho : t.onward? = some (j, value)) :
    follow h look c i incoming f =
      (⟨i, t.verdict⟩ :: (follow h look c j value t.frame).1,
        (follow h look c j value t.frame).2) := by
  subst ht
  rw [follow]
  split
  · next hn => rw [hc] at hn; cases hn
  · next cell' hc' =>
    cases hc.symm.trans hc'
    split
    · next j' value' ho' => cases ho.symm.trans ho'; rfl
    · next hn => rw [ho] at hn; cases hn

theorem follow_of_halt {h : Host ι σ} {look : Promise → σ → Option Settlement} {c : Chain ι}
    {i : Nat} {cell : Cell ι} {incoming : Option Value} {f : Frame σ} {t : Turn σ}
    (hc : c.cells[i]? = some cell) (ht : c.turn h look i cell incoming f = t)
    (ho : t.onward? = none) :
    follow h look c i incoming f = ([⟨i, t.verdict⟩], t.halt, t.frame) := by
  subst ht
  rw [follow]
  split
  · next hn => rw [hc] at hn; cases hn
  · next cell' hc' =>
    cases hc.symm.trans hc'
    split
    · next ho' => rw [ho] at ho'; cases ho'
    · rfl

/-- A run does not depend on what the chain was left with. -/
theorem follow_leave {h : Host ι σ} {look : Promise → σ → Option Settlement} {c : Chain ι}
    {ρ : Type} (x : Frame ρ) (i : Nat) (incoming : Option Value) (f : Frame σ) :
    (c.leave x).follow h look i incoming f = c.follow h look i incoming f := by
  fun_induction follow h look c i incoming f with
  | case1 i incoming f hc => exact follow_of_none hc
  | case2 i incoming f cell hc j value ho ih =>
    rw [follow_of_onward (c := c.leave x) hc rfl ho]
    exact congrArg (fun r => (_ :: r.1, r.2)) ih
  | case3 i incoming f cell hc ho => exact follow_of_halt (c := c.leave x) hc rfl ho

theorem run_drop (h : Host ι σ) (look : Promise → σ → Option Settlement) {c : Chain ι} {i : Nat}
    {cell : Cell ι} (hc : c.cells[i]? = some cell) (incoming : Option Value) (f : Frame σ) :
    run h look i (c.cells.drop i) incoming f =
      match (c.turn h look i cell incoming f).onward? with
      | some (j, value) =>
        run h look j (c.cells.drop j) value (c.turn h look i cell incoming f).frame
      | none =>
        ((c.turn h look i cell incoming f).halt, (c.turn h look i cell incoming f).frame) := by
  obtain ⟨hi, he⟩ := List.getElem?_eq_some_iff.mp hc
  rw [List.drop_eq_getElem_cons hi, he, run, turn]
  generalize cell.invoke h i incoming f = r
  obtain ⟨reply, g⟩ := r
  -- A run that is linked past the last cell finds no cell and hands the value back.
  have hpast : ∀ value, c.cells.length ≤ i + 1 →
      run h look (i + 1) (c.cells.drop (i + 1)) value g = (.done value, g) := by
    intro value hlen
    rw [List.drop_eq_nil_of_le hlen, run]
  have hpass : ∀ value, (if i ∉ g.cuts then
        run h look (i + 1) (c.cells.drop (i + 1)) value g else (.done value, g)) =
      match (Turn.mk (.passes value) ((c.leave g).next? i) g).onward? with
      | some (j, value) => run h look j (c.cells.drop j) value g
      | none => (.done value, g) := by
    intro value
    rw [next_leave]
    by_cases hcut : i ∈ g.cuts
    · simp [hcut, Turn.onward?]
    · rcases Nat.lt_or_ge (i + 1) c.cells.length with hlen | hlen
      · simp [hlen, hcut, Turn.onward?]
      · simp [hcut, Nat.not_lt.mpr hlen, Turn.onward?, hpast value hlen]
  cases reply with
  | error e => rfl
  | ok reply =>
    cases reply with
    | done value => exact hpass value
    | pending p =>
      simp only [Verdict.of]
      cases look p g.host with
      | none => simp [Turn.onward?, Turn.halt, Verdict.halt, next_leave, and_comm]
      | some settlement =>
        cases settlement with
        | fulfilled value => exact hpass value
        | rejected why => rfl

theorem follow_eq_run (h : Host ι σ) (look : Promise → σ → Option Settlement) (c : Chain ι)
    (i : Nat) (incoming : Option Value) (f : Frame σ) :
    run h look i (c.cells.drop i) incoming f = (follow h look c i incoming f).2 := by
  fun_induction follow h look c i incoming f with
  | case1 i incoming f hc =>
    rw [List.drop_eq_nil_of_le (List.getElem?_eq_none_iff.mp hc), run]
  | case2 i incoming f cell hc j value honward ih =>
    rw [run_drop h look hc, honward]
    exact ih
  | case3 i incoming f cell hc honward =>
    rw [run_drop h look hc, honward]

/-- What can be said of the cells that a run from place `i` invokes. -/
structure Followed (c : Chain ι) (i : Nat) (visits : List Visit) (halt : Halt) : Prop where
  nonempty : visits ≠ []
  places : visits.map Visit.place = List.range' i visits.length
  bounded : i + visits.length ≤ c.cells.length
  passed : ∀ v ∈ visits.dropLast, ∃ value, v.verdict = .passes value
  last : ∀ v ∈ visits.getLast?, ∃ next, halt = v.verdict.halt next
  resumes : ∀ p j, halt = .waiting p (some j) → j = i + visits.length ∧ j < c.cells.length

theorem follow_followed (h : Host ι σ) (look : Promise → σ → Option Settlement) (c : Chain ι)
    (i : Nat) (incoming : Option Value) (f : Frame σ) (hi : i < c.cells.length) :
    Followed c i (follow h look c i incoming f).1 (follow h look c i incoming f).2.1 := by
  fun_induction follow h look c i incoming f with
  | case1 i incoming f hc =>
    have := List.getElem?_eq_none_iff.mp hc
    omega
  | case2 i incoming f cell hc j value honward ih =>
    obtain ⟨hv, hj⟩ := onward_eq_some honward
    obtain ⟨rfl, hlen⟩ := turn_next hj
    have hrest := ih hlen
    have hbound := hrest.bounded
    refine ⟨by simp, ?_, ?_, ?_, ?_, ?_⟩
    · simp [List.range'_succ, hrest.places]
    · simp only [List.length_cons]
      omega
    · intro v hmem
      rw [List.dropLast_cons_of_ne_nil hrest.nonempty] at hmem
      rcases List.mem_cons.mp hmem with rfl | hmem
      · exact ⟨value, hv⟩
      · exact hrest.passed v hmem
    · intro v hmem
      rw [List.getLast?_cons_of_ne_nil hrest.nonempty] at hmem
      exact hrest.last v hmem
    · intro p k hk
      have := hrest.resumes p k hk
      simp only [List.length_cons]
      omega
  | case3 i incoming f cell hc honward =>
    refine ⟨by simp, by simp, by simp; omega, by simp, ?_, ?_⟩
    · intro v hmem
      cases hmem
      exact ⟨_, rfl⟩
    · intro p j hj
      unfold Turn.halt at hj
      cases hv : (c.turn h look i cell incoming f).verdict with
      | waits q =>
        rw [hv] at hj
        injection hj with _ hj
        exact turn_next hj
      | passes | fails | rejects => rw [hv] at hj; cases hj

end Chain
end AttrChain
