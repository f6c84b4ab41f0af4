import AttrChain.Proofs.Instants
import AttrChain.Proofs.Packing

/-!
Placeholders on the stack. One instruction puts them into the buffer; as long as a chain has no cell
that calls it, its buffer has none, whatever is set aside, returned or passed as an argument.
-/

namespace AttrChain

variable {ι ε σ : Type}

namespace Stack

theorem filled_empty : empty.Filled := by
  intro v hv
  cases hv

theorem Operation.keeps_filled {s : Stack} (hs : s.Filled) {o : Operation} (ho : o ≠ .pushNil) :
    (o.on s).after.Filled := by
  obtain ⟨buffer, staging, hbuffer, hbuffer', -, -⟩ := o.lead s
  have hpushed : ∀ v ∈ (o.pieces s).pushed, v.isNil = false := by
    cases o with
    | push values =>
      intro v hv
      simpa using (List.mem_filter.mp hv).2
    | pushNil => exact absurd rfl ho
    | stageTopMany n | stageBottomMany n => by_cases hn : 1 < n <;> simp [pieces, hn]
    | draw n =>
      dsimp only [pieces]
      split
      · simp
      · split <;> simp
    | _ => simp [pieces]
  intro v hv
  rw [hbuffer'] at hv
  rcases List.mem_append.mp hv with hv | hv
  · apply hs
    rw [hbuffer]
    simp [hv]
  · exact hpushed v hv

end Stack

section Instructions

variable {s : Stack}

theorem Control.perform_filled {c : Control} (hc : c ≠ .nil) (args : List Value) (ctx : Context)
    (hs : s.Filled) : (c.perform args ctx s).2.2.Filled := by
  have hon {o : Stack.Operation} (ho : o ≠ .pushNil) : (o.on s).after.Filled :=
    Stack.Operation.keeps_filled hs ho
  cases c with
  | nil => exact absurd rfl hc
  | push => exact hon (o := .push _) nofun
  | pop =>
    dsimp only [perform]
    split
    · exact hon (o := .stageTop) nofun
    · exact hon (o := .stageTopMany _) nofun
  | shift =>
    dsimp only [perform]
    split
    · exact hon (o := .stageBottom) nofun
    · exact hon (o := .stageBottomMany _) nofun
  | index => exact hon (o := .stageCopies _) nofun
  | dup | dups => exact hon (o := .push _) nofun
  | pack | vain => exact hon (o := .popMany _) nofun
  | spread =>
    dsimp only [perform]
    split
    · exact hs
    · split
      · exact hon (o := .push _) nofun
      · exact hs
  | avoid | stop =>
    dsimp only [perform]
    split <;> exact hs
  | part | pass | finish | debug => exact hs

theorem Control.perform_nil (ctx : Context) (hctx : ctx.data = none) :
    (Control.nil.perform [] ctx .empty).2.2.buffer = [.nil] := by
  simp [perform, applies, hctx, Stack.pushNil, Stack.empty]

theorem Kit.fills_iff (k : Kit) :
    (∀ args ctx s d, s.Filled → (k.perform args ctx s d).2.2.1.Filled) ↔ k ≠ .control .nil := by
  constructor
  · rintro hk rfl
    have hput := hk [] .blank .empty .empty Stack.filled_empty .nil
    rw [Kit.perform, Control.perform_nil _ rfl] at hput
    cases hput List.mem_cons_self
  · intro hk args ctx s d hs
    cases k with
    | control c =>
      have hc : c ≠ .nil := by
        rintro rfl
        exact hk rfl
      exact c.perform_filled hc args ctx hs
    | compute c => exact hs
    | change c => exact hs

end Instructions

section Cells

variable {h : Host ι σ} {cell : Cell ι} {f : Frame σ}

/-- The instruction of the cell, if it sees the stack, puts no placeholder into the buffer. -/
def Cell.Fills (h : Host ι σ) (cell : Cell ι) : Prop :=
  ∀ body arity, cell.op = .call ⟨.access body, arity⟩ →
    ∀ args ctx (s : Stack) state, s.Filled → (h.perform body args ctx s state).2.2.1.Filled

namespace Cell

theorem arguments_filled (cell : Cell ι) {s : Stack} (hs : s.Filled) :
    (cell.arguments s).2.Filled := by
  unfold arguments
  split
  · exact hs
  · have hpop : s.pop.2.Filled := Stack.Operation.keeps_filled hs (o := .pop) nofun
    dsimp only
    split <;> exact hpop
  · exact Stack.Operation.keeps_filled hs (o := .popMany _) nofun

theorem takeData_filled (cell : Cell ι) {s : Stack} (hs : s.Filled) :
    (cell.takeData s).2.Filled := by
  unfold takeData
  split
  · exact Stack.Operation.keeps_filled hs (o := .draw _) nofun
  · exact hs

theorem prepare_filled (cell : Cell ι) (incoming : Option Value) (hs : f.stack.Filled) :
    (cell.prepare incoming f).2.stack.Filled := by
  have hpush : (f.stack.push incoming.toList).Filled :=
    Stack.Operation.keeps_filled hs (o := .push _) nofun
  exact cell.takeData_filled (cell.arguments_filled hpush)

theorem perform_filled (hcell : cell.Fills h) (i : Nat) (args : List Value)
    (hs : f.stack.Filled) : (cell.perform h i args f).2.stack.Filled := by
  unfold perform
  cases hop : cell.op with
  | start => exact hs
  | query q => exact hs
  | call instruction =>
    obtain ⟨action, arity⟩ := instruction
    cases action with
    | plain body => exact hs
    | access body => exact hcell body arity hop args f.ctx f.stack f.host hs
    | prune => exact hs

theorem result_stack (cell : Cell ι) (reply : Except Error Reply) (f : Frame σ) :
    (cell.result reply f).2.stack = f.stack := by
  unfold result
  split
  · split <;> rfl
  · rfl

theorem invoke_filled (hcell : cell.Fills h) (i : Nat) (incoming : Option Value)
    (hs : f.stack.Filled) : (cell.invoke h i incoming f).2.stack.Filled := by
  rw [invoke_eq, result_stack]
  exact perform_filled hcell i _ (cell.prepare_filled incoming hs)

end Cell

end Cells

/-- A cell that is invoked: the value that it is handed, and the frame that it finds. -/
structure Cell.Invocation (ι σ : Type) where
  place : Nat
  cell : Cell ι
  incoming : Option Value
  frame : Frame σ

/-- No placeholder is in the buffer as the cell finds it, as its instruction finds it, and as it is
left. -/
def Cell.Invocation.Filled (h : Host ι σ) (x : Cell.Invocation ι σ) : Prop :=
  x.frame.stack.Filled ∧ (x.cell.prepare x.incoming x.frame).2.stack.Filled ∧
    (x.cell.invoke h x.place x.incoming x.frame).2.stack.Filled

namespace Chain

variable {h : Host ι σ} {look : Promise → σ → Option Settlement} {c : Chain ι} {i : Nat}
  {cell : Cell ι} {incoming : Option Value} {f : Frame σ}

def invocations (h : Host ι σ) (look : Promise → σ → Option Settlement) (c : Chain ι) (i : Nat)
    (incoming : Option Value) (f : Frame σ) : List (Cell.Invocation ι σ) :=
  match c.cells[i]? with
  | none => []
  | some cell =>
    ⟨i, cell, incoming, f⟩ ::
      match _honward : (c.turn h look i cell incoming f).onward? with
      | some (j, value) => invocations h look c j value (c.turn h look i cell incoming f).frame
      | none => []
termination_by c.cells.length - i
decreasing_by
  obtain ⟨rfl, hj⟩ := turn_next (onward_eq_some _honward).2
  omega

theorem invocations_of_none (hc : c.cells[i]? = none) :
    c.invocations h look i incoming f = [] := by
  rw [invocations]
  simp only [hc]

theorem invocations_of_onward {j : Nat} {value : Option Value} (hc : c.cells[i]? = some cell)
    (ho : (c.turn h look i cell incoming f).onward? = some (j, value)) :
    c.invocations h look i incoming f =
      ⟨i, cell, incoming, f⟩ ::
        c.invocations h look j value (c.turn h look i cell incoming f).frame := by
  rw [invocations]
  simp only [hc]
  split
  · next ho' => cases ho.symm.trans ho'; rfl
  · next ho' => rw [ho] at ho'; cases ho'

theorem invocations_of_halt (hc : c.cells[i]? = some cell)
    (ho : (c.turn h look i cell incoming f).onward? = none) :
    c.invocations h look i incoming f = [⟨i, cell, incoming, f⟩] := by
  rw [invocations]
  simp only [hc]
  split
  · next ho' => rw [ho] at ho'; cases ho'
  · rfl

theorem invocations_places (h : Host ι σ) (look : Promise → σ → Option Settlement) (c : Chain ι)
    (i : Nat) (incoming : Option Value) (f : Frame σ) :
    (c.invocations h look i incoming f).map Cell.Invocation.place =
      (c.follow h look i incoming f).1.map Visit.place := by
  fun_induction follow h look c i incoming f with
  | case1 i incoming f hc =>
    rw [invocations_of_none hc]
    rfl
  | case2 i incoming f cell hc j value ho ih =>
    rw [invocations_of_onward hc ho, List.map_cons, List.map_cons, ih]
  | case3 i incoming f cell hc ho =>
    rw [invocations_of_halt hc ho]
    rfl

def Fills (h : Host ι σ) (c : Chain ι) : Prop := ∀ cell ∈ c.cells, cell.Fills h

theorem follow_filled (hc : c.Fills h) (look : Promise → σ → Option Settlement) (i : Nat)
    (incoming : Option Value) {f : Frame σ} (hs : f.stack.Filled) :
    (∀ x ∈ c.invocations h look i incoming f, x.Filled h) ∧
      (c.follow h look i incoming f).2.2.stack.Filled := by
  have hfilled {i : Nat} {cell : Cell ι} (hcell : c.cells[i]? = some cell)
      (incoming : Option Value) {f : Frame σ} (hs : f.stack.Filled) :
      Cell.Invocation.Filled h ⟨i, cell, incoming, f⟩ :=
    ⟨hs, cell.prepare_filled incoming hs,
      Cell.invoke_filled (hc cell (List.mem_of_getElem? hcell)) i incoming hs⟩
  fun_induction follow h look c i incoming f with
  | case1 i incoming f hcell =>
    rw [invocations_of_none hcell]
    exact ⟨by simp, hs⟩
  | case2 i incoming f cell hcell j value ho ih =>
    have hfirst := hfilled hcell incoming hs
    obtain ⟨hlater, hend⟩ := ih hfirst.2.2
    rw [invocations_of_onward hcell ho]
    refine ⟨?_, hend⟩
    rintro x (_ | ⟨_, hx⟩)
    · exact hfirst
    · exact hlater x hx
  | case3 i incoming f cell hcell ho =>
    have hlast := hfilled hcell incoming hs
    rw [invocations_of_halt hcell ho]
    refine ⟨?_, hlast.2.2⟩
    intro x hx
    rw [List.mem_singleton.mp hx]
    exact hlast

def launchInvocations (h : Host ι σ) (c : Chain ι) (event : Event) (ctx : Context) (state : σ) :
    List (Cell.Invocation ι σ) :=
  c.invocations h (fun _ _ => none) 0 c.initial (c.opening event ctx state)

def proceedInvocations (h : Host ι σ) (c : Chain ι) (f : Suspended) (state : σ) :
    List (Cell.Invocation ι σ) :=
  match h.settlement? f.promise state, f.next with
  | some (.fulfilled value), some i =>
    c.invocations h h.settlement? i value ⟨f.ctx, c.stack, c.cuts, state⟩
  | _, _ => []

theorem launch_filled (hc : c.Fills h) (id : ChainId) (event : Event) (ctx : Context) (state : σ) :
    (∀ x ∈ c.launchInvocations h event ctx state, x.Filled h) ∧
      (c.launch h id event ctx state).chain.stack.Filled :=
  follow_filled hc _ 0 c.initial (f := c.opening event ctx state) Stack.filled_empty

theorem launch_places (h : Host ι σ) (id : ChainId) (c : Chain ι) (event : Event) (ctx : Context)
    (state : σ) :
    (c.launchInvocations h event ctx state).map Cell.Invocation.place =
      (c.launch h id event ctx state).visits.map Visit.place :=
  invocations_places ..

theorem proceed_filled (hc : c.Fills h) (hs : c.stack.Filled) (f : Suspended) (state : σ) :
    (∀ x ∈ c.proceedInvocations h f state, x.Filled h) ∧
      (c.proceed h f state).chain.stack.Filled := by
  unfold proceedInvocations proceed
  cases h.settlement? f.promise state with
  | none => exact ⟨by simp, hs⟩
  | some settlement =>
    cases settlement with
    | rejected why => exact ⟨by simp, hs⟩
    | fulfilled value =>
      cases f.next with
      | none => exact ⟨by simp, hs⟩
      | some i =>
        have hrun := follow_filled hc h.settlement? i value
          (f := ⟨f.ctx, c.stack, c.cuts, state⟩) hs
        dsimp only
        generalize c.follow h h.settlement? i value _ = r at hrun ⊢
        obtain ⟨visits, halt, g⟩ := r
        cases halt <;> exact hrun

theorem proceed_places (h : Host ι σ) (c : Chain ι) (f : Suspended) (state : σ) :
    (c.proceedInvocations h f state).map Cell.Invocation.place =
      (c.proceed h f state).visits.map Visit.place := by
  unfold proceedInvocations proceed
  cases h.settlement? f.promise state with
  | none => rfl
  | some settlement =>
    cases settlement with
    | rejected why => rfl
    | fulfilled value =>
      cases f.next with
      | none => rfl
      | some i =>
        have hplaces := invocations_places h h.settlement? c i value
          ⟨f.ctx, c.stack, c.cuts, state⟩
        dsimp only
        generalize c.follow h h.settlement? i value _ = r at hplaces ⊢
        obtain ⟨visits, halt, g⟩ := r
        cases halt <;> exact hplaces

end Chain

namespace Course

variable {h : Host ι ε} {p : Course ι ε}

/-- The stack of each chain of which no instruction puts placeholders has none. -/
def Filled (h : Host ι ε) (p : Course ι ε) : Prop :=
  ∀ id c, p.Rests id c → c.Fills h → c.stack.Filled

theorem start_filled (rows : List (List Trigger × List (Cell ι))) (state : ε) :
    (start (rows.map fun r => .ofCells r.1 r.2) state).Filled h := by
  intro id c hc _
  obtain ⟨r, -, rfl⟩ := start_rests hc
  exact Stack.filled_empty

theorem record_filled (hp : p.Filled h) {id : ChainId} {c d : Chain ι} (hc : p.Rests id c)
    (hcells : d.cells = c.cells) (hd : c.Fills h → d.stack.Filled) (state : ε)
    (rejections : List Rejection) (firings : List Firing) :
    (p.record id d state rejections firings).Filled h := by
  intro a b hb hfills
  by_cases ha : a = id
  · subst ha
    obtain rfl : d = b := by
      have := (record_rests hc d state rejections firings).symm.trans hb
      injection this with this
      injection this
    apply hd
    unfold Chain.Fills at hfills ⊢
    rwa [hcells] at hfills
  · exact hp a b ((record_slot_of_ne p ha d state rejections firings).symm.trans hb) hfills

theorem fire_filled (hp : p.Filled h) (ho : p.Holds Orderly) (id : ChainId) (event : Event)
    (ctx : Context) : (p.fire h id event ctx).Filled h := by
  rcases ho id with ⟨c, hc, -⟩ | ⟨hn, -⟩
  · rw [fire_eq h hc]
    exact record_filled hp hc (launch_cells ..) (fun hfills => (c.launch_filled hfills ..).2) _ _ _
  · have hchain : p.stage.chain? id = none := by simp [Stage.chain?, hn]
    unfold fire
    simpa only [hchain] using hp

theorem poll_filled (hp : p.Filled h) (ho : p.Holds Orderly) (id : ChainId) (n : Nat) :
    (p.poll h id n).Filled h := by
  rcases ho id with ⟨c, hc, hfs⟩ | ⟨-, hnone⟩
  · cases hf : (p.firings id)[n]? with
    | none => simpa only [poll, hf] using hp
    | some f =>
      cases hr : f.rest? with
      | none => simpa only [poll, hf, hc.chain, hr] using hp
      | some rest =>
        have hhome := (hfs f (List.mem_of_getElem? hf)).home rest hr
        rw [poll_eq h hc hf hr hhome]
        refine record_filled hp hc (proceed_cells ..) ?_ _ _ _
        intro hfills
        exact (Chain.proceed_filled hfills (hp id c hc hfills) rest _).2
  · simpa only [poll, hnone, List.getElem?_nil] using hp

theorem rebind_filled (hp : p.Filled h) (id : ChainId) (initial : Option Value) :
    (p.rebind id initial).Filled h := by
  unfold rebind
  split
  · exact hp
  · next c _ =>
    intro a b hb hfills
    rcases Nat.lt_trichotomy a.index p.stage.slots.length with hlt | heq | hgt
    · exact hp a b ((List.getElem?_append_left hlt).symm.trans hb) hfills
    · -- the copy has a stack of its own, on which there is nothing yet
      obtain rfl : c.rebind initial = b := by simpa [Rests, Stage.addChain, heq] using hb
      exact Stack.filled_empty
    · have := (List.getElem?_eq_some_iff.mp hb).1
      simp only [Stage.addChain, List.length_append, List.length_singleton] at this
      omega

theorem step_filled (hp : p.Filled h) (ho : p.Holds Orderly) (m : Move ε) :
    (p.step h m).Filled h := by
  have hp' : (p.withState m.state).Filled h := hp
  have ho' := withState_holds ho m.state
  unfold step
  cases m.act with
  | fire id event ctx => exact fire_filled hp' ho' id event ctx
  | poll id n => exact poll_filled hp' ho' id n
  | rebind id initial => exact rebind_filled hp' id initial

theorem play_filled (hp : p.Filled h) (ho : p.Holds Orderly) (moves : List (Move ε)) :
    (p.play h moves).Filled h := by
  induction moves generalizing p with
  | nil => exact hp
  | cons m moves ih => exact ih (step_filled hp ho m) (step_holds orderly_kept ho m)

end Course

def Cell.placesNil (cell : Cell Kit) : Bool :=
  match cell.op with
  | .call i => i.action = .access (.control .nil)
  | _ => false

theorem Cell.fills_of_placesNil {cell : Cell Kit} (hcell : cell.placesNil = false)
    (settings : Settings) : cell.Fills (Stage.host settings : Host Kit (Stage Kit ε)) := by
  intro body arity hop args ctx s state hs
  have hbody : body ≠ .control .nil := by
    rintro rfl
    rw [placesNil, hop] at hcell
    simp at hcell
  exact body.fills_iff.mpr hbody args ctx s state.document hs

/-- Only the instruction for placeholders puts them into a buffer. Whatever is done with the chains
on a stage, with any number of firings suspended, a chain that has no cell for it rests with a
buffer that has none; and so each cell that one of its firings invokes, from the head or behind a
promise, finds the buffer, sees it in its instruction and leaves it behind, whatever the event, the
initial value and the state of the world are. -/
theorem only_nil_places_placeholders (settings : Settings)
    (rows : List (List Trigger × List (Cell Kit))) (state : Stage Kit ε)
    (moves : List (Move (Stage Kit ε))) (id : ChainId) (c : Chain Kit)
    (hc : ((Course.start (rows.map fun r => .ofCells r.1 r.2) state).play (Stage.host settings)
      moves).stage.chain? id = some c)
    (hcells : ∀ cell ∈ c.cells, cell.placesNil = false) :
    let h : Host Kit (Stage Kit ε) := Stage.host settings
    c.stack.Filled ∧
    (∀ event ctx state,
      (c.launchInvocations h event ctx state).map Cell.Invocation.place =
        (c.launch h id event ctx state).visits.map Visit.place ∧
      ∀ x ∈ c.launchInvocations h event ctx state, x.Filled h) ∧
    (∀ suspended state,
      (c.proceedInvocations h suspended state).map Cell.Invocation.place =
        (c.proceed h suspended state).visits.map Visit.place ∧
      ∀ x ∈ c.proceedInvocations h suspended state, x.Filled h) ∧
    ∀ k : Kit, (∀ args ctx s d, s.Filled → (k.perform args ctx s d).2.2.1.Filled) ↔
      k ≠ .control .nil := by
  intro h
  have ho : (Course.start (rows.map fun r => Chain.ofCells r.1 r.2) state).Holds Orderly :=
    Course.start_holds _ _
  have hrests := Course.rests_of_chain (Course.play_holds Course.orderly_kept ho moves) hc
  have hfills : c.Fills h := fun cell hcell =>
    Cell.fills_of_placesNil (hcells cell hcell) settings
  have hstack : c.stack.Filled :=
    Course.play_filled (Course.start_filled rows state) ho moves id c hrests hfills
  refine ⟨hstack, ?_, ?_, fun k => k.fills_iff⟩
  · intro event ctx state
    exact ⟨c.launch_places h id event ctx state, (Chain.launch_filled hfills id ..).1⟩
  · intro suspended state
    exact ⟨c.proceed_places h suspended state, (Chain.proceed_filled hfills hstack ..).1⟩

/-- A chain that sets two placeholders aside and hands one to an instruction that comes late with it,
so that it is the incoming value of the last cell. -/
def relaying : List (Cell Kit) :=
  [.call (.access (.control .push) (some .all)) ⟨"push", [.nil, .text "low"], none⟩,
    .call (.access (.control .index) none) ⟨"index", [.int 7, .int (-7)], none⟩,
    .call (.plain (.compute .defer) (some (.optional 1))) ⟨"defer", [], none⟩,
    .call (.access (.control .dup) none) ⟨"dup", [.int 2], none⟩]

def relayingMoves : List (Move (Stage Kit Unit)) :=
  [⟨.empty (), .fire ⟨0⟩ (.fresh "click" ⟨0⟩ none) .blank⟩, ⟨.empty (), .poll ⟨0⟩ 0⟩]

theorem relaying_filled :
    ∃ c, ((Course.start [.ofCells [] relaying] (.empty ())).play (Stage.host .standard)
        relayingMoves).stage.chain? ⟨0⟩ = some c ∧
      c.stack.Filled ∧ c.stack = ⟨List.replicate 3 (.text "low"), [.nil]⟩ := by
  refine ⟨_, rfl, ?_, rfl⟩
  exact (only_nil_places_placeholders .standard [([], relaying)] (.empty ()) relayingMoves ⟨0⟩ _
    rfl (by decide)).1

end AttrChain
