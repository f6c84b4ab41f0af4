import AttrChain.Kit.Host
import AttrChain.Proofs.Conservation
import AttrChain.Proofs.Links
import AttrChain.Proofs.Results
import AttrChain.Stage.Build

/-!
Packing the top of the stack into a list and unpacking it again. The list travels from one cell to
the next as its value, and there it is taken as data or as live arguments; either way its items come
back in their order, without placeholders.
-/

namespace AttrChain

variable {ε σ : Type}

namespace Stack

/-- The buffer with the placeholders left out among its last `n` values, or among all there are. -/
def sieved (n : Nat) (s : Stack) : List Value :=
  let m := min n s.buffer.length
  s.buffer.take (s.buffer.length - m) ++
    (s.buffer.drop (s.buffer.length - m)).filter (!·.isNil)

theorem bottom_append_filter_top (n : Nat) (s : Stack) :
    s.bottom n ++ (s.top n).filter (!·.isNil) = s.sieved n := by
  have hplace : s.buffer.length - min n s.buffer.length = s.buffer.length - n := by omega
  rw [sieved, hplace]
  rfl

/-- No placeholder is in the buffer itself; lists in it may hold some. -/
def Filled (s : Stack) : Prop := ∀ v ∈ s.buffer, v.isNil = false

theorem sieved_eq_buffer {s : Stack} (h : s.Filled) (n : Nat) :
    s.sieved n = s.buffer := by
  have htop : (s.top n).filter (!·.isNil) = s.top n := by
    rw [List.filter_eq_self]
    intro v hv
    rw [h v (List.mem_of_mem_drop hv)]
    rfl
  rw [← bottom_append_filter_top, htop, bottom_append_top]

theorem push_nil (s : Stack) : s.push [] = s := by
  simp [push]

end Stack

theorem Stage.performKit_control {c : Control} (hc : c ≠ .debug) (args : List Value)
    (ctx : Context) (stack : Stack) (s : Stage Kit ε) :
    s.performKit (.control c) args ctx stack =
      ((c.perform args ctx stack).1, (c.perform args ctx stack).2.1,
        (c.perform args ctx stack).2.2, s) := by
  have hlog : c.entries args ctx stack = [] := by
    cases c with
    | debug => exact absurd rfl hc
    | _ => rfl
  simp only [Stage.performKit, Kit.perform, hlog, List.append_nil]

def Frame.holding (stack : Stack) (f : Frame σ) : Frame σ :=
  { f with ctx := { f.ctx with data := none }, stack }

def Control.cell (c : Control) (arity : Option Arity) (called : Call) : Cell Kit :=
  .call (.access (.control c) arity) called

section Turns

variable {settings : Settings} {f : Frame (Stage Kit ε)}

theorem Control.invoke_cell {c : Control} (hc : c ≠ .debug) {arity : Option Arity} {called : Call}
    {i : Nat} {incoming : Option Value} {args : List Value} {g : Frame (Stage Kit ε)}
    (hprepare : (c.cell arity called).prepare incoming f = (args, g)) :
    (c.cell arity called).invoke (Stage.host settings) i incoming f =
      ((c.perform args g.ctx g.stack).1,
        { g with
          ctx := (c.perform args g.ctx g.stack).2.1
          stack := (c.perform args g.ctx g.stack).2.2 }) := by
  have hperform := Stage.performKit_control hc args g.ctx g.stack g.host
  rw [Cell.invoke_eq, Cell.result_of_not_isUpdate rfl, hprepare]
  simp only [Cell.perform, Control.cell, Cell.call, Instruction.access, Stage.host, hperform]

def packing (n : Int64) : Call := ⟨"pack", [.int n], none⟩

def spreading : Call := ⟨"spread", [], none⟩

/-- The call that pushes the last `k` values; for 0, the last value spread out. -/
def pushing (k : Nat) : Call := ⟨"push", [], some k⟩

theorem pack_turn (n : Int64) (i : Nat) :
    (Control.pack.cell none (packing n)).invoke (Stage.host settings) i none f =
      (.ok (.value (.list (f.stack.top n.toInt.toNat))),
        f.holding (f.stack.popMany n.toInt.toNat).2) := by
  have hprepare : (Control.pack.cell none (packing n)).prepare none f =
      ([.int n], f.holding f.stack) := by
    change ([Value.int n], f.holding (f.stack.push [])) = _
    rw [Stack.push_nil]
  exact Control.invoke_cell (by decide) hprepare

theorem spread_turn (hstaging : f.stack.staging = []) (items : List Value) (i : Nat) :
    (Control.spread.cell (some (.take 1)) spreading).invoke (Stage.host settings) i
        (some (.list items)) f =
      (.ok .nothing, f.holding (f.stack.push items)) := by
  obtain ⟨ctx, ⟨buffer, staging⟩, cuts, s⟩ := f
  obtain rfl : staging = [] := hstaging
  have hprepare : (Control.spread.cell (some (.take 1)) spreading).prepare (some (.list items))
      ⟨ctx, ⟨buffer, []⟩, cuts, s⟩ =
        ([], ⟨{ ctx with data := some (.list items) }, ⟨buffer, []⟩, cuts, s⟩) := by
    simp [Cell.prepare, Control.cell, Cell.call, spreading, Cell.arguments, Cell.takeData,
      Instruction.access, Arity.count, Stack.push, Stack.draw, Stack.pop, Value.isNil,
      Value.filled?]
  exact Control.invoke_cell (by decide) hprepare

theorem push_list_turn (hstaging : f.stack.staging = []) (items : List Value) (i : Nat) :
    (Control.push.cell (some .all) (pushing 0)).invoke (Stage.host settings) i
        (some (.list items)) f =
      (.ok .nothing, f.holding (f.stack.push items)) := by
  obtain ⟨ctx, ⟨buffer, staging⟩, cuts, s⟩ := f
  obtain rfl : staging = [] := hstaging
  have hprepare : (Control.push.cell (some .all) (pushing 0)).prepare (some (.list items))
      ⟨ctx, ⟨buffer, []⟩, cuts, s⟩ =
        (items, ⟨{ ctx with data := none }, ⟨buffer, []⟩, cuts, s⟩) := by
    simp [Cell.prepare, Control.cell, Cell.call, pushing, Cell.arguments, Cell.takeData,
      Instruction.access, Arity.count, Stack.push, Stack.draw, Stack.pop, Value.isNil]
  rw [Control.invoke_cell (by decide) hprepare]
  simp [Control.perform, Frame.holding]

theorem push_top_turn (hstaging : f.stack.staging = []) {k : Nat} (hk : 1 ≤ k) (i : Nat) :
    (Control.push.cell (some .all) (pushing k)).invoke (Stage.host settings) i none f =
      (.ok .nothing,
        f.holding ((f.stack.popMany k).2.push (f.stack.top k))) := by
  obtain ⟨k, rfl⟩ : ∃ m, k = m + 1 := ⟨k - 1, by omega⟩
  obtain ⟨ctx, ⟨buffer, staging⟩, cuts, s⟩ := f
  obtain rfl : staging = [] := hstaging
  have hprepare : (Control.push.cell (some .all) (pushing (k + 1))).prepare none
      ⟨ctx, ⟨buffer, []⟩, cuts, s⟩ =
        (Stack.top (k + 1) ⟨buffer, []⟩,
          ⟨{ ctx with data := none }, ⟨Stack.bottom (k + 1) ⟨buffer, []⟩, []⟩, cuts, s⟩) := by
    simp [Cell.prepare, Control.cell, Cell.call, pushing, Cell.arguments, Cell.takeData,
      Instruction.access, Arity.count, Stack.push, Stack.draw, Stack.popMany_eq]
  rw [Control.invoke_cell (by decide) hprepare]
  simp [Control.perform, Frame.holding, Stack.popMany_eq]

end Turns

section Runs

variable {ι : Type} {h : Host ι σ}

/-- The cells from place `i` on take a run along: from a value and a frame to a value and a frame
with which it goes on behind them. -/
def Carry (h : Host ι σ) (i : Nat) (cells : List (Cell ι)) (value : Option Value) (f : Frame σ)
    (value' : Option Value) (g : Frame σ) : Prop :=
  ∀ look rest, Chain.run h look i (cells ++ rest) value f =
    Chain.run h look (i + cells.length) rest value' g

theorem Carry.nil (h : Host ι σ) (i : Nat) (value : Option Value) (f : Frame σ) :
    Carry h i [] value f value f :=
  fun _ _ => rfl

theorem Carry.cons {i : Nat} {cell : Cell ι} {cells : List (Cell ι)}
    {value next last : Option Value} {f g k : Frame σ}
    (hcell : cell.invoke h i value f = (.ok (.done next), g)) (hlink : i ∉ g.cuts)
    (hcells : Carry h (i + 1) cells next g last k) :
    Carry h i (cell :: cells) value f last k := by
  intro look rest
  rw [List.cons_append, Chain.run, hcell]
  simp only [hlink, not_false_eq_true, ↓reduceIte]
  rw [hcells look rest, List.length_cons, Nat.add_assoc, Nat.add_comm 1]

end Runs

section Tables

variable {tables : Tables Kit} {phase : Phase}

theorem Kit.table_eq (htables : Kit.tables = .ok tables) (hphase : phase ≠ .update) :
    tables.table phase = Kit.callTable.2 := by
  unfold Kit.tables at htables
  split at htables
  · cases htables
  next calls hcalls =>
    cases htables
    rw [hcalls]
    cases phase with
    | update => exact absurd rfl hphase
    | _ => rfl

theorem Kit.callCell_control (htables : Kit.tables = .ok tables) (settings : Settings)
    (hphase : phase ≠ .update) {called : Call} {c : Control} {arity : Option Arity}
    (hfound : Kit.callTable.2.get? called.name = some (.access (.control c) arity)) :
    (⟨tables, settings⟩ : Builder Kit).callCell phase called = .ok (c.cell arity called) := by
  rw [Builder.callCell, Tables.resolve, Kit.table_eq htables hphase, hfound]
  rfl

end Tables

/-- Calls that take values off the top of the stack and put them back, and the number of values that
they take, if there are as many. -/
inductive Regains : List Call → Nat → Prop where
  | spread (n : Int64) : Regains [packing n, spreading] n.toInt.toNat
  | push (n : Int64) : Regains [packing n, pushing 0] n.toInt.toNat
  | top {k : Nat} : 1 ≤ k → Regains [pushing k] k

theorem Frame.holding_regained {f : Frame σ} (hstaging : f.stack.staging = []) (m : Nat) :
    f.holding ((f.stack.popMany m).2.push (f.stack.top m)) =
      f.holding ⟨f.stack.sieved m, []⟩ := by
  rw [← Stack.bottom_append_filter_top, ← hstaging]
  rfl

section Pairs

variable {settings : Settings} {f : Frame (Stage Kit ε)} {i : Nat}

theorem carry_packed (hstaging : f.stack.staging = [])
    (hlinks : ∀ j, i ≤ j → j < i + 2 → j ∉ f.cuts) (n : Int64) {cell : Cell Kit}
    (hcell : ∀ g : Frame (Stage Kit ε), g.stack.staging = [] → ∀ items,
      cell.invoke (Stage.host settings) (i + 1) (some (.list items)) g =
        (.ok .nothing, g.holding (g.stack.push items))) :
    Carry (Stage.host settings) i [Control.pack.cell none (packing n), cell] none f none
      (f.holding ⟨f.stack.sieved n.toInt.toNat, []⟩) := by
  have hfirst : i ∉ f.cuts := hlinks i (by omega) (by omega)
  have hsecond : i + 1 ∉ f.cuts := hlinks (i + 1) (by omega) (by omega)
  have hpacked : (Control.pack.cell none (packing n)).invoke (Stage.host settings) i none f =
      (.ok (.value (.list (f.stack.top n.toInt.toNat))),
        f.holding (f.stack.popMany n.toInt.toNat).2) := pack_turn n i
  have hregained := Frame.holding_regained hstaging n.toInt.toNat
  -- from here on the count is any number of values
  generalize n.toInt.toNat = m at hpacked hregained ⊢
  have hunpacked : cell.invoke (Stage.host settings) (i + 1) (some (.list (f.stack.top m)))
      (f.holding (f.stack.popMany m).2) =
        (.ok .nothing, f.holding ((f.stack.popMany m).2.push (f.stack.top m))) :=
    hcell (f.holding (f.stack.popMany m).2) hstaging (f.stack.top m)
  rw [← hregained]
  exact Carry.cons hpacked hfirst (Carry.cons hunpacked hsecond (Carry.nil _ _ _ _))

end Pairs

/-- To pack the top of the stack and to spread the list, or to push it as live arguments, is to drop
the placeholders from the values taken, and the same goes for pushing them as live arguments at
once: all else stays in its place, nothing is set aside, and no value is handed on. Without
placeholders the buffer is as before. -/
theorem repacking_sieves {tables : Tables Kit} (htables : Kit.tables = .ok tables)
    (settings : Settings) {phase : Phase} (hphase : phase ≠ .update) {calls : List Call} {m : Nat}
    (hcalls : Regains calls m) :
    (∃ cells, calls.mapM ((⟨tables, settings⟩ : Builder Kit).callCell phase) = .ok cells ∧
      ∀ (i : Nat) (f : Frame (Stage Kit ε)), f.stack.staging = [] →
        (∀ j, i ≤ j → j < i + cells.length → j ∉ f.cuts) →
        Carry (Stage.host settings) i cells none f none (f.holding ⟨f.stack.sieved m, []⟩)) ∧
    ∀ s : Stack, s.Filled → s.sieved m = s.buffer := by
  refine ⟨?_, fun s hs => s.sieved_eq_buffer hs m⟩
  have hpack (n : Int64) : (⟨tables, settings⟩ : Builder Kit).callCell phase (packing n) =
      .ok (Control.pack.cell none (packing n)) :=
    Kit.callCell_control htables settings hphase
      (show Kit.callTable.2.get? "pack" = _ by decide +kernel)
  have hspread : (⟨tables, settings⟩ : Builder Kit).callCell phase spreading =
      .ok (Control.spread.cell (some (.take 1)) spreading) :=
    Kit.callCell_control htables settings hphase
      (show Kit.callTable.2.get? "spread" = _ by decide +kernel)
  have hpush (k : Nat) : (⟨tables, settings⟩ : Builder Kit).callCell phase (pushing k) =
      .ok (Control.push.cell (some .all) (pushing k)) :=
    Kit.callCell_control htables settings hphase
      (show Kit.callTable.2.get? "push" = _ by decide +kernel)
  cases hcalls with
  | spread n =>
    refine ⟨[Control.pack.cell none (packing n),
      Control.spread.cell (some (.take 1)) spreading], ?_, ?_⟩
    · rw [List.mapM_cons, List.mapM_cons, hpack n, hspread]
      rfl
    · intro i f hstaging hlinks
      exact carry_packed hstaging hlinks n fun g hg items => spread_turn hg items (i + 1)
  | push n =>
    refine ⟨[Control.pack.cell none (packing n), Control.push.cell (some .all) (pushing 0)], ?_, ?_⟩
    · rw [List.mapM_cons, List.mapM_cons, hpack n, hpush 0]
      rfl
    · intro i f hstaging hlinks
      exact carry_packed hstaging hlinks n fun g hg items => push_list_turn hg items (i + 1)
  | top hk =>
    refine ⟨[Control.push.cell (some .all) (pushing m)], ?_, ?_⟩
    · rw [List.mapM_cons, hpush m]
      rfl
    · intro i f hstaging hlinks
      have hlink : i ∉ f.cuts := hlinks i (by omega) (by simp)
      rw [← Frame.holding_regained hstaging]
      exact Carry.cons (push_top_turn hstaging hk i) hlink (Carry.nil _ _ _ _)

def fourHeld : Frame (Stage Kit Unit) :=
  ⟨.blank, ⟨[.text "low", .bool true, .nil, .null], []⟩, [], .empty ()⟩

theorem fourHeld_repacked : ∃ tables, Kit.tables = .ok tables ∧ ∃ cells,
    [packing 3, spreading].mapM ((⟨tables, .standard⟩ : Builder Kit).callCell .by) = .ok cells ∧
      Chain.run (Stage.host .standard) (fun _ _ => none) 0 cells none fourHeld =
        (.done none, fourHeld.holding ⟨[.text "low", .bool true, .null], []⟩) := by
  have hassembled : Kit.tables.toOption.isSome = true := by decide +kernel
  obtain ⟨tables, htables⟩ := Option.isSome_iff_exists.mp hassembled
  have htables := ok_of_toOption htables
  obtain ⟨⟨cells, hcells, hcarry⟩, -⟩ :=
    repacking_sieves (ε := Unit) htables .standard (show Phase.by ≠ .update by decide) (.spread 3)
  refine ⟨tables, htables, cells, hcells, ?_⟩
  have hrun := hcarry 0 fourHeld rfl (fun _ _ _ => List.not_mem_nil) (fun _ _ => none) []
  rw [List.append_nil] at hrun
  exact hrun

end AttrChain
