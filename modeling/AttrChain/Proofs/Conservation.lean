import AttrChain.Stack
import Mathlib.Data.List.Basic

/-!
The values on a stack are conserved: what enters it is on it or was handed out, and every operation
cuts pieces off its ends and appends pieces to them.
-/

namespace AttrChain

namespace Stack

/-- What may be asked of a stack, but to start anew. -/
inductive Operation where
  | push (values : List Value)
  | pushNil
  | pop
  | popMany (n : Nat)
  | top (n : Nat)
  | slice (first : Int) (last : Option Int)
  | stageTop
  | stageTopMany (n : Nat)
  | stageBottom
  | stageBottomMany (n : Nat)
  | stageCopies (indices : List Int)
  | draw (n : Int)

/-- What operations do: the values that enter, those that are handed out and no longer held, and the
stack that is left. -/
structure Effect where
  entered : List Value
  delivered : List Value
  after : Stack

/-- The values that a request hands out: its result as it is for a count of size one, and when a
request for all finds one value set aside; else the items of its result. -/
def drawn (n : Int) (s : Stack) : List Value :=
  match (s.draw n).1 with
  | none => []
  | some v =>
    if n.natAbs = 1 ∨ (n = 0 ∧ s.staging.length = 1) then [v]
    else match v with
      | .list items => items
      | _ => []

/-- What an operation does. Copies that are set aside enter the stack. -/
def Operation.on (s : Stack) : Operation → Effect
  | push values => ⟨values, [], s.push values⟩
  | pushNil => ⟨[], [], s.pushNil⟩
  | pop => ⟨[], s.pop.1.toList, s.pop.2⟩
  | popMany n => ⟨[], (s.popMany n).1, (s.popMany n).2⟩
  | top _ | slice _ _ => ⟨[], [], s⟩
  | stageTop => ⟨[], [], s.stageTop⟩
  | stageTopMany n => ⟨[], [], s.stageTopMany n⟩
  | stageBottom => ⟨[], [], s.stageBottom⟩
  | stageBottomMany n => ⟨[], [], s.stageBottomMany n⟩
  | stageCopies indices =>
    ⟨indices.map fun i => (s.get? i).getD .nil, [], s.stageCopies indices⟩
  | draw n => ⟨[], s.drawn n, (s.draw n).2⟩

def runAll (s : Stack) : List Operation → Effect
  | [] => ⟨[], [], s⟩
  | o :: rest =>
    let first := o.on s
    let later := first.after.runAll rest
    ⟨first.entered ++ later.entered, first.delivered ++ later.delivered, later.after⟩

/-- Pieces that are cut off the ends of the buffer and off the front of the staging queue, and
pieces that are appended to both. -/
structure Pieces where
  bottom : List Value := []
  top : List Value := []
  front : List Value := []
  pushed : List Value := []
  staged : List Value := []

/-- From the first stack to the second one the pieces are cut off and appended, and all else stays
as it is. -/
def Pieces.Lead (p : Pieces) (s t : Stack) : Prop :=
  ∃ buffer staging,
    s.buffer = p.bottom ++ buffer ++ p.top ∧ t.buffer = buffer ++ p.pushed ∧
    s.staging = p.front ++ staging ∧ t.staging = staging ++ p.staged

def Operation.pieces (s : Stack) : Operation → Pieces
  | push values => { pushed := values.filter (!·.isNil) }
  | pushNil => { pushed := [.nil] }
  | pop => { top := s.top 1 }
  | popMany n => { top := s.top n }
  | top _ | slice _ _ => {}
  | stageTop => { top := s.top 1, staged := if s.buffer = [] then [.nil] else s.top 1 }
  | stageTopMany n => if 1 < n then { top := s.top n, staged := s.top n } else {}
  | stageBottom =>
    { bottom := s.buffer.take 1, staged := if s.buffer = [] then [.nil] else s.buffer.take 1 }
  | stageBottomMany n =>
    if 1 < n then { bottom := s.buffer.take n, staged := s.buffer.take n } else {}
  | stageCopies indices => { staged := indices.map fun i => (s.get? i).getD .nil }
  | draw n =>
    if n = 0 then { front := s.staging }
    else if s.staging = [] then { top := s.top n.toNat }
    else { front := s.staging.take n.natAbs }

section Cutting

def bottom (n : Nat) (s : Stack) : List Value := s.buffer.take (s.buffer.length - n)

theorem bottom_append_top (n : Nat) (s : Stack) : s.bottom n ++ s.top n = s.buffer :=
  List.take_append_drop _ _

theorem popMany_eq (n : Nat) (s : Stack) :
    s.popMany n = (s.top n, { s with buffer := s.bottom n }) :=
  rfl

theorem pop_eq (s : Stack) :
    s.pop.1.toList = s.top 1 ∧ s.pop.2 = { s with buffer := s.bottom 1 } := by
  constructor
  · rcases List.eq_nil_or_concat' s.buffer with h | ⟨rest, last, h⟩ <;> simp [pop, top, h]
  · rw [pop, List.dropLast_eq_take, bottom]

theorem stageTop_eq (s : Stack) :
    s.stageTop = ⟨s.bottom 1, s.staging ++ if s.buffer = [] then [.nil] else s.top 1⟩ := by
  rcases List.eq_nil_or_concat' s.buffer with h | ⟨rest, last, h⟩ <;>
    simp [stageTop, pop, stage, top, bottom, h]

theorem stageBottom_eq (s : Stack) :
    s.stageBottom =
      ⟨s.buffer.drop 1, s.staging ++ if s.buffer = [] then [.nil] else s.buffer.take 1⟩ := by
  rw [stageBottom]
  cases h : s.buffer <;> simp [stage]

theorem draw_after (n : Int) (s : Stack) :
    (s.draw n).2 =
      if n = 0 then { s with staging := [] }
      else if s.staging = [] then { s with buffer := s.bottom n.toNat }
      else { s with staging := s.staging.drop n.natAbs } := by
  obtain ⟨buffer, staging⟩ := s
  unfold draw
  by_cases hn : n = 0
  · rw [if_pos hn, if_pos hn]
    match staging with
    | [] | [_] | _ :: _ :: _ => rfl
  rw [if_neg hn, if_neg hn]
  cases staging with
  | nil =>
    simp only [↓reduceIte]
    by_cases hone : n = 1
    · simp [hone, pop_eq]
    rw [if_neg hone]
    split
    · rfl
    · have hzero : n.toNat = 0 := by omega
      simp [hzero, bottom]
  | cons v rest =>
    simp only [reduceCtorEq, ↓reduceIte]
    split
    next hone => simp [hone]
    next => rfl

/-- A request hands out what it takes, where a placeholder alone is told as nothing. -/
theorem drawn_filter (n : Int) (s : Stack) :
    (s.drawn n).filter (!·.isNil) =
      (if n = 0 then s.staging
        else if s.staging = [] then s.top n.toNat
        else s.staging.take n.natAbs).filter (!·.isNil) := by
  obtain ⟨buffer, staging⟩ := s
  by_cases hn : n = 0
  · subst hn
    match staging with
    | [] => rfl
    | [v] => cases v <;> rfl
    | _ :: _ :: _ => simp [drawn, draw]
  rw [if_neg hn]
  cases staging with
  | nil =>
    by_cases hone : n = 1
    · subst hone
      rcases List.eq_nil_or_concat' buffer with rfl | ⟨rest, last, rfl⟩
      · rfl
      · cases last <;> simp [drawn, draw, pop, top, Value.filled?, Value.isNil]
    by_cases hmany : 1 < n
    · have habs : n.natAbs ≠ 1 := by omega
      simp [drawn, draw, hn, hone, hmany, habs, popMany_eq]
    · have hzero : n.toNat = 0 := by omega
      simp [drawn, draw, hn, hone, hmany, hzero, top]
  | cons v rest =>
    by_cases hone : n.natAbs = 1
    · cases v <;> simp [drawn, draw, hn, hone, Value.filled?, Value.isNil]
    · simp [drawn, draw, hn, hone]

theorem Operation.lead (s : Stack) (o : Operation) : (o.pieces s).Lead s (o.on s).after := by
  cases o with
  | push values => exact ⟨s.buffer, s.staging, by simp [pieces, on, Stack.push]⟩
  | pushNil => exact ⟨s.buffer, s.staging, by simp [pieces, on, Stack.pushNil]⟩
  | pop => exact ⟨s.bottom 1, s.staging, by simp [pieces, on, pop_eq, bottom_append_top]⟩
  | popMany n =>
    exact ⟨s.bottom n, s.staging, by simp [pieces, on, popMany_eq, bottom_append_top]⟩
  | top n => exact ⟨s.buffer, s.staging, by simp [pieces, on]⟩
  | slice first last => exact ⟨s.buffer, s.staging, by simp [pieces, on]⟩
  | stageTop => exact ⟨s.bottom 1, s.staging, by simp [pieces, on, stageTop_eq, bottom_append_top]⟩
  | stageTopMany n =>
    by_cases hn : 1 < n
    · exact ⟨s.bottom n, s.staging, by
        simp [pieces, on, Stack.stageTopMany, hn, stage, popMany_eq, bottom_append_top]⟩
    · exact ⟨s.buffer, s.staging, by simp [pieces, on, Stack.stageTopMany, hn]⟩
  | stageBottom => exact ⟨s.buffer.drop 1, s.staging, by
    simp [pieces, on, stageBottom_eq, -List.drop_one]⟩
  | stageBottomMany n =>
    by_cases hn : 1 < n
    · exact ⟨s.buffer.drop n, s.staging, by simp [pieces, on, Stack.stageBottomMany, hn, stage]⟩
    · exact ⟨s.buffer, s.staging, by simp [pieces, on, Stack.stageBottomMany, hn]⟩
  | stageCopies indices =>
    exact ⟨s.buffer, s.staging, by simp [pieces, on, Stack.stageCopies, stage]⟩
  | draw n =>
    simp only [pieces, on, draw_after]
    split
    · exact ⟨s.buffer, [], by simp⟩
    split
    · exact ⟨s.bottom n.toNat, s.staging, by simp [bottom_append_top]⟩
    · exact ⟨s.buffer, s.staging.drop n.natAbs, by simp⟩

end Cutting

section Counting

variable {k : Value → Bool}

def held (k : Value → Bool) (s : Stack) : Nat := s.buffer.countP k + s.staging.countP k

/-- Apart from placeholders, what is appended and handed out is what is cut off and enters. -/
theorem Operation.balance (s : Stack) (o : Operation) :
    ((o.pieces s).pushed ++ (o.pieces s).staged ++ (o.on s).delivered).filter (!·.isNil) =
      ((o.pieces s).bottom ++ (o.pieces s).top ++ (o.pieces s).front ++
        (o.on s).entered).filter (!·.isNil) := by
  cases o with
  | push values => simp [pieces, on]
  | pushNil => simp [pieces, on, Value.isNil]
  | pop => simp [pieces, on, pop_eq]
  | popMany n => simp [pieces, on, popMany_eq]
  | top n => simp [pieces, on]
  | slice first last => simp [pieces, on]
  | stageTop => by_cases hs : s.buffer = [] <;> simp [pieces, on, hs, Stack.top, Value.isNil]
  | stageTopMany n => by_cases hn : 1 < n <;> simp [pieces, on, hn]
  | stageBottom => by_cases hs : s.buffer = [] <;> simp [pieces, on, hs, Value.isNil]
  | stageBottomMany n => by_cases hn : 1 < n <;> simp [pieces, on, hn]
  | stageCopies indices => simp [pieces, on]
  | draw n =>
    have hdrawn := drawn_filter n s
    simp only [pieces, on]
    split
    next hn => simpa [hn] using hdrawn
    next hn =>
      split
      next hs => simpa [hn, hs] using hdrawn
      next hs => simpa [hn, hs] using hdrawn

theorem countP_filter_filled (hk : k .nil = false) (values : List Value) :
    (values.filter (!·.isNil)).countP k = values.countP k := by
  rw [List.countP_filter]
  congr 1
  funext v
  cases v <;> simp [Value.isNil, hk]

theorem Operation.conserves (hk : k .nil = false) (s : Stack) (o : Operation) :
    s.held k + (o.on s).entered.countP k =
      (o.on s).after.held k + (o.on s).delivered.countP k := by
  obtain ⟨buffer, staging, hbuffer, hbuffer', hstaging, hstaging'⟩ := o.lead s
  have hbalance := congrArg (List.countP k) (o.balance s)
  simp only [countP_filter_filled hk, List.countP_append] at hbalance
  simp only [held, hbuffer, hbuffer', hstaging, hstaging', List.countP_append]
  omega

theorem runAll_conserves (hk : k .nil = false) (s : Stack) (ops : List Operation) :
    s.held k + (s.runAll ops).entered.countP k =
      (s.runAll ops).after.held k + (s.runAll ops).delivered.countP k := by
  induction ops generalizing s with
  | nil => rfl
  | cons o rest ih =>
    have hfirst := o.conserves hk s
    have hlater := ih (o.on s).after
    simp only [runAll, List.countP_append]
    omega

end Counting

/-- A stack neither loses nor doubles nor reorders values. Of those that have entered an empty
stack, placeholders apart, each is in the buffer, is set aside, or was handed out; this is so for
the values that are the same as a given one, and for values of any kind. An operation cuts pieces
off the ends of the buffer and off the front of the queue and appends pieces behind, and what it
cuts off and lets in is what it appends and hands out, in this order. A request leaves the buffer
alone if values are set aside, or if its count is not positive. -/
theorem values_conserved :
    (∀ (operations : List Operation) (x : Value), x.isNil = false →
      let run := empty.runAll operations
      run.entered.count x =
        run.after.buffer.count x + run.after.staging.count x + run.delivered.count x) ∧
    (∀ (operations : List Operation) (k : Value → Bool), k .nil = false →
      let run := empty.runAll operations
      run.entered.countP k =
        run.after.buffer.countP k + run.after.staging.countP k + run.delivered.countP k) ∧
    (∀ (s : Stack) (o : Operation),
      let p := o.pieces s
      let run := o.on s
      p.Lead s run.after ∧
        (p.pushed ++ p.staged ++ run.delivered).filter (!·.isNil) =
          (p.bottom ++ p.top ++ p.front ++ run.entered).filter (!·.isNil)) ∧
    ∀ (s : Stack) (n : Int), (n ≠ 0 ∧ s.staging ≠ []) ∨ n ≤ 0 →
      (s.draw n).2.buffer = s.buffer := by
  have hkinds : ∀ (operations : List Operation) (k : Value → Bool), k .nil = false →
      (empty.runAll operations).entered.countP k =
        (empty.runAll operations).after.held k + (empty.runAll operations).delivered.countP k := by
    intro operations k hk
    rw [← runAll_conserves hk]
    exact (Nat.zero_add _).symm
  refine ⟨?_, hkinds, fun s o => ⟨o.lead s, o.balance s⟩, ?_⟩
  · intro operations x hx
    have hnil : (Value.nil == x) = false := by
      cases x with
      | nil => cases hx
      | _ => rfl
    exact hkinds operations (· == x) hnil
  · intro s n hn
    rw [draw_after]
    split
    · rfl
    split
    next hzero hempty =>
      have hneg : n.toNat = 0 := by
        rcases hn with ⟨-, hstaged⟩ | hn
        · exact absurd hempty hstaged
        · omega
      simp [hneg, bottom]
    · rfl

def handOver : List Operation :=
  [.push [.bool true, .null], .stageCopies [0, 7], .stageTop, .draw (-2), .draw 0, .pop]

theorem handOver_conserved :
    let run := empty.runAll handOver
    run.entered.count (.bool true) = 2 ∧
      run.after.buffer.count (.bool true) + run.after.staging.count (.bool true) = 0 ∧
      run.delivered.count (.bool true) = 2 := by
  intro run
  have hconserved : run.entered.count (.bool true) = run.after.buffer.count (.bool true) +
      run.after.staging.count (.bool true) + run.delivered.count (.bool true) :=
    values_conserved.1 handOver (.bool true) rfl
  have hentered : run.entered.count (.bool true) = 2 := by decide +kernel
  have hleft : run.after.buffer.count (.bool true) + run.after.staging.count (.bool true) = 0 := by
    decide +kernel
  exact ⟨hentered, hleft, by omega⟩

end Stack

end AttrChain
