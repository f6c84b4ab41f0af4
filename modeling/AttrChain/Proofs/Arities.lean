import AttrChain.Instruction.Basic
import AttrChain.Proofs.Conservation

/-!
What an arity asks of a stack, and what the stack gives for its signed count. Both are the same but
for an arity of no values at all: it has the count of the one that asks for everything.
-/

namespace AttrChain

open Stack (Pieces Operation)

namespace Arity

/-- The values that are asked for: all that are set aside, the first of them, or, if there are none,
the last of the buffer. -/
def asked (s : Stack) : Arity → Pieces
  | all => { front := s.staging }
  | take n => if s.staging = [] then { top := s.top n } else { front := s.staging.take n }
  | optional n => { front := s.staging.take n }

def AsksNone (a : Arity) : Prop := a = take 0 ∨ a = optional 0

instance (a : Arity) : Decidable a.AsksNone := inferInstanceAs (Decidable (_ ∨ _))

variable {a b : Arity} {s : Stack}

theorem count_eq_zero_iff : a.count = 0 ↔ a = all ∨ a.AsksNone := by
  cases a with
  | all => simp [count]
  | take n =>
    simp only [count, AsksNone, reduceCtorEq, false_or, or_false, take.injEq]
    omega
  | optional n =>
    simp only [count, AsksNone, reduceCtorEq, false_or, optional.injEq]
    omega

/-- Only the count of all is shared. -/
theorem count_eq_iff : a.count = b.count ↔ a = b ∨ (a.count = 0 ∧ b.count = 0) := by
  constructor
  · intro h
    by_cases hzero : a.count = 0
    · exact .inr ⟨hzero, h ▸ hzero⟩
    · left
      cases a with
      | all => exact absurd rfl hzero
      | take n => cases b <;> simp only [count, take.injEq, reduceCtorEq] at h hzero ⊢ <;> omega
      | optional n =>
        cases b <;> simp only [count, optional.injEq, reduceCtorEq] at h hzero ⊢ <;> omega
  · rintro (rfl | ⟨ha, hb⟩)
    · rfl
    · rw [ha, hb]

theorem top_zero (s : Stack) : s.top 0 = [] := by simp [Stack.top]

theorem asked_of_asksNone (h : a.AsksNone) : a.asked s = {} := by
  rcases h with rfl | rfl
  · by_cases hs : s.staging = [] <;> simp [asked, hs, top_zero]
  · simp [asked]

/-- What is asked for is what the signed count takes, unless nothing is asked for and something is
set aside. -/
theorem pieces_draw (h : a.AsksNone → s.staging = []) :
    (Operation.draw a.count).pieces s = a.asked s := by
  by_cases hnone : a.AsksNone
  · have hzero : a.count = 0 := count_eq_zero_iff.mpr (.inr hnone)
    rw [asked_of_asksNone hnone, hzero, Operation.pieces, if_pos rfl, h hnone]
  · cases a with
    | all => rfl
    | take n =>
      have hn : (n : Int) ≠ 0 := by
        rintro hn
        exact hnone (.inl (by rw [Int.natCast_eq_zero.mp hn]))
      rw [count, Operation.pieces, if_neg hn, asked, Int.toNat_natCast, Int.natAbs_natCast]
    | optional n =>
      have hn : -(n : Int) ≠ 0 := by
        rintro hn
        exact hnone (.inr (by rw [Int.natCast_eq_zero.mp (Int.neg_eq_zero.mp hn)]))
      have hneg : (-(n : Int)).toNat = 0 := by omega
      rw [count, Operation.pieces, if_neg hn, asked, hneg, top_zero, Int.natAbs_neg,
        Int.natAbs_natCast]
      by_cases hs : s.staging = []
      · rw [if_pos hs, hs, List.take_nil]
      · rw [if_neg hs]

theorem draw_of_asksNone (h : a.AsksNone) (s : Stack) :
    s.draw a.count = s.draw all.count := by
  rw [count_eq_zero_iff.mpr (.inr h)]
  rfl

/-- The stack that is left tells whether something was set aside that was not asked for. -/
theorem asked_lead_iff (a : Arity) (s : Stack) :
    (a.asked s).Lead s (s.draw a.count).2 ↔ (a.AsksNone → s.staging = []) := by
  constructor
  · rintro ⟨_, staging, -, -, hbefore, hafter⟩ hnone
    rw [draw_of_asksNone hnone, Stack.draw_after, asked_of_asksNone hnone] at hafter
    rw [asked_of_asksNone hnone] at hbefore
    have hempty : staging = [] := by simpa [count] using hafter.symm
    simpa [hempty] using hbefore
  · intro h
    rw [← pieces_draw h]
    exact (Operation.draw a.count).lead s

theorem drawn_asked (h : a.AsksNone → s.staging = []) :
    (s.drawn a.count).filter (!·.isNil) =
      ((a.asked s).front ++ (a.asked s).top).filter (!·.isNil) := by
  have hbalance := (Operation.draw a.count).balance s
  rw [pieces_draw h] at hbalance
  have hnothing : (a.asked s).pushed = [] ∧ (a.asked s).staged = [] ∧ (a.asked s).bottom = [] ∧
      ((a.asked s).front = [] ∨ (a.asked s).top = []) := by
    cases a with
    | all => simp [asked]
    | take n => by_cases hs : s.staging = [] <;> simp [asked, hs]
    | optional n => simp [asked]
  obtain ⟨hpushed, hstaged, hbottom, hone⟩ := hnothing
  rw [hpushed, hstaged, hbottom] at hbalance
  rcases hone with hfront | htop
  · simpa [hfront, Operation.on] using hbalance
  · simpa [htop, Operation.on] using hbalance

/-- The signed count of an arity makes a stack hand out what the arity asks for, and leaves all else
in its place, if and only if the arity does not ask for nothing while something is set aside. In
that one case all that is set aside is drained. Different arities have different counts, but for the
one of all and the two of none. -/
theorem count_keeps_meaning_iff (a b : Arity) (s : Stack) :
    ((a.asked s).Lead s (s.draw a.count).2 ↔ (a.AsksNone → s.staging = [])) ∧
    ((a.AsksNone → s.staging = []) → (s.drawn a.count).filter (!·.isNil) =
      ((a.asked s).front ++ (a.asked s).top).filter (!·.isNil)) ∧
    (a.AsksNone →
      (all.asked s).Lead s (s.draw a.count).2 ∧ (s.draw a.count).1 = (s.draw all.count).1) ∧
    (a.count = b.count ↔ a = b ∨ ((a = all ∨ a.AsksNone) ∧ (b = all ∨ b.AsksNone))) := by
  refine ⟨asked_lead_iff a s, drawn_asked, ?_, ?_⟩
  · intro hnone
    rw [draw_of_asksNone hnone]
    refine ⟨(asked_lead_iff all s).mpr ?_, rfl⟩
    rintro (h | h) <;> cases h
  · rw [count_eq_iff, count_eq_zero_iff, count_eq_zero_iff]

def threeAside : Stack := ⟨[.null], [.bool true, .nil, .bool false]⟩

theorem two_of_threeAside :
    ¬ (take 2).AsksNone ∧ threeAside.drawn (take 2).count = [.bool true, .nil] ∧
      (threeAside.draw (take 2).count).2 = ⟨[.null], [.bool false]⟩ ∧
      (threeAside.drawn (take 2).count).filter (!·.isNil) = [.bool true] := by
  have hsome : (take 2).AsksNone → threeAside.staging = [] := by decide
  refine ⟨by decide, rfl, rfl, ?_⟩
  exact (count_keeps_meaning_iff (take 2) all threeAside).2.1 hsome

/-- Not every arity keeps its meaning: with none asked for, all that is set aside is drained. -/
theorem none_of_threeAside :
    (asked threeAside (take 0)).front = [] ∧ (asked threeAside (take 0)).top = [] ∧
      threeAside.draw (take 0).count =
        (some (.list [.bool true, .nil, .bool false]), ⟨[.null], []⟩) ∧
      ¬ (asked threeAside (take 0)).Lead threeAside (threeAside.draw (take 0).count).2 := by
  refine ⟨rfl, rfl, rfl, ?_⟩
  rw [asked_lead_iff]
  decide

end Arity

end AttrChain
