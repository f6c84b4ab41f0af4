/-!
Sets of characters, given as ascending ranges of code points.
-/

namespace AttrChain.Text

/-- Whether `n` lies in one of the ranges. The ranges are ascending and hold both ends, so the
search ends at the first one above `n`. -/
def inRanges : List (Nat × Nat) → Nat → Bool
  | [], _ => false
  | (lo, hi) :: rest, n => if n < lo then false else n ≤ hi || inRanges rest n

theorem inRanges_below {lo hi n : Nat} (rest : List (Nat × Nat)) (h : n < lo) :
    inRanges ((lo, hi) :: rest) n = false := by
  simp [inRanges, h]

end AttrChain.Text
