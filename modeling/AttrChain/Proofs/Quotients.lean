import Mathlib.Algebra.Group.Int.Defs
import AttrChain.Filter.Eval
import AttrChain.Filter.Reader

/-!
Quotients and remainders in filters. The quotient times the divisor, plus the remainder, is the
dividend, and the remainder is smaller than the divisor, whatever their signs. By zero both are 0.
The least number by minus one has no quotient within 64 bits; there both are 0 as well, and the
dividend is lost.
-/

namespace AttrChain.Filter

/-- Whether the quotient is a number of 64 bits. -/
def HasQuotient (a b : Int64) : Prop := b ≠ 0 ∧ ¬ (a = Int64.minValue ∧ b = -1)

section Division

variable {a b : Int64}

theorem quotient_of_hasQuotient (h : HasQuotient a b) : quotient a b = a / b :=
  if_neg (not_or.mpr h)

theorem remainder_of_hasQuotient (h : HasQuotient a b) : remainder a b = a % b :=
  if_neg (not_or.mpr h)

theorem quotient_eq_zero (h : b = 0 ∨ (a = Int64.minValue ∧ b = -1)) : quotient a b = 0 := if_pos h

theorem remainder_eq_zero (h : b = 0 ∨ (a = Int64.minValue ∧ b = -1)) : remainder a b = 0 :=
  if_pos h

theorem toInt_ne_zero (h : b ≠ 0) : b.toInt ≠ 0 := by
  rintro hzero
  exact h (Int64.toInt_inj.mp hzero)

theorem tdiv_bounds (h : HasQuotient a b) :
    -2 ^ 63 ≤ a.toInt.tdiv b.toInt ∧ a.toInt.tdiv b.toInt < 2 ^ 63 := by
  have hlow := a.le_toInt
  have hhigh := a.toInt_lt
  have hdivisor := toInt_ne_zero h.1
  have hsize : (a.toInt.tdiv b.toInt).natAbs = a.toInt.natAbs / b.toInt.natAbs :=
    Int.natAbs_tdiv a.toInt b.toInt
  -- a divisor of at least two halves the size, and one changes the sign at most
  by_cases hlarge : 2 ≤ b.toInt.natAbs
  · have hhalf : a.toInt.natAbs / b.toInt.natAbs ≤ a.toInt.natAbs / 2 :=
      Nat.div_le_div_left hlarge (by decide)
    omega
  · have hunit : b.toInt = 1 ∨ b.toInt = -1 := by omega
    rcases hunit with hone | hminus
    · rw [hone, Int.tdiv_one]
      exact ⟨hlow, hhigh⟩
    · have hnot : a.toInt ≠ -2 ^ 63 := by
        intro hleast
        exact h.2 ⟨Int64.toInt_inj.mp hleast, Int64.toInt_inj.mp hminus⟩
      rw [hminus, Int.tdiv_neg, Int.tdiv_one]
      omega

theorem toInt_quotient (h : HasQuotient a b) :
    (quotient a b).toInt = a.toInt.tdiv b.toInt := by
  obtain ⟨hlow, hhigh⟩ := tdiv_bounds h
  rw [quotient_of_hasQuotient h, Int64.toInt_div]
  exact Int.bmod_eq_of_le hlow hhigh

theorem toInt_remainder (h : HasQuotient a b) :
    (remainder a b).toInt = a.toInt.tmod b.toInt := by
  rw [remainder_of_hasQuotient h, Int64.toInt_mod]

theorem natAbs_remainder_lt (h : b ≠ 0) :
    (remainder a b).toInt.natAbs < b.toInt.natAbs := by
  have hpos : 0 < b.toInt.natAbs := Int.natAbs_pos.mpr (toInt_ne_zero h)
  by_cases hq : HasQuotient a b
  · rw [toInt_remainder hq, Int.natAbs_tmod]
    exact Nat.mod_lt _ hpos
  · have hzero : remainder a b = 0 := remainder_eq_zero (by simpa [HasQuotient, h] using hq)
    rw [hzero]
    exact hpos

/-- No step of the product and the sum leaves the 64 bits. -/
theorem quotient_mul_add_remainder (h : HasQuotient a b) :
    quotient a b * b + remainder a b = a := by
  apply Int64.toInt_inj.mp
  rw [Int64.toInt_add, Int64.toInt_mul, toInt_quotient h, toInt_remainder h, Int.bmod_add_bmod,
    Int.tdiv_mul_add_tmod]
  exact a.toInt_bmod

theorem quotient_mul_add_remainder_eq_iff (h : b ≠ 0) :
    quotient a b * b + remainder a b = a ↔ HasQuotient a b := by
  constructor
  · intro hsum
    refine ⟨h, ?_⟩
    rintro ⟨rfl, rfl⟩
    rw [quotient_eq_zero (.inr ⟨rfl, rfl⟩), remainder_eq_zero (.inr ⟨rfl, rfl⟩)] at hsum
    exact absurd hsum (by decide)
  · exact quotient_mul_add_remainder

end Division

namespace Expr

def recombined (a b : Expr) : Expr :=
  .binary .add (.binary .mul (.binary .div a b) b) (.binary .mod a b)

theorem eval_recombined (a b : Expr) (m : Match) : (recombined a b).eval m =
    .int (quotient (a.eval m).number (b.eval m).number * (b.eval m).number +
      remainder (a.eval m).number (b.eval m).number) := rfl

/-- Quotient and remainder give the dividend back, exactly unless it is the least number and the
divisor minus one: there both are 0. The remainder is smaller than the divisor, and by zero both
are 0. -/
theorem recombined_eq_iff (a b : Expr) (m : Match) :
    let x := (a.eval m).number
    let y := (b.eval m).number
    (y = 0 → (binary .div a b).eval m = .int 0 ∧ (binary .mod a b).eval m = .int 0) ∧
    (y ≠ 0 →
      (∃ r : Int64, (binary .mod a b).eval m = .int r ∧ r.toInt.natAbs < y.toInt.natAbs) ∧
      ((recombined a b).eval m = .int x ↔ ¬ (x = Int64.minValue ∧ y = -1))) ∧
    (x = Int64.minValue ∧ y = -1 → (binary .div a b).eval m = .int 0 ∧
      (binary .mod a b).eval m = .int 0 ∧ (recombined a b).eval m = .int 0) := by
  intro x y
  have hquotient : (binary .div a b).eval m = .int (quotient x y) := rfl
  have hremainder : (binary .mod a b).eval m = .int (remainder x y) := rfl
  refine ⟨?_, ?_, ?_⟩
  · intro hzero
    rw [hquotient, hremainder, quotient_eq_zero (.inl hzero), remainder_eq_zero (.inl hzero)]
    exact ⟨rfl, rfl⟩
  · intro hne
    refine ⟨⟨remainder x y, hremainder, natAbs_remainder_lt hne⟩, ?_⟩
    rw [eval_recombined, Operand.int.injEq, quotient_mul_add_remainder_eq_iff hne]
    exact and_iff_right hne
  · intro hleast
    rw [hquotient, hremainder, eval_recombined, quotient_eq_zero (.inr hleast),
      remainder_eq_zero (.inr hleast), Int64.zero_mul]
    exact ⟨rfl, rfl, rfl⟩

example : quotient (-7) 2 = -3 ∧ remainder (-7) 2 = -1 := by decide

/-- The least number, which no literal says. -/
def least : Expr := .binary .sub (.neg (.num Int64.maxValue)) (.num 1)

theorem eval_least (m : Match) : least.eval m = .int Int64.minValue := by
  have hvalue : -Int64.maxValue - 1 = Int64.minValue := by decide
  exact congrArg Operand.int hvalue

/-- Not every dividend comes back: the least number by minus one leaves 0. -/
theorem least_by_minus_one :
    let m : Match := ⟨0, 1, fun _ => none⟩
    let minusOne : Expr := .neg (.num 1)
    least.eval m = .int Int64.minValue ∧ minusOne.eval m = .int (-1) ∧
      (recombined least minusOne).eval m = .int 0 ∧
      ¬ (recombined least minusOne).eval m = .int Int64.minValue := by
  intro m minusOne
  have hminus : minusOne.eval m = .int (-1) := rfl
  have hsum : (recombined least minusOne).eval m = .int 0 := by
    rw [eval_recombined, eval_least, hminus, Operand.int.injEq]
    decide
  refine ⟨eval_least m, hminus, hsum, ?_⟩
  rw [hsum, Operand.int.injEq]
  decide

end Expr

end AttrChain.Filter
