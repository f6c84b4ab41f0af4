import AttrChain.Kit.Compute
import Mathlib.Algebra.Group.Int.Defs
import Mathlib.Data.List.Basic

/-!
Sums, differences and products over a list of operands. Whole numbers are computed exactly as long as
each result on the way is a number of 64 bits; at the first one that is not, the computation goes on
with floating-point numbers and does not come back.
-/

namespace AttrChain

namespace Compute

def Within (n : Int) : Prop := Int64.minValue.toInt ≤ n ∧ n ≤ Int64.maxValue.toInt

instance (n : Int) : Decidable (Within n) := inferInstanceAs (Decidable (_ ∧ _))

/-- The operation by which an instruction puts its operands together, if that is what it does. -/
def arithmetic? : Compute → Option Arithmetic
  | add => some addition
  | sub => some subtraction
  | mul => some multiplication
  | _ => none

theorem within_iff {n : Int} : Within n ↔ -2 ^ 63 ≤ n ∧ n < 2 ^ 63 := by
  have hleast : Int64.minValue.toInt = -2 ^ 63 := by decide
  have hgreatest : Int64.maxValue.toInt = 2 ^ 63 - 1 := by decide
  rw [Within, hleast, hgreatest]
  omega

theorem within_toInt (r : Int64) : Within r.toInt := within_iff.mpr ⟨r.le_toInt, r.toInt_lt⟩

theorem exists_toInt_eq {n : Int} (h : Within n) : ∃ r : Int64, r.toInt = n := by
  obtain ⟨hlow, hhigh⟩ := within_iff.mp h
  exact ⟨.ofInt n, Int64.toInt_ofInt_of_le hlow hhigh⟩

theorem fits_iff {n : Int} : fits n = true ↔ Within n := by
  have hpow : Int.pow 2 63 = 2 ^ 63 := rfl
  rw [within_iff, fits, hpow, Bool.and_eq_true, decide_eq_true_eq, decide_eq_true_eq]

theorem perform_arithmetic {c : Compute} {a : Arithmetic} (h : c.arithmetic? = some a)
    (args : List Value) (ctx : Context) (d : Document) :
    (c.perform args ctx d).1 = (a.fold (operands ctx.data args)).map .value := by
  cases c <;> cases h <;> rfl

namespace Arithmetic

variable {a : Arithmetic} {m n : Int64} {rest : List Int64}

def exact (a : Arithmetic) (m : Int) (rest : List Int64) : Int :=
  rest.foldl (fun r n => a.whole r n.toInt) m

/-- Whether the exact result is one of 64 bits after each operand. -/
def StaysWithin (a : Arithmetic) (m : Int) (rest : List Int64) : Prop :=
  ∀ done, done <+: rest → Within (a.exact m done)

def floating (a : Arithmetic) (x : Float) (rest : List Int64) : Float :=
  rest.foldl (fun x n => a.float x n.toFloat) x

section Whole

theorem staysWithin_nil {m : Int} : a.StaysWithin m [] ↔ Within m := by
  simp only [StaysWithin, List.prefix_nil, forall_eq]
  rfl

theorem staysWithin_cons {m : Int} : a.StaysWithin m (n :: rest) ↔
    Within m ∧ a.StaysWithin (a.whole m n.toInt) rest := by
  simp only [StaysWithin, List.prefix_cons_iff]
  constructor
  · intro h
    exact ⟨h [] (.inl rfl), fun done hdone => h (n :: done) (.inr ⟨done, rfl, hdone⟩)⟩
  · rintro ⟨hm, hrest⟩ done (rfl | ⟨done, rfl, hdone⟩)
    · exact hm
    · exact hrest done hdone

theorem exists_first_beyond {m : Int} (hm : Within m) (h : ¬ a.StaysWithin m rest) :
    ∃ before n after, rest = before ++ n :: after ∧ a.StaysWithin m before ∧
      ¬ Within (a.whole (a.exact m before) n.toInt) := by
  induction rest generalizing m with
  | nil => exact absurd (staysWithin_nil.mpr hm) h
  | cons n rest ih =>
    by_cases hn : Within (a.whole m n.toInt)
    · -- the result leaves the 64 bits later on
      have hlater : ¬ a.StaysWithin (a.whole m n.toInt) rest := fun hstays =>
        h (staysWithin_cons.mpr ⟨hm, hstays⟩)
      obtain ⟨before, k, after, rfl, hbefore, hbeyond⟩ := ih hn hlater
      exact ⟨n :: before, k, after, rfl, staysWithin_cons.mpr ⟨hm, hbefore⟩, hbeyond⟩
    · exact ⟨[], n, rest, rfl, staysWithin_nil.mpr hm, hn⟩

theorem apply_int (a : Arithmetic) (m n : Int64) :
    (∀ r : Int64, r.toInt = a.whole m.toInt n.toInt → a.apply (.int m) (.int n) = .ok (.int r)) ∧
    (¬ Within (a.whole m.toInt n.toInt) →
      a.apply (.int m) (.int n) = .ok (.float (a.float m.toFloat n.toFloat))) := by
  constructor
  · intro r hr
    have hfits : fits (a.whole m.toInt n.toInt) = true := fits_iff.mpr (hr ▸ within_toInt r)
    rw [apply, if_pos hfits, ← hr, Int64.ofInt_toInt]
  · intro hbeyond
    rw [apply, if_neg fun hfits => hbeyond (fits_iff.mp hfits)]

theorem foldlM_staysWithin (h : a.StaysWithin m.toInt rest) :
    ∃ r : Int64, r.toInt = a.exact m.toInt rest ∧
      (rest.map .int).foldlM a.apply (.int m) = .ok (.int r) := by
  induction rest generalizing m with
  | nil => exact ⟨m, rfl, rfl⟩
  | cons n rest ih =>
    obtain ⟨-, hrest⟩ := staysWithin_cons.mp h
    obtain ⟨r, hr⟩ : ∃ r : Int64, r.toInt = a.whole m.toInt n.toInt :=
      exists_toInt_eq (hrest [] List.nil_prefix)
    rw [← hr] at hrest
    obtain ⟨last, hlast, hrun⟩ := ih hrest
    refine ⟨last, ?_, ?_⟩
    · rw [hlast, hr]
      rfl
    · rw [List.map_cons, List.foldlM_cons, (apply_int a m n).1 r hr]
      exact hrun

theorem foldlM_float (a : Arithmetic) (x : Float) (rest : List Int64) :
    (rest.map .int).foldlM a.apply (.float x) = .ok (.float (a.floating x rest)) := by
  induction rest generalizing x with
  | nil => rfl
  | cons n rest ih => exact ih (a.float x n.toFloat)

/-- At the first result that is beyond 64 bits the computation turns to floating-point numbers. -/
theorem foldlM_beyond {before : List Int64} (hbefore : a.StaysWithin m.toInt before)
    (hbeyond : ¬ Within (a.whole (a.exact m.toInt before) n.toInt)) (after : List Int64) :
    ∃ r : Int64, r.toInt = a.exact m.toInt before ∧
      ((before ++ n :: after).map .int).foldlM a.apply (.int m) =
        .ok (.float (a.floating (a.float r.toFloat n.toFloat) after)) := by
  obtain ⟨r, hr, hrun⟩ := foldlM_staysWithin hbefore
  refine ⟨r, hr, ?_⟩
  rw [← hr] at hbeyond
  rw [List.map_append, List.foldlM_append, hrun, List.map_cons]
  change List.foldlM a.apply (.int r) (.int n :: after.map .int) = _
  rw [List.foldlM_cons, (apply_int a r n).2 hbeyond]
  exact foldlM_float a _ after

end Whole

section Numbers

variable {x y : Value} {rest : List Value}

theorem apply_numbers (hx : x.asFloat? ≠ none) (hy : y.asFloat? ≠ none) :
    ∃ z, a.apply x y = .ok z ∧ z.asFloat? ≠ none := by
  obtain ⟨p, hp⟩ := Option.ne_none_iff_exists'.mp hx
  obtain ⟨q, hq⟩ := Option.ne_none_iff_exists'.mp hy
  unfold apply
  split
  next m n =>
    refine ⟨_, rfl, ?_⟩
    split <;> exact Option.some_ne_none _
  · rw [hp, hq]
    exact ⟨_, rfl, Option.some_ne_none _⟩

theorem apply_fails (h : x.asFloat? = none ∨ y.asFloat? = none) : ∃ e, a.apply x y = .error e := by
  unfold apply
  split
  next m n => rcases h with h | h <;> cases h
  · split
    next hp hq =>
      rw [hp, hq] at h
      rcases h with h | h <;> cases h
    · exact ⟨_, rfl⟩

theorem foldlM_fails_iff (hx : x.asFloat? ≠ none) :
    (∃ e, rest.foldlM a.apply x = .error e) ↔ ∃ v ∈ rest, v.asFloat? = none := by
  induction rest generalizing x with
  | nil =>
    refine iff_of_false ?_ ?_
    · rintro ⟨e, ⟨⟩⟩
    · rintro ⟨v, hv, -⟩
      cases hv
  | cons y rest ih =>
    rw [List.foldlM_cons, List.exists_mem_cons_iff]
    by_cases hy : y.asFloat? = none
    · obtain ⟨e, he⟩ := apply_fails (a := a) (x := x) (.inr hy)
      rw [he]
      exact iff_of_true ⟨e, rfl⟩ (.inl hy)
    · obtain ⟨z, hz, hnumber⟩ := apply_numbers (a := a) hx hy
      rw [hz, or_iff_right hy]
      exact ih hnumber

theorem fold_fails_iff (a : Arithmetic) (x y : Value) (rest : List Value) :
    (∃ e, a.fold (x :: y :: rest) = .error e) ↔ ∃ v ∈ x :: y :: rest, v.asFloat? = none := by
  rw [fold, List.exists_mem_cons_iff]
  by_cases hx : x.asFloat? = none
  · obtain ⟨e, he⟩ := apply_fails (a := a) (y := y) (.inl hx)
    rw [List.foldlM_cons, he]
    exact iff_of_true ⟨e, rfl⟩ (.inl hx)
  · rw [or_iff_right hx, foldlM_fails_iff hx]

end Numbers

end Arithmetic

variable {c : Compute} {a : Arithmetic}

/-- Whole numbers have the exact result, if it stays within 64 bits on the way, and from the first
operand on at which it does not they have a floating-point one. Two operands or more have a result
unless one of them is no number, and no operands have none. -/
theorem exact_until_overflow (h : c.arithmetic? = some a) (args : List Value) (ctx : Context)
    (d : Document) :
    (∀ (first : Int64) (rest : List Int64),
      operands ctx.data args = (first :: rest).map .int →
        (a.StaysWithin first.toInt rest → ∃ r : Int64, r.toInt = a.exact first.toInt rest ∧
          (c.perform args ctx d).1 = .ok (.value (.int r))) ∧
        (¬ a.StaysWithin first.toInt rest → ∃ before n after, ∃ r : Int64,
          rest = before ++ n :: after ∧ a.StaysWithin first.toInt before ∧
          r.toInt = a.exact first.toInt before ∧ ¬ Within (a.whole r.toInt n.toInt) ∧
          (c.perform args ctx d).1 =
            .ok (.value (.float (a.floating (a.float r.toFloat n.toFloat) after))))) ∧
    (2 ≤ (operands ctx.data args).length → ((∃ e, (c.perform args ctx d).1 = .error e) ↔
      ∃ v ∈ operands ctx.data args, v.asFloat? = none)) ∧
    (operands ctx.data args = [] →
      (c.perform args ctx d).1 = .error (.failed (a.name ++ ": no operands"))) := by
  rw [perform_arithmetic h]
  generalize operands ctx.data args = values
  refine ⟨fun first rest hwhole => ⟨fun hstays => ?_, fun hleaves => ?_⟩, fun htwo => ?_, ?_⟩
  · obtain ⟨r, hr, hrun⟩ := Arithmetic.foldlM_staysWithin hstays
    refine ⟨r, hr, ?_⟩
    rw [hwhole, List.map_cons, Arithmetic.fold, hrun]
    rfl
  · obtain ⟨before, n, after, rfl, hbefore, hbeyond⟩ :=
      Arithmetic.exists_first_beyond (within_toInt first) hleaves
    obtain ⟨r, hr, hrun⟩ := Arithmetic.foldlM_beyond hbefore hbeyond after
    refine ⟨before, n, after, r, rfl, hbefore, hr, hr ▸ hbeyond, ?_⟩
    rw [hwhole, List.map_cons, Arithmetic.fold, hrun]
    rfl
  · match values, htwo with
    | x :: y :: rest, _ =>
      rw [← Arithmetic.fold_fails_iff a]
      simp only [map_eq_error_iff]
  · rintro rfl
    rfl

def overTheTop : Context :=
  { Context.blank with data := some (.list [.int Int64.maxValue, .int 1]) }

theorem overTheTop_added :
    (∃ x, (add.perform [.int (-1)] overTheTop .empty).1 = .ok (.value (.float x))) ∧
    (∃ r : Int64, r.toInt = 3 ∧
      (sub.perform [.int 3, .int 4] { Context.blank with data := some (.int 10) } .empty).1 =
        .ok (.value (.int r))) ∧
    (∃ e, (mul.perform [.null] { Context.blank with data := some (.int 0) } .empty).1 =
      .error e) := by
  obtain ⟨hadd, -⟩ := exact_until_overflow (c := add) rfl [.int (-1)] overTheTop .empty
  obtain ⟨hsub, -⟩ := exact_until_overflow (c := sub) rfl [.int 3, .int 4]
    { Context.blank with data := some (.int 10) } .empty
  obtain ⟨-, hmul, -⟩ := exact_until_overflow (c := mul) rfl [.null]
    { Context.blank with data := some (.int 0) } .empty
  refine ⟨?_, ?_, ?_⟩
  · obtain ⟨-, hleaves⟩ := hadd Int64.maxValue [1, -1] rfl
    have hbeyond : ¬ Within (addition.exact Int64.maxValue.toInt [1]) := by decide
    obtain ⟨_, _, _, _, -, -, -, -, hrun⟩ := hleaves fun hstays => hbeyond (hstays [1] ⟨[-1], rfl⟩)
    exact ⟨_, hrun⟩
  · obtain ⟨hstays, -⟩ := hsub 10 [3, 4] rfl
    apply hstays
    simp only [Arithmetic.staysWithin_cons, Arithmetic.staysWithin_nil]
    decide
  · exact (hmul (by decide)).mpr ⟨.null, by simp [operands], rfl⟩

end Compute

end AttrChain
