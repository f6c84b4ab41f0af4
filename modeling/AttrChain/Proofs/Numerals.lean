import AttrChain.Text.Numeral

/-!
Numbers written in decimal digits are read back: plain ones, positions below `2 ^ 64`, and signed
ones of 64 bits.
-/

namespace AttrChain.Text

theorem appendDigits_eq_ofDigitChars {cs : List Char} (h : ∀ c ∈ cs, c.isDigit = true) (n : Nat) :
    appendDigits 10 n cs = Nat.ofDigitChars 10 cs n := by
  induction cs generalizing n with
  | nil => rfl
  | cons c cs ih =>
    have hc : digitValue c = c.toNat - '0'.toNat := by
      unfold digitValue
      exact if_pos (h c List.mem_cons_self)
    rw [Nat.ofDigitChars_cons, ← ih (fun d hd => h d (List.mem_cons_of_mem _ hd)), ← hc]
    rfl

theorem isDigit_of_mem_decimal {n : Nat} {c : Char} (h : c ∈ Nat.toDigits 10 n) :
    c.isDigit = true :=
  Nat.isDigit_of_mem_toDigits (by decide) (by decide) h

theorem readNat?_toDigits (n : Nat) : readNat? (Nat.toDigits 10 n) = some n := by
  have hdigits : ∀ c ∈ Nat.toDigits 10 n, c.isDigit = true := fun c => isDigit_of_mem_decimal
  have hcond : ((Nat.toDigits 10 n).isEmpty || !(Nat.toDigits 10 n).all Char.isDigit) = false := by
    simp only [Bool.or_eq_false_iff, List.isEmpty_eq_false_iff, Bool.not_eq_false',
      List.all_eq_true]
    exact ⟨Nat.toDigits_ne_nil, hdigits⟩
  rw [readNat?, hcond, appendDigits_eq_ofDigitChars hdigits, Nat.ofDigitChars_ten_toDigits]
  rfl

theorem readInt?_of_isDigit {cs : List Char} (h : ∃ c ∈ cs.head?, c.isDigit = true) :
    readInt? cs =
      (readNat? cs).bind fun n => if n < Nat.pow 2 63 then some (.ofNat n) else none := by
  obtain ⟨c, hc, hdigit⟩ := h
  obtain ⟨rest, rfl⟩ : ∃ rest, cs = c :: rest := by
    cases cs with
    | nil => cases hc
    | cons d rest =>
      cases hc
      exact ⟨rest, rfl⟩
  rw [readInt?]
  · rintro rest' heq
    injection heq with hminus _
    subst hminus
    cases hdigit
  · rintro rest' heq
    injection heq with hplus _
    subst hplus
    cases hdigit

theorem decimal_eq_cons (n : Nat) : ∃ c cs, Nat.toDigits 10 n = c :: cs ∧ c.isDigit = true := by
  cases hdigits : Nat.toDigits 10 n with
  | nil => exact absurd hdigits Nat.toDigits_ne_nil
  | cons c cs =>
    refine ⟨c, cs, rfl, isDigit_of_mem_decimal (n := n) ?_⟩
    rw [hdigits]
    exact List.mem_cons_self

theorem head?_decimal_ne {n : Nat} (h : 0 < n) : (Nat.toDigits 10 n).head? ≠ some '0' := by
  induction n using Nat.strongRecOn with
  | ind n ih =>
    rw [Nat.toDigits_eq_if (by decide)]
    by_cases hn : n < 10
    · have hall : ∀ d ∈ List.range' 1 9, [d.digitChar].head? ≠ some '0' := by decide
      rw [if_pos hn]
      exact hall n (List.mem_range'_1.mpr ⟨h, hn⟩)
    · have hhead : (Nat.toDigits 10 (n / 10)).head? ≠ some '0' := ih (n / 10) (by omega) (by omega)
      obtain ⟨c, cs, hdigits, -⟩ := decimal_eq_cons (n / 10)
      rw [hdigits] at hhead
      rw [if_neg hn, hdigits]
      exact hhead

theorem head_decimal (n : Nat) : ∃ c ∈ (Nat.toDigits 10 n).head?, c.isDigit = true := by
  obtain ⟨c, cs, hdigits, hc⟩ := decimal_eq_cons n
  rw [hdigits]
  exact ⟨c, rfl, hc⟩

theorem readSize?_toDigits {n : Nat} (h : n < Nat.pow 2 64) :
    readSize? (Nat.toDigits 10 n) = some n := by
  obtain ⟨c, hc, hdigit⟩ := head_decimal n
  unfold readSize?
  split
  · next rest hplus =>
    rw [hplus] at hc
    cases hc
    cases hdigit
  · dsimp only
    rw [readNat?_toDigits]
    exact if_pos h

theorem readInt?_toDigits {n : Nat} (h : n < Nat.pow 2 63) :
    readInt? (Nat.toDigits 10 n) = some (.ofNat n) := by
  rw [readInt?_of_isDigit (head_decimal n), readNat?_toDigits]
  exact if_pos h

theorem readInt?_minus_toDigits {n : Nat} (h : n ≤ Nat.pow 2 63) :
    readInt? ('-' :: Nat.toDigits 10 n) = some (.ofInt (-n)) := by
  rw [readInt?, readNat?_toDigits]
  exact if_pos h

theorem repr_ofNat (n : Nat) : (Int.ofNat n).repr.toList = Nat.toDigits 10 n := Nat.toList_repr

theorem repr_negSucc (n : Nat) :
    (Int.negSucc n).repr.toList = '-' :: Nat.toDigits 10 (n + 1) := by
  have hrepr : (Int.negSucc n).repr = "-" ++ (n + 1).repr := rfl
  rw [hrepr, String.toList_append, Nat.toList_repr]
  rfl

/-- A number of 64 bits is read back from its digits, with a minus in front of a negative one. -/
theorem readInt?_repr (n : Int64) : readInt? n.toInt.repr.toList = some n := by
  have hmax := n.toInt_lt
  have hmin := n.le_toInt
  have hback : Int64.ofInt n.toInt = n := n.ofInt_toInt
  have hpow : Nat.pow 2 63 = 9223372036854775808 := rfl
  cases hn : n.toInt with
  | ofNat k =>
    rw [hn] at hmax hback
    have hk : k < Nat.pow 2 63 := by
      simp only [Int.ofNat_eq_natCast] at hmax
      omega
    rw [repr_ofNat, readInt?_toDigits hk, ← hback]
    exact congrArg some Int64.ofInt_eq_ofNat.symm
  | negSucc k =>
    rw [hn] at hmin hback
    have hk : k + 1 ≤ Nat.pow 2 63 := by omega
    rw [repr_negSucc, readInt?_minus_toDigits hk, ← hback]
    rfl

theorem toInt_nonneg_of_readInt? {cs : List Char} {n : Int64}
    (h : ∃ c ∈ cs.head?, c.isDigit = true) (hn : readInt? cs = some n) : 0 ≤ n.toInt := by
  rw [readInt?_of_isDigit h] at hn
  obtain ⟨k, -, hk⟩ := Option.bind_eq_some_iff.mp hn
  split at hk
  · next hlt =>
    cases hk
    rw [Int64.toInt_ofNat_of_lt hlt]
    exact Int.natCast_nonneg k
  · cases hk

end AttrChain.Text
