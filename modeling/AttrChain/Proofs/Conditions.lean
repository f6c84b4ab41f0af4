import Mathlib
import AttrChain.Filter.Eval
import AttrChain.Proofs.Precedence

/-!
Which matches a bare value keeps: those whose answer counts as true, unless it is a number between
minus one and one. Such a number counts as true by itself, but as an operand it is cut to 0.
-/

namespace AttrChain

open AttrChain.Text

namespace Value

open Float.Model Float.Model.UnpackedFloat

/-- A number other than zero between minus one and one. -/
def isFraction : Value → Bool
  | float x => x != 0.0 && (-1.0 < x && x < 1.0)
  | _ => false

section Truncation

variable {x : Float} {sign : Sign} {m : Nat} {e : Int}

theorem mantissa_shiftRight (em : ExtendedMantissa) (n : Nat) :
    (em >>> n).mantissa = em.mantissa / 2 ^ n := by
  induction n with
  | zero => exact (Nat.div_one _).symm
  | succ n ih =>
    have hstep : (em >>> (n + 1)).mantissa = (em >>> n).mantissa / 2 := rfl
    rw [hstep, ih, Nat.div_div_eq_div_mul, Nat.pow_succ]

theorem roundToInt_eq (sign : Sign) (m : Nat) (e : Int) :
    roundToInt sign m e = sign.apply ((m * 2 ^ e.toNat / 2 ^ (-e).toNat : Nat) : Int) := by
  -- of the two shifts one is by nothing
  have hplace : (0 - (e - (e.toNat : Int))).toNat = (-e).toNat := by omega
  unfold roundToInt decreaseExponent shiftToExponent
  simp only [Int.sub_zero, hplace, mantissa_shiftRight, ExtendedMantissa.ofMantissaAndAccuracy,
    Nat.shiftLeft_eq]

theorem apply_eq_zero_iff (sign : Sign) (k : Int) : sign.apply k = 0 ↔ k = 0 := by
  cases sign with
  | positive => rfl
  | negative => exact Int.neg_eq_zero

/-- A significand fills its 53 bits, but for the numbers next to zero. -/
theorem finite_bounds {f : Float.Model} {hm : 0 < m} (h : f.unpack = .finite sign m e hm) :
    m < 2 ^ 53 ∧ (2 ^ 52 ≤ m ∨ e = -1074) := by
  have hbits : (@unpackMantissa .binary64 f.toBits.toBitVec).toNat < 2 ^ 52 :=
    BitVec.isLt _
  unfold Float.Model.unpack UnpackedFloat.unpack at h
  dsimp only at h
  split at h
  · split at h <;> cases h
  split at h
  · next hzero =>
    split at h
    · cases h
    · cases h
      rw [hzero]
      exact ⟨Nat.lt_trans hbits (by decide), .inr rfl⟩
  · cases h
    have hleading : (1#1 ++ @unpackMantissa .binary64 f.toBits.toBitVec).toNat =
        2 ^ 52 + (@unpackMantissa .binary64 f.toBits.toBitVec).toNat := by
      rw [BitVec.toNat_append, ← Nat.shiftLeft_add_eq_or_of_lt hbits]
      rfl
    rw [hleading]
    omega

theorem magnitude_eq_zero_iff (hbits : m < 2 ^ 53) (hnormal : 2 ^ 52 ≤ m ∨ e = -1074) :
    m * 2 ^ e.toNat / 2 ^ (-e).toNat = 0 ↔ e < -52 := by
  rw [Nat.div_eq_zero_iff_lt (Nat.two_pow_pos _)]
  constructor
  · intro h
    refine Int.lt_of_not_ge fun hge => ?_
    have hlarge : 2 ^ 52 ≤ m := hnormal.resolve_right (by omega)
    have hup : m ≤ m * 2 ^ e.toNat := Nat.le_mul_of_pos_right m (Nat.two_pow_pos _)
    have hdown : 2 ^ (-e).toNat ≤ 2 ^ 52 := Nat.pow_le_pow_right (by decide) (by omega)
    omega
  · intro h
    have hnone : e.toNat = 0 := by omega
    have hdown : 2 ^ 53 ≤ 2 ^ (-e).toNat := Nat.pow_le_pow_right (by decide) (by omega)
    rw [hnone]
    omega

theorem ofIntClamp_eq_zero_iff {n : Int} : Int64.ofIntClamp n = 0 ↔ n = 0 := by
  constructor
  · intro h
    by_cases hlow : Int64.minValue.toInt ≤ n
    · by_cases hhigh : n ≤ Int64.maxValue.toInt
      · rw [← Int64.toInt_ofIntClamp hlow hhigh, h]
        rfl
      · rw [Int64.ofIntClamp, dif_pos hlow, dif_neg hhigh] at h
        cases h
    · rw [Int64.ofIntClamp, dif_neg hlow] at h
      cases h
  · rintro rfl
    rfl

theorem float_lt_one_iff : x < 1.0 ↔
    x.toModel.unpack.compare (.finite .positive (2 ^ 52) (-52) (by decide)) = some .lt := by
  have hone : (1.0 : Float).toModel.unpack = .finite .positive (2 ^ 52) (-52) (by decide) := rfl
  have hlt : x < 1.0 ↔ x.toModel.unpack.lt (1.0 : Float).toModel.unpack = true :=
    decide_eq_true_iff
  rw [hlt, hone]
  exact beq_iff_eq

theorem minus_one_lt_float_iff : -1.0 < x ↔
    (finite .negative (2 ^ 52) (-52) (by decide)).compare x.toModel.unpack = some .lt := by
  have hone : (-1.0 : Float).toModel.unpack = .finite .negative (2 ^ 52) (-52) (by decide) := rfl
  have hlt : -1.0 < x ↔ (-1.0 : Float).toModel.unpack.lt x.toModel.unpack = true :=
    decide_eq_true_iff
  rw [hlt, hone]
  exact beq_iff_eq

theorem truncate_eq_zero_iff (h : x.isFinite = true) :
    truncate x = 0 ↔ -1.0 < x ∧ x < 1.0 := by
  have hcut : truncate x =
      .ofIntClamp (x.toModel.unpack.toInt Int64.minValue.toInt Int64.maxValue.toInt) := rfl
  have hfinite : x.toModel.unpack.isFinite = true := h
  rw [hcut, ofIntClamp_eq_zero_iff, minus_one_lt_float_iff, float_lt_one_iff]
  cases hx : x.toModel.unpack with
  | notANumber =>
    rw [hx] at hfinite
    cases hfinite
  | infinity sign =>
    rw [hx] at hfinite
    cases hfinite
  | zero sign => cases sign <;> decide
  | finite sign m e hm =>
    obtain ⟨hbits, hnormal⟩ := finite_bounds hx
    have hint : toInt Int64.minValue.toInt Int64.maxValue.toInt (.finite sign m e hm) = 0 ↔
        e < -52 := by
      rw [toInt, roundToInt_eq, apply_eq_zero_iff, Int.natCast_eq_zero,
        magnitude_eq_zero_iff hbits hnormal]
    -- a number is below one if its exponent is that of a number below one
    have hbelow : (compare e (-52)).then (compare m (2 ^ 52)) = .lt ↔ e < -52 := by
      rw [Ordering.then_eq_lt, Int.compare_eq_lt, Int.compare_eq_eq, Nat.compare_eq_lt]
      omega
    have habove : ((compare (-52) e).then (compare (2 ^ 52) m)).swap = .lt ↔ e < -52 := by
      rw [Ordering.swap_then, Int.compare_swap, Nat.compare_swap]
      exact hbelow
    rw [hint]
    cases sign with
    | positive => simp only [UnpackedFloat.compare, Option.some.injEq, hbelow, true_and]
    | negative => simp only [UnpackedFloat.compare, Option.some.injEq, habove, and_true]

theorem isFinite_of_between (hlow : -1.0 < x) (hhigh : x < 1.0) : x.isFinite = true := by
  rw [minus_one_lt_float_iff] at hlow
  rw [float_lt_one_iff] at hhigh
  have hfinite : x.isFinite = x.toModel.unpack.isFinite := rfl
  rw [hfinite]
  cases hx : x.toModel.unpack with
  | notANumber =>
    rw [hx] at hhigh
    cases hhigh
  | infinity sign =>
    rw [hx] at hlow hhigh
    cases sign with
    | positive => cases hhigh
    | negative => cases hlow
  | zero sign => rfl
  | finite sign m e hm => rfl

theorem isNaN_of_isFinite (h : x.isFinite = true) : x.isNaN = false := by
  have hfinite : x.toModel.unpack.isFinite = true := h
  have hnan : x.isNaN = x.toModel.unpack.isNaN := rfl
  rw [hnan]
  cases hx : x.toModel.unpack with
  | notANumber =>
    rw [hx] at hfinite
    cases hfinite
  | infinity sign => rfl
  | zero sign => rfl
  | finite sign m e hm => rfl

end Truncation

theorem isFraction_eq_true_iff {x : Float} :
    (float x).isFraction = true ↔ (x != 0.0) = true ∧ -1.0 < x ∧ x < 1.0 := by
  simp only [isFraction, Bool.and_eq_true, decide_eq_true_eq]

theorem isTruthy_of_isFraction {v : Value} (h : v.isFraction = true) : v.isTruthy = true := by
  cases v with
  | float x =>
    obtain ⟨hzero, hlow, hhigh⟩ := isFraction_eq_true_iff.mp h
    rw [isTruthy, hzero, isNaN_of_isFinite (isFinite_of_between hlow hhigh)]
    rfl
  | _ => cases h

end Value

namespace Filter

namespace Operand

theorem ofValue?_of_not_text {v : Value} (h : ∀ s, v ≠ .text s) :
    ofValue? (some v) = if v.isTruthy then int (v.asInt?.getD 1) else int 0 := by
  cases v with
  | text s => exact absurd rfl (h s)
  | _ => rfl

theorem isTruthy_ofValue?_float (x : Float) : (ofValue? (some (.float x))).isTruthy =
    ((Value.float x).isTruthy && !(Value.float x).isFraction) := by
  cases htruthy : (Value.float x).isTruthy with
  | false =>
    rw [ofValue?_of_not_text fun _ => Value.noConfusion, htruthy]
    rfl
  | true =>
    rw [ofValue?_of_not_text fun _ => Value.noConfusion, if_pos htruthy, Value.asInt?, Bool.true_and]
    have hnonzero : (x != 0.0) = true := (Bool.and_eq_true_iff.mp htruthy).1
    by_cases hfinite : x.isFinite = true
    · rw [if_pos hfinite, Option.getD_some, isTruthy, Bool.eq_iff_iff, bne_iff_ne, Ne,
        Value.truncate_eq_zero_iff hfinite, Bool.not_eq_true', ← Bool.not_eq_true,
        Value.isFraction_eq_true_iff]
      simp only [hnonzero, true_and]
    · have hwhole : (Value.float x).isFraction = false := by
        rw [← Bool.not_eq_true, Value.isFraction_eq_true_iff]
        rintro ⟨-, hlow, hhigh⟩
        exact hfinite (Value.isFinite_of_between hlow hhigh)
      rw [if_neg hfinite, hwhole]
      rfl

/-- As an operand an answer counts as true if it does by itself and is no fraction. -/
theorem isTruthy_ofValue? (v : Value) :
    (ofValue? (some v)).isTruthy = (v.isTruthy && !v.isFraction) := by
  cases v with
  | float x => exact isTruthy_ofValue?_float x
  | text s => exact (Bool.and_true _).symm
  | int n =>
    by_cases hzero : n = 0
    · rw [hzero]
      rfl
    · have htruthy : (Value.int n).isTruthy = true := bne_iff_ne.mpr hzero
      rw [ofValue?_of_not_text fun _ => Value.noConfusion, if_pos htruthy, htruthy]
      exact htruthy
  | bool b => cases b <;> rfl
  | _ => rfl

end Operand

namespace Expr

variable {field : Option String} {m : Match}

def bareText : Option String → List Char
  | none => ['v']
  | some name => 'v' :: '.' :: name.toList

theorem written_item (field : Option String) : (item field).written = bareText field := by
  cases field with
  | none => rfl
  | some name =>
    have hwritten : (item (some name)).written = ("v." ++ name).toList :=
      @List.intercalate_singleton Char [' '] _
    rw [hwritten, toList_field, bareText]

theorem read_bang_bare (h : (item field).Writable) :
    read ('!' :: bareText field) = .ok (.not (item field)) := by
  have hnot : (Expr.not (item field)).Writable := h
  have htokens : (Expr.not (item field)).tokens = .bang :: (item field).tokens := rfl
  have hlength := h.length_tokens_le
  rw [written_item] at hlength
  have hitem : readTokens (bareText field).length (bareText field) = .ok (item field).tokens := by
    have hread := readTokens_writtenAll h.tokens hlength
    rwa [← written, written_item] at hread
  -- the sign needs no space behind it, since no value starts with an equals sign
  have hbang : Token.ReadsBack (bareText field) .bang := by
    cases field <;> exact ⟨_, _, rfl, by decide, rfl⟩
  refine read_eq_ok.mpr ⟨_, readTokens_of_readsBack hbang hitem, ?_⟩
  rw [← htokens]
  exact hnot.ofTokens_tokens

theorem keeps_item : (item field).keeps m = true ↔
    ∃ v ∈ m.read field, v.isTruthy = true ∧ v.isFraction = false := by
  have hkeeps : (item field).keeps m = (Operand.ofValue? (m.read field)).isTruthy := rfl
  rw [hkeeps]
  cases m.read field with
  | none => simp [Operand.ofValue?, Operand.isTruthy]
  | some v => simp [Operand.isTruthy_ofValue?]

theorem keeps_not (e : Expr) : (Expr.not e).keeps m = !e.keeps m :=
  Operand.isTruthy_ofBool _

/-- A bare value keeps a match if and only if the answer counts as true and is no fraction, and its
negation keeps all others. So truth is kept just for the answers that are no fractions. -/
theorem bare_value_keeps_iff
    (hfield : ∀ name ∈ field, name ≠ "" ∧ ∀ c ∈ name.toList, isAlphanumeric c = true ∨ c = '_')
    (m : Match) :
    ∃ e negated, read (bareText field) = .ok e ∧ read ('!' :: bareText field) = .ok negated ∧
      (e.keeps m = true ↔ ∃ v ∈ m.read field, v.isTruthy = true ∧ v.isFraction = false) ∧
      (negated.keeps m = true ↔
        ¬ ∃ v ∈ m.read field, v.isTruthy = true ∧ v.isFraction = false) ∧
      ((e.keeps m = true ↔ ∃ v ∈ m.read field, v.isTruthy = true) ↔
        ∀ v ∈ m.read field, v.isFraction = false) := by
  have hwritable : (item field).Writable := by
    cases field with
    | none => trivial
    | some name => exact hfield name rfl
  have hread := hwritable.read_written
  rw [written_item] at hread
  refine ⟨item field, .not (item field), hread, read_bang_bare hwritable, keeps_item, ?_, ?_⟩
  · rw [keeps_not, ← keeps_item, Bool.not_eq_true', Bool.not_eq_true]
  · rw [keeps_item]
    constructor
    · intro hsame v hv
      cases hfraction : v.isFraction with
      | false => rfl
      | true =>
        obtain ⟨w, hw, -, hwhole⟩ := hsame.mpr ⟨v, hv, Value.isTruthy_of_isFraction hfraction⟩
        rw [Option.mem_unique hv hw, hwhole] at hfraction
        cases hfraction
    · intro hwhole
      constructor
      · rintro ⟨v, hv, htruthy, -⟩
        exact ⟨v, hv, htruthy⟩
      · rintro ⟨v, hv, htruthy⟩
        exact ⟨v, hv, htruthy, hwhole v hv⟩

def answering (x : Float) : Match := ⟨0, 1, fun _ => some (.float x)⟩

theorem two_and_a_half_kept :
    "size" ≠ "" ∧ (∀ c ∈ "size".toList, isAlphanumeric c = true ∨ c = '_') ∧
      ∃ e, read "v.size".toList = .ok e ∧ e.keeps (answering 2.5) = true := by
  have hall : "size".toList.all isAlphanumeric = true := by decide
  have hname : "size" ≠ "" ∧ ∀ c ∈ "size".toList, isAlphanumeric c = true ∨ c = '_' :=
    ⟨by decide, fun c hc => .inl (List.all_eq_true.mp hall c hc)⟩
  have hfield : ∀ name ∈ some "size",
      name ≠ "" ∧ ∀ c ∈ name.toList, isAlphanumeric c = true ∨ c = '_' := by
    rintro name ⟨⟩
    exact hname
  obtain ⟨e, -, hread, -, hkept, -⟩ := bare_value_keeps_iff hfield (answering 2.5)
  exact ⟨hname.1, hname.2, e, hread, hkept.mpr ⟨.float 2.5, rfl, by decide, by decide⟩⟩

/-- Not every answer that counts as true keeps its match: a half is dropped, and kept by the
negation. -/
theorem half_dropped :
    (Value.float 0.5).isTruthy = true ∧
      read "v.size".toList = .ok (.item (some "size")) ∧
      (Expr.item (some "size")).keeps (answering 0.5) = false ∧
      read "!v.size".toList = .ok (.not (.item (some "size"))) ∧
      (Expr.not (.item (some "size"))).keeps (answering 0.5) = true :=
  ⟨by decide, ok_of_toOption (by decide +kernel), by decide, ok_of_toOption (by decide +kernel),
    by decide⟩

end Expr

end Filter

end AttrChain
