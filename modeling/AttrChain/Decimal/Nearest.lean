/-!
Rounding to binary floating point: the 64-bit number nearest to a fraction or to a decimal.
-/

namespace AttrChain.Decimal

def roundEven (num den : Nat) : Nat :=
  let q := num / den
  let twice := 2 * (num % den)
  if twice < den then q
  else if den < twice then q + 1
  else if q % 2 = 0 then q else q + 1

/-- `num * 2 ^ (-q) / den`, as a fraction. -/
def scaled (num den : Nat) (q : Int) : Nat × Nat :=
  if q < 0 then (num * Nat.pow 2 (-q).toNat, den) else (num, den * Nat.pow 2 q.toNat)

/-- The exponent of the last place of the number nearest to `num / den`, for `num` and `den`
positive: the quotient then has 53 binary digits, or fewer where the exponents end. -/
def lastPlace (num den : Nat) : Int :=
  let q : Int := (num.log2 : Int) - (den.log2 : Int) - 52
  let (n, d) := scaled num den q
  let q := if n / d < Nat.pow 2 52 then q - 1 else q
  if q < -1074 then -1074 else q

/-- The bits of the non-negative number nearest to `num / den`, a tie to the even neighbour. -/
def nearestBits (num den : Nat) : Nat :=
  if num = 0 then 0
  else
    let q := lastPlace num den
    let (n, d) := scaled num den q
    let m := roundEven n d
    let bits := if m < Nat.pow 2 52 then m else (q + 1075).toNat * Nat.pow 2 52 + (m - Nat.pow 2 52)
    if bits < 0x7FF * Nat.pow 2 52 then bits else 0x7FF * Nat.pow 2 52

def nearest (num den : Nat) : Float := Float.ofBits (UInt64.ofNat (nearestBits num den))

/-- The number nearest to `digits * 10 ^ exponent`. Magnitudes past the ends of the range are
settled by counting digits, so that no power of a huge exponent is computed. -/
def ofDecimal (digits : Nat) (exponent : Int) : Float :=
  if digits = 0 then 0.0
  else
    let top := (Nat.toDigits 10 digits).length + exponent
    if 310 < top then Float.ofBits 0x7FF0000000000000
    else if top < -330 then 0.0
    else if exponent < 0 then nearest digits (Nat.pow 10 (-exponent).toNat)
    else nearest (digits * Nat.pow 10 exponent.toNat) 1

end AttrChain.Decimal
