/-!
The shortest decimal that reads back as a given 64-bit number, computed exactly on natural
numbers. The number is `mantissa * 2 ^ exponent`; the decimals that round to it form an interval
that reaches half way to its two neighbours and holds its ends when the mantissa is even.
-/

namespace AttrChain.Decimal

/-- A positive finite number `mantissa * 2 ^ exponent`. -/
structure Binary where
  mantissa : Nat
  exponent : Int
  deriving DecidableEq

/-- The number `digits * 10 ^ exponent`. -/
structure Scientific where
  digits : Nat
  exponent : Int
  deriving DecidableEq

inductive Tie where
  | up
  | even
  deriving DecidableEq

def Binary.ofBits (bits : Nat) : Binary :=
  let e : Nat := bits / Nat.pow 2 52
  let m : Nat := bits % Nat.pow 2 52
  if e = 0 then ⟨m, -1074⟩ else ⟨Nat.pow 2 52 + m, Int.ofNat e - 1075⟩

/-- Compares `a * 10 ^ p` with `b * 2 ^ q`. -/
def compareScaled (a : Nat) (p : Int) (b : Nat) (q : Int) : Ordering :=
  compare (a * Nat.pow 10 p.toNat * Nat.pow 2 (-q).toNat)
    (b * Nat.pow 2 q.toNat * Nat.pow 10 (-p).toNat)

/-- Four times the mantissa of the lower end of the interval. Below a power of two the neighbour
is only half as far. -/
def Binary.low (b : Binary) : Nat :=
  if b.mantissa = Nat.pow 2 52 ∧ b.exponent ≠ -1074 then 4 * b.mantissa - 1 else 4 * b.mantissa - 2

def Binary.high (b : Binary) : Nat := 4 * b.mantissa + 2

/-- Whether `a * 10 ^ p` reads back as `b`. -/
def Binary.holds (b : Binary) (a : Nat) (p : Int) : Bool :=
  let lower := compareScaled a p b.low (b.exponent - 2)
  let upper := compareScaled a p b.high (b.exponent - 2)
  if b.mantissa % 2 = 0 then lower != .lt && upper != .gt else lower == .gt && upper == .lt

def Binary.leading (b : Binary) : Int :=
  let num := b.mantissa * Nat.pow 2 b.exponent.toNat
  let den := Nat.pow 2 (-b.exponent).toNat
  if den ≤ num then ((Nat.toDigits 10 (num / den)).length : Int) - 1
  else -((Nat.toDigits 10 (den / num)).length : Int)

def Binary.floorAt (b : Binary) (p : Int) : Nat :=
  b.mantissa * Nat.pow 2 b.exponent.toNat * Nat.pow 10 (-p).toNat /
    (Nat.pow 2 (-b.exponent).toNat * Nat.pow 10 p.toNat)

/-- The multiple of `10 ^ p` nearest to `b` among the two beside it that read back as `b`. -/
def Binary.onGrid? (b : Binary) (tie : Tie) (p : Int) : Option Nat :=
  let c := b.floorAt p
  match b.holds c p, b.holds (c + 1) p with
  | false, false => none
  | true, false => some c
  | false, true => some (c + 1)
  | true, true =>
    -- twice the middle of the two against twice `b`
    match compareScaled (2 * c + 1) p (2 * b.mantissa) b.exponent with
    | .lt => some (c + 1)
    | .gt => some c
    | .eq => match tie with
      | .up => some (c + 1)
      | .even => some (if c % 2 = 0 then c else c + 1)

def Binary.search (b : Binary) (tie : Tie) : Nat → Int → Scientific
  | 0, p => ⟨b.floorAt p, p⟩
  | more + 1, p => match b.onGrid? tie p with
    | some c => ⟨c, p⟩
    | none => b.search tie more (p - 1)

def Scientific.dropZeros : Nat → Scientific → Scientific
  | 0, d => d
  | more + 1, d =>
    if d.digits ≠ 0 ∧ d.digits % 10 = 0 then dropZeros more ⟨d.digits / 10, d.exponent + 1⟩ else d

/-- The decimal of fewest digits that reads back as `b`, and of those the nearest to it.
Seventeen digits always suffice. -/
def Binary.shortest (b : Binary) (tie : Tie) : Scientific :=
  (b.search tie 17 b.leading).dropZeros 20

end AttrChain.Decimal
