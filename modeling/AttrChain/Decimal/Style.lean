import AttrChain.Decimal.Shortest

/-!
Writing a floating-point number: its shortest decimal, laid out by a style.
-/

namespace AttrChain.Decimal

structure Style where
  /-- The exponents of the leading digit that are written positionally; all of them if absent. -/
  positional : Option (Int × Int)
  point : Bool
  plus : Bool
  tie : Tie
  notANumber : String
  infinite : String
  minusInfinite : String

def Scientific.leading (d : Scientific) : Int :=
  d.exponent + ((Nat.toDigits 10 d.digits).length : Int) - 1

def Style.layout (s : Style) (d : Scientific) : List Char :=
  let digits := Nat.toDigits 10 d.digits
  let e := d.leading
  let plain := match s.positional with
    | none => true
    | some (low, high) => low ≤ e && e ≤ high
  if plain then
    if 0 ≤ d.exponent then
      digits ++ List.replicate d.exponent.toNat '0' ++ (if s.point then ['.', '0'] else [])
    else if 0 ≤ e then
      digits.take (e.toNat + 1) ++ '.' :: digits.drop (e.toNat + 1)
    else
      '0' :: '.' :: List.replicate (-e - 1).toNat '0' ++ digits
  else
    let mantissa := match digits with
      | first :: second :: rest => first :: '.' :: second :: rest
      | short => short
    let sign := if e < 0 then ['-'] else if s.plus then ['+'] else []
    mantissa ++ 'e' :: sign ++ Nat.toDigits 10 e.natAbs

def Style.ofBits (s : Style) (bits : Nat) : String :=
  let negative := Nat.pow 2 63 ≤ bits
  let size := bits % Nat.pow 2 63
  if 0x7FF * Nat.pow 2 52 < size then s.notANumber
  else if size = 0x7FF * Nat.pow 2 52 then if negative then s.minusInfinite else s.infinite
  else
    let digits :=
      if size = 0 then if s.point then ['0', '.', '0'] else ['0']
      else s.layout ((Binary.ofBits size).shortest s.tie)
    String.ofList (if negative then '-' :: digits else digits)

def Style.write (s : Style) (x : Float) : String := s.ofBits x.toBits.toNat

/-- Numbers shown to the reader: never an exponent, and no point behind a whole number. -/
def Style.plain : Style :=
  { positional := none, point := false, plus := false, tie := .up,
    notANumber := "NaN", infinite := "inf", minusInfinite := "-inf" }

/-- Numbers in diagnostic output: always a point or an exponent, the latter below `1e-4` and
from `1e16` on. -/
def Style.diagnostic : Style :=
  { positional := some (-4, 15), point := true, plus := false, tie := .up,
    notANumber := "NaN", infinite := "inf", minusInfinite := "-inf" }

/-- Numbers in JSON: an exponent below `1e-5` and from `1e16` on; what is not finite is `null`. -/
def Style.json : Style :=
  { positional := some (-5, 15), point := true, plus := true, tie := .even,
    notANumber := "null", infinite := "null", minusInfinite := "null" }

end AttrChain.Decimal
