import AttrChain.Decimal.Nearest
import AttrChain.Json.Basic
import AttrChain.Text.Numeral

/-!
Numbers in JSON texts. A whole number that fits 64 bits stays whole. Any other number is computed
from its leading digits as far as they fit 64 bits, multiplied or divided by a power of ten.
-/

namespace AttrChain.Json

open AttrChain.Text

/-- Takes digits behind `significand` while the number fits 64 bits; gives the number and the
digits that are left. -/
def absorb (significand : Nat) : List Char → Nat × List Char
  | [] => (significand, [])
  | c :: rest =>
    let next := 10 * significand + digitValue c
    if next < Nat.pow 2 64 then absorb next rest else (significand, c :: rest)

/-- `x * 10 ^ exponent` by one multiplication or division, very small results in several steps.
There is no result beyond the largest number. -/
def scale? : Nat → Float → Int → Option Float
  | 0, x, _ => some x
  | more + 1, x, exponent =>
    if exponent.natAbs ≤ 308 then
      if 0 ≤ exponent then
        let y := x * Decimal.ofDecimal 1 exponent
        if y.isInf then none else some y
      else some (x / Decimal.ofDecimal 1 (-exponent))
    else if x == 0.0 then some x
    else if 0 ≤ exponent then none
    else scale? more (x / Decimal.ofDecimal 1 308) (exponent + 308)

def ofParts? (negative : Bool) (significand : Nat) (exponent : Int) : Option Json :=
  (scale? 4 (UInt64.ofNat significand).toFloat exponent).map fun x =>
    float (if negative then -x else x)

def readExponent? (cs : List Char) : Option (Int × List Char) :=
  let (negative, cs) := match cs with
    | '-' :: rest => (true, rest)
    | '+' :: rest => (false, rest)
    | cs => (false, cs)
  let digits := cs.takeWhile Char.isDigit
  if digits.isEmpty then none
  else
    let e : Int := appendDigits 10 0 digits
    some (if negative then -e else e, cs.dropWhile Char.isDigit)

def finish? (negative : Bool) (significand : Nat) (exponent : Int) (cs : List Char) :
    Option (Json × List Char) :=
  match cs with
  | mark :: rest =>
    if mark == 'e' || mark == 'E' then do
      let (e, rest) ← readExponent? rest
      return (← ofParts? negative significand (exponent + e), rest)
    else (ofParts? negative significand exponent).map (·, cs)
  | [] => (ofParts? negative significand exponent).map (·, cs)

/-- A whole number within 64 bits; a negative zero and what lies below the range are
floating-point. -/
def ofWhole (negative : Bool) (significand : Nat) : Json :=
  if negative then
    if significand = 0 ∨ Nat.pow 2 63 < significand then float (-(UInt64.ofNat significand).toFloat)
    else int (-significand)
  else int significand

def readMagnitude? (negative : Bool) (cs : List Char) : Option (Json × List Char) :=
  let digits := cs.takeWhile Char.isDigit
  let rest := cs.dropWhile Char.isDigit
  if digits.isEmpty || (digits.head? == some '0' && 1 < digits.length) then none
  else
    let (significand, left) := absorb 0 digits
    match rest with
    | '.' :: more =>
      let fraction := more.takeWhile Char.isDigit
      if fraction.isEmpty then none
      else
        let (significand, unread) := absorb significand fraction
        let exponent : Int := (left.length : Int) - ((fraction.length : Int) - unread.length)
        finish? negative significand exponent (more.dropWhile Char.isDigit)
    | mark :: _ =>
      if mark == 'e' || mark == 'E' || !left.isEmpty then
        finish? negative significand left.length rest
      else some (ofWhole negative significand, rest)
    | [] =>
      if left.isEmpty then some (ofWhole negative significand, rest)
      else finish? negative significand left.length rest

def readNumber? : List Char → Option (Json × List Char)
  | '-' :: rest => readMagnitude? true rest
  | cs => readMagnitude? false cs

end AttrChain.Json
