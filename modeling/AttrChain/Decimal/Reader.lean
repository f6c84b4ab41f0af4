import AttrChain.Decimal.Nearest
import AttrChain.Text.Numeral

/-!
Reading floating-point numbers: an optional sign before a decimal with an optional fraction and
exponent, or before one of the words for infinity and not-a-number in any case.
-/

namespace AttrChain.Decimal

open AttrChain.Text

def folded (cs : List Char) : List Char := cs.map Char.toLower

def readExponent? : List Char → Option Int
  | '-' :: rest => (readNat? rest).map fun n => -Int.ofNat n
  | '+' :: rest => (readNat? rest).map Int.ofNat
  | cs => (readNat? cs).map Int.ofNat

/-- An unsigned decimal: digits with a point somewhere among them or beside them, and an
exponent. At least one digit stands before the exponent. -/
def readUnsigned? (cs : List Char) : Option Float :=
  let whole := cs.takeWhile Char.isDigit
  let rest := cs.dropWhile Char.isDigit
  let (fraction, rest) := match rest with
    | '.' :: more => (more.takeWhile Char.isDigit, more.dropWhile Char.isDigit)
    | other => ([], other)
  if whole.isEmpty && fraction.isEmpty then none
  else
    let digits := appendDigits 10 0 (whole ++ fraction)
    let places := Int.ofNat fraction.length
    match rest with
    | [] => some (ofDecimal digits (-places))
    | mark :: tail =>
      if mark == 'e' || mark == 'E' then
        (readExponent? tail).map fun e => ofDecimal digits (e - places)
      else none

/-- An unsigned number or one of the words `inf`, `infinity` and `nan`. -/
def readMagnitude? (cs : List Char) : Option Float :=
  if folded cs = ['i', 'n', 'f'] ∨ folded cs = ['i', 'n', 'f', 'i', 'n', 'i', 't', 'y'] then
    some (Float.ofBits 0x7FF0000000000000)
  else if folded cs = ['n', 'a', 'n'] then some (Float.ofBits 0x7FF8000000000000)
  else readUnsigned? cs

def readFloat? : List Char → Option Float
  | '-' :: rest => (readMagnitude? rest).map Float.neg
  | '+' :: rest => readMagnitude? rest
  | cs => readMagnitude? cs

end AttrChain.Decimal
