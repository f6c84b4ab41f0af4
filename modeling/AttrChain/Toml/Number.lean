import AttrChain.Decimal.Reader

/-!
TOML numbers. Single underscores may stand between digits.
-/

namespace AttrChain.Toml

open AttrChain.Text AttrChain.Decimal

/-- Digits with single underscores between them, given without the underscores, and the rest. -/
def digitRun (p : Char → Bool) : List Char → List Char × List Char
  | [] => ([], [])
  | '_' :: c :: rest =>
    if p c then
      let (ds, rest) := digitRun p rest
      (c :: ds, rest)
    else ([], '_' :: c :: rest)
  | c :: rest =>
    if p c then
      let (ds, rest) := digitRun p rest
      (c :: ds, rest)
    else ([], c :: rest)

def readDigits? (p : Char → Bool) : List Char → Option (List Char × List Char)
  | c :: rest =>
    if p c then
      let (ds, rest) := digitRun p rest
      some (c :: ds, rest)
    else none
  | [] => none

def takeSign : List Char → List Char × List Char
  | '+' :: rest => (['+'], rest)
  | '-' :: rest => (['-'], rest)
  | cs => ([], cs)

/-- The digits of a decimal whole number with its sign, and the rest. A zero in front of other
digits stands alone. -/
def readWhole? (cs : List Char) : Option (List Char × List Char) :=
  let (sign, cs) := takeSign cs
  let digits? := match cs with
    | '0' :: rest => some (['0'], rest)
    | cs => readDigits? Char.isDigit cs
  digits?.map fun (ds, rest) => (sign ++ ds, rest)

def readFraction? : List Char → Option (List Char × List Char)
  | '.' :: rest => (readDigits? Char.isDigit rest).map fun (ds, rest) => ('.' :: ds, rest)
  | _ => none

def readExponent? : List Char → Option (List Char × List Char)
  | [] => none
  | c :: rest =>
    if c == 'e' || c == 'E' then
      let (sign, rest) := takeSign rest
      (readDigits? Char.isDigit rest).map fun (ds, rest) => ('e' :: sign ++ ds, rest)
    else none

def orNothing (read : List Char → Option (List Char × List Char)) (cs : List Char) :
    List Char × List Char :=
  (read cs).getD ([], cs)

/-- A number with a fraction or an exponent, and the rest. One beyond the largest is refused. -/
def readDecimal? (cs : List Char) : Option (Float × List Char) := do
  let (whole, rest) ← readWhole? cs
  let (fraction, rest) := orNothing readFraction? rest
  let (exponent, rest) := orNothing readExponent? rest
  if fraction.isEmpty && exponent.isEmpty then none
  else
    let x ← readFloat? (whole ++ fraction ++ exponent)
    if x == Float.ofBits 0x7FF0000000000000 then none else some (x, rest)

def readSpecial? (cs : List Char) : Option (Float × List Char) :=
  let (sign, cs) := takeSign cs
  let signed (bits : UInt64) : Float :=
    if sign = ['-'] then (Float.ofBits bits).neg else Float.ofBits bits
  match cs with
  | 'i' :: 'n' :: 'f' :: rest => some (signed 0x7FF0000000000000, rest)
  | 'n' :: 'a' :: 'n' :: rest => some (signed 0x7FF8000000000000, rest)
  | _ => none

def readBased? : List Char → Option (Int × List Char)
  | '0' :: mark :: rest =>
    let base? : Option (Nat × (Char → Bool)) := match mark with
      | 'x' => some (16, isHexDigit)
      | 'o' => some (8, fun c => '0' ≤ c && c ≤ '7')
      | 'b' => some (2, fun c => c == '0' || c == '1')
      | _ => none
    base?.bind fun (base, p) => (readDigits? p rest).bind fun (ds, rest) =>
      let n := appendDigits base 0 ds
      if n < Nat.pow 2 63 then some (Int.ofNat n, rest) else none
  | _ => none

def readInteger? (cs : List Char) : Option (Int × List Char) :=
  match readBased? cs with
  | some found => some found
  | none => (readWhole? cs).bind fun (ds, rest) =>
    (readInt? ds).map fun n => (n.toInt, rest)

end AttrChain.Toml
