/-!
Whole numbers written in decimal digits, read into 64-bit ranges.
-/

namespace AttrChain.Text

def digitValue (c : Char) : Nat :=
  if c.isDigit then c.toNat - 48
  else if c.isLower then c.toNat - 87
  else c.toNat - 55

def isHexDigit (c : Char) : Bool :=
  c.isDigit || ('a' ≤ c && c ≤ 'f') || ('A' ≤ c && c ≤ 'F')

def appendDigits (base : Nat) (n : Nat) (cs : List Char) : Nat :=
  cs.foldl (fun n c => base * n + digitValue c) n

def readNat? (cs : List Char) : Option Nat :=
  if cs.isEmpty || !cs.all Char.isDigit then none else some (appendDigits 10 0 cs)

/-- A position or count: decimal digits after an optional plus sign, below `2 ^ 64`. -/
def readSize? (cs : List Char) : Option Nat :=
  let digits := match cs with
    | '+' :: rest => rest
    | cs => cs
  (readNat? digits).bind fun n => if n < Nat.pow 2 64 then some n else none

/-- A signed number: decimal digits after an optional sign, within 64 bits. -/
def readInt? : List Char → Option Int64
  | '-' :: rest =>
    (readNat? rest).bind fun n => if n ≤ Nat.pow 2 63 then some (.ofInt (-n)) else none
  | '+' :: rest => (readNat? rest).bind fun n => if n < Nat.pow 2 63 then some (.ofNat n) else none
  | cs => (readNat? cs).bind fun n => if n < Nat.pow 2 63 then some (.ofNat n) else none

def hexDigit (d : Nat) : Char :=
  if d < 10 then Char.ofNat (48 + d) else Char.ofNat (87 + d)

def hex (n : Nat) : String := String.ofList (Nat.toDigits 16 n)

def hexPadded (width n : Nat) : String :=
  let digits := Nat.toDigits 16 n
  String.ofList (List.replicate (width - digits.length) '0' ++ digits)

def decimalPadded (width n : Nat) : String :=
  let digits := Nat.toDigits 10 n
  String.ofList (List.replicate (width - digits.length) '0' ++ digits)

theorem digitValue_hexDigit {d : Nat} (h : d < 16) : digitValue (hexDigit d) = d := by
  have all : ∀ e ∈ List.range 16, digitValue (hexDigit e) = e := by decide
  exact all d (List.mem_range.2 h)

end AttrChain.Text
