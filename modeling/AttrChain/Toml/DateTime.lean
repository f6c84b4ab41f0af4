import AttrChain.Text.Numeral

/-!
TOML dates and times, brought into one form of writing.
-/

namespace AttrChain.Toml

open AttrChain.Text

def readFixed? (width low high : Nat) (cs : List Char) : Option (Nat × List Char) :=
  (readNat? (cs.take width)).bind fun n =>
    if width ≤ cs.length ∧ low ≤ n ∧ n ≤ high then some (n, cs.drop width) else none

def readMark? (c : Char) : List Char → Option (List Char)
  | d :: rest => if c = d then some rest else none
  | [] => none

def daysOfMonth (year month : Nat) : Nat :=
  if month = 2 then
    if year % 4 = 0 ∧ (year % 100 ≠ 0 ∨ year % 400 = 0) then 29 else 28
  else if month = 4 ∨ month = 6 ∨ month = 9 ∨ month = 11 then 30
  else 31

def readDate? (cs : List Char) : Option (String × List Char) := do
  let (year, cs) ← readFixed? 4 0 9999 cs
  let cs ← readMark? '-' cs
  let (month, cs) ← readFixed? 2 1 12 cs
  let cs ← readMark? '-' cs
  let (day, cs) ← readFixed? 2 1 (daysOfMonth year month) cs
  return (decimalPadded 4 year ++ "-" ++ decimalPadded 2 month ++ "-" ++ decimalPadded 2 day, cs)

/-- The fraction of a second, cut after nine digits and without zeros at its end, and the rest. -/
def takeFraction (cs : List Char) : String × List Char :=
  match cs with
  | '.' :: rest =>
    let digits := rest.takeWhile Char.isDigit
    let kept := ((digits.take 9).reverse.dropWhile (· == '0')).reverse
    if digits.isEmpty then ("", cs)
    else (if kept.isEmpty then "" else String.ofList ('.' :: kept), rest.dropWhile Char.isDigit)
  | cs => ("", cs)

def readTime? (cs : List Char) : Option (String × List Char) := do
  let (hour, cs) ← readFixed? 2 0 23 cs
  let cs ← readMark? ':' cs
  let (minute, cs) ← readFixed? 2 0 59 cs
  let cs ← readMark? ':' cs
  let (second, cs) ← readFixed? 2 0 60 cs
  let (fraction, cs) := takeFraction cs
  return (decimalPadded 2 hour ++ ":" ++ decimalPadded 2 minute ++ ":" ++ decimalPadded 2 second
    ++ fraction, cs)

def readOffset? (sign : String) (cs : List Char) : Option (String × List Char) := do
  let (hours, cs) ← readFixed? 2 0 23 cs
  let cs ← readMark? ':' cs
  let (minutes, cs) ← readFixed? 2 0 59 cs
  let sign := if hours = 0 ∧ minutes = 0 then "+" else sign
  return (sign ++ decimalPadded 2 hours ++ ":" ++ decimalPadded 2 minutes, cs)

def takeOffset (cs : List Char) : String × List Char :=
  match cs with
  | 'Z' :: rest | 'z' :: rest => ("Z", rest)
  | '+' :: rest => (readOffset? "+" rest).getD ("", cs)
  | '-' :: rest => (readOffset? "-" rest).getD ("", cs)
  | _ => ("", cs)

def readTimeOfDate? : List Char → Option (String × List Char)
  | [] => none
  | c :: rest =>
    if c == 'T' || c == 't' || c == ' ' then
      (readTime? rest).map fun (time, rest) =>
        let (offset, rest) := takeOffset rest
        ("T" ++ time ++ offset, rest)
    else none

def readDateTime? (cs : List Char) : Option (String × List Char) :=
  match readDate? cs with
  | some (date, rest) =>
    let (time, rest) := (readTimeOfDate? rest).getD ("", rest)
    some (date ++ time, rest)
  | none => readTime? cs

end AttrChain.Toml
