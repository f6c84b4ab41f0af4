import AttrChain.Text.Numeral

/-!
Moments and their dates in the Gregorian calendar, in universal time.
-/

namespace AttrChain

structure Date where
  year : Int
  month : Nat
  day : Nat
  deriving DecidableEq

/-- The day that is `n` days after 1 January 1970. Days are counted from 1 March of a year 0, in
spans of 400 years, so that a leap day is always the last day of its year. -/
def Date.ofDays (n : Int) : Date :=
  let shifted := n + 719468
  let era := shifted.fdiv 146097
  let dayOfEra := (shifted.fmod 146097).toNat
  let year := (dayOfEra - dayOfEra / 1460 + dayOfEra / 36524 - dayOfEra / 146096) / 365
  let dayOfYear := dayOfEra - (365 * year + year / 4 - year / 100)
  let month := (5 * dayOfYear + 2) / 153
  let day := dayOfYear - (153 * month + 2) / 5 + 1
  if month < 10 then ⟨era * 400 + year, month + 3, day⟩
  else ⟨era * 400 + year + 1, month - 9, day⟩

structure Moment where
  seconds : Int
  nanos : Nat
  deriving DecidableEq

namespace Moment

open AttrChain.Text

def epoch : Moment := ⟨0, 0⟩

def dateText (m : Moment) : String :=
  let d := Date.ofDays (m.seconds.fdiv 86400)
  decimalPadded 4 d.year.toNat ++ "-" ++ decimalPadded 2 d.month ++ "-" ++ decimalPadded 2 d.day

def timeText (m : Moment) : String :=
  let s := (m.seconds.fmod 86400).toNat
  decimalPadded 2 (s / 3600) ++ ":" ++ decimalPadded 2 (s / 60 % 60) ++ ":"
    ++ decimalPadded 2 (s % 60)

/-- The fraction of the second: nothing, or three, six or nine digits as they are needed. -/
def fractionText (m : Moment) : String :=
  if m.nanos = 0 then ""
  else if m.nanos % 1000000 = 0 then "." ++ decimalPadded 3 (m.nanos / 1000000)
  else if m.nanos % 1000 = 0 then "." ++ decimalPadded 6 (m.nanos / 1000)
  else "." ++ decimalPadded 9 m.nanos

def text (m : Moment) : String := m.dateText ++ " " ++ m.timeText ++ " UTC"

def stamp (m : Moment) : String := m.dateText ++ "T" ++ m.timeText ++ m.fractionText ++ "Z"

end Moment

example : Moment.epoch.text = "1970-01-01 00:00:00 UTC" := by decide +kernel

example : Date.ofDays 19782 = ⟨2024, 2, 29⟩ ∧ Date.ofDays (-1) = ⟨1969, 12, 31⟩ := by decide +kernel

end AttrChain
