import AttrChain.Filter.Basic
import AttrChain.Value.View

/-!
Evaluating filter expressions. Arithmetic is on 64-bit numbers and wraps around; a quotient or
remainder that does not exist is 0.
-/

namespace AttrChain.Filter

open AttrChain.Text

inductive Operand where
  | int (n : Int64)
  | text (s : String)
  deriving DecidableEq

/-- The match that a filter is evaluated for: its place, the number of matches, and what it answers
when it is asked for itself or for a field. -/
structure Match where
  index : Nat
  count : Nat
  read : Option String → Option Value

namespace Operand

/-- An answer as an operand: a text as it is, what counts as false as 0, and anything else as its
number, or 1 if it has none. -/
def ofValue? : Option Value → Operand
  | some (.text s) => text s
  | some v => if v.isTruthy then int (v.asInt?.getD 1) else int 0
  | none => int 0

def ofBool (b : Bool) : Operand := int (if b then 1 else 0)

def number? : Operand → Option Int64
  | int n => some n
  | text s => readInt? (trim s.toList)

/-- The operand as a number, 0 for a text that has none. -/
def number (o : Operand) : Int64 := o.number?.getD 0

def isTruthy : Operand → Bool
  | int n => n != 0
  | text s => s != ""

theorem isTruthy_ofBool (b : Bool) : (ofBool b).isTruthy = b := by
  cases b <;> decide

/-- How two operands compare: two texts by their characters, otherwise as numbers. -/
def compare? : Operand → Operand → Option Ordering
  | text a, text b => some (if a < b then .lt else if a = b then .eq else .gt)
  | a, b => do
    let x ← a.number?
    let y ← b.number?
    return if x < y then .lt else if x = y then .eq else .gt

end Operand

/-- The quotient cut toward zero, or 0 if there is none within 64 bits. -/
def quotient (a b : Int64) : Int64 :=
  if b = 0 ∨ (a = Int64.minValue ∧ b = -1) then 0 else a / b

/-- The remainder of the quotient cut toward zero, or 0 if there is no such quotient. -/
def remainder (a b : Int64) : Int64 :=
  if b = 0 ∨ (a = Int64.minValue ∧ b = -1) then 0 else a % b

def Op.apply (op : Op) (a b : Operand) : Operand :=
  let order := a.compare? b
  match op with
  | or => .ofBool (a.isTruthy || b.isTruthy)
  | and => .ofBool (a.isTruthy && b.isTruthy)
  | eq => .ofBool (order == some .eq)
  | ne => .ofBool (order != some .eq)
  | lt => .ofBool (order == some .lt)
  | le => .ofBool (order == some .lt || order == some .eq)
  | gt => .ofBool (order == some .gt)
  | ge => .ofBool (order == some .gt || order == some .eq)
  | add => .int (a.number + b.number)
  | sub => .int (a.number - b.number)
  | mul => .int (a.number * b.number)
  | div => .int (quotient a.number b.number)
  | mod => .int (remainder a.number b.number)

namespace Expr

def eval (m : Match) : Expr → Operand
  | num n => .int n
  | text s => .text s
  | index => .int (.ofNat m.index)
  | count => .int (.ofNat m.count)
  | item field => .ofValue? (m.read field)
  | not e => .ofBool (!(e.eval m).isTruthy)
  | neg e => .int (-(e.eval m).number)
  | binary op left right => op.apply (left.eval m) (right.eval m)

def keeps (e : Expr) (m : Match) : Bool := (e.eval m).isTruthy

end Expr

end AttrChain.Filter
