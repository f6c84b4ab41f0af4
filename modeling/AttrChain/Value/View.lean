import AttrChain.Decimal.Reader
import AttrChain.Text.Cut
import AttrChain.Value.Basic

/-!
What a value means as a condition, as a number, as a text and as nodes.
-/

namespace AttrChain.Value

open AttrChain.Text AttrChain.Decimal

/-- Whether the value counts as true: not the placeholder, not null, not zero, not not-a-number and
not the empty text. Lists, maps and nodes always count. -/
def isTruthy : Value → Bool
  | nil | null => false
  | bool b => b
  | int n => n != 0
  | float x => x != 0.0 && !x.isNaN
  | text s => s != ""
  | list _ | map _ | node _ => true

/-- The value as a floating-point number: a text is read, and a truth value is 0 or 1. -/
def asFloat? : Value → Option Float
  | int n => some n.toFloat
  | float x => some x
  | bool b => some (if b then 1.0 else 0.0)
  | text s => readFloat? (trim s.toList)
  | _ => none

/-- A finite number cut toward zero, at the ends of the 64-bit range where it lies beyond. -/
def truncate (x : Float) : Int64 := x.toModel.toInt64

/-- The value as a whole number: a text is read, a finite number is cut toward zero. -/
def asInt? : Value → Option Int64
  | int n => some n
  | float x => if x.isFinite then some (truncate x) else none
  | bool b => some (if b then 1 else 0)
  | text s => readInt? (trim s.toList)
  | _ => none

def asText? : Value → Option String
  | text s => some s
  | _ => none

def asNode? : Value → Option NodeId
  | node id => some id
  | _ => none

/-- The nodes that the value is or directly holds. -/
def nodes : Value → List NodeId
  | node id => [id]
  | list items => items.filterMap asNode?
  | _ => []

end AttrChain.Value
