import AttrChain.Json.Reader
import AttrChain.Json.Printer
import AttrChain.Value.Basic

/-!
Values as JSON. A node is its number and the placeholder is `null`, so neither comes back.
-/

namespace AttrChain.Value

mutual

/-- The value as a JSON document; a floating-point number that is not finite is `null`. -/
def toJson : Value → Json
  | nil | null => .null
  | bool b => .bool b
  | int n => .int n.toInt
  | float x => if x.isFinite then .float x else .null
  | text s => .text s
  | list items => .array (toJsonItems items)
  | map entries => .object (toJsonFields entries)
  | node id => .int id.index

def toJsonItems : List Value → List Json
  | [] => []
  | v :: rest => toJson v :: toJsonItems rest

def toJsonFields : List (String × Value) → List (String × Json)
  | [] => []
  | (k, v) :: rest => (k, toJson v) :: toJsonFields rest

end

/-- A whole number, floating-point when it is beyond the signed 64-bit range. -/
def ofWhole (n : Int) : Value :=
  if -Int.pow 2 63 ≤ n ∧ n < Int.pow 2 63 then int (Int64.ofInt n)
  else float (UInt64.ofNat n.toNat).toFloat

mutual

def ofJson : Json → Value
  | .null => null
  | .bool b => bool b
  | .int n => ofWhole n
  | .float x => float x
  | .text s => text s
  | .array items => list (ofJsonItems items)
  | .object fields => ofEntries (ofJsonFields fields)

def ofJsonItems : List Json → List Value
  | [] => []
  | item :: rest => ofJson item :: ofJsonItems rest

def ofJsonFields : List (String × Json) → List (String × Value)
  | [] => []
  | (key, value) :: rest => (key, ofJson value) :: ofJsonFields rest

end

def read? (s : String) : Option Value := (Json.read? s).map ofJson

end AttrChain.Value
