import AttrChain.Dict
import AttrChain.NodeId

/-!
The values that flow through a chain, and when two of them are the same.
-/

namespace AttrChain

/-- A value. `nil` is the placeholder for "nothing here"; plain pushes drop it. The entries of a
map are in ascending order of their keys. -/
inductive Value where
  | nil
  | null
  | bool (b : Bool)
  | int (n : Int64)
  | float (x : Float)
  | text (s : String)
  | list (items : List Value)
  | map (entries : List (String × Value))
  | node (id : NodeId)

namespace Value

mutual

/-- Whether two values are the same. Floating-point numbers are compared as numbers, so not-a-number
differs from itself and the two zeros agree; a whole number never equals a floating-point one. -/
def same : Value → Value → Bool
  | nil, nil => true
  | null, null => true
  | bool a, bool b => a == b
  | int a, int b => a == b
  | float a, float b => a == b
  | text a, text b => a == b
  | list a, list b => sameItems a b
  | map a, map b => sameEntries a b
  | node a, node b => a == b
  | _, _ => false

def sameItems : List Value → List Value → Bool
  | [], [] => true
  | a :: as, b :: bs => same a b && sameItems as bs
  | _, _ => false

def sameEntries : List (String × Value) → List (String × Value) → Bool
  | [], [] => true
  | (k, a) :: as, (l, b) :: bs => k == l && same a b && sameEntries as bs
  | _, _ => false

end

instance : BEq Value := ⟨same⟩

instance : Inhabited Value := ⟨nil⟩

def isNil : Value → Bool
  | nil => true
  | _ => false

def filled? (v : Value) : Option Value := if v.isNil then none else some v

/-- The map with the given entries; of two with one key the later counts. -/
def ofEntries (entries : List (String × Value)) : Value := map (Dict.ofList entries)

end Value

end AttrChain
