/-!
JSON documents.
-/

namespace AttrChain

/-- A JSON document. Whole numbers are kept apart from floating-point ones; the fields of an object
are listed in the order in which they are written. -/
inductive Json where
  | null
  | bool (b : Bool)
  | int (n : Int)
  | float (x : Float)
  | text (s : String)
  | array (items : List Json)
  | object (fields : List (String × Json))

namespace Json

instance : Inhabited Json := ⟨null⟩

def ofText? : Option String → Json
  | some s => text s
  | none => null

def ofNat? : Option Nat → Json
  | some n => int n
  | none => null

end Json

end AttrChain
