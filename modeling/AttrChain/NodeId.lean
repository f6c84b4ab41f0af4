/-!
Handles of nodes.
-/

namespace AttrChain

/-- The handle of a node: its place in the document that made it. -/
structure NodeId where
  index : Nat
  deriving DecidableEq

def NodeId.text (id : NodeId) : String := "#" ++ id.index.repr

end AttrChain
