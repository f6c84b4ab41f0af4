import AttrChain.Document.Node
import AttrChain.Selector.Reader

/-!
Documents: nodes in the order of their making, each with its parent and its children. Node 0 is the
root.
-/

namespace AttrChain

/-- The nodes of a document; the handle of a node is its place in the list. -/
structure Document where
  nodes : List Node

namespace Document

def root : NodeId := ⟨0⟩

def empty : Document := ⟨[Node.blank root "html" none]⟩

def node? (d : Document) (id : NodeId) : Option Node := d.nodes[id.index]?

def modify (d : Document) (id : NodeId) (f : Node → Node) : Document :=
  ⟨d.nodes.modify id.index f⟩

/-- Appends a node under a parent, the root if none is named, and gives its handle. -/
def create (d : Document) (tag : String) (parent : Option NodeId) : NodeId × Document :=
  let parent := parent.getD root
  let id : NodeId := ⟨d.nodes.length⟩
  let d : Document := ⟨d.nodes ++ [Node.blank id tag (some parent)]⟩
  (id, d.modify parent fun n => { n with children := n.children ++ [id] })

/-- The handle in print: `#name` for a node with an `id`, else the tag with the number behind. -/
def label (d : Document) (id : NodeId) : String :=
  match d.node? id with
  | none => id.text
  | some n => match n.name with
    | some name => "#" ++ name
    | none => n.tag ++ "@" ++ id.index.repr

def pathFrom (d : Document) : Nat → NodeId → List NodeId
  | 0, _ => []
  | fuel + 1, id =>
    id :: match (d.node? id).bind Node.parent with
      | some parent => d.pathFrom fuel parent
      | none => []

/-- A node and its ancestors up to the root; nothing for a node that does not exist. -/
def path (d : Document) (id : NodeId) : List NodeId :=
  if (d.node? id).isSome then d.pathFrom (d.nodes.length + 1) id else []

/-- The nodes below a node, each before those below it, to the depth `fuel`. -/
def below (d : Document) : Nat → NodeId → List NodeId
  | 0, _ => []
  | fuel + 1, id =>
    match d.node? id with
    | some n => n.children.flatMap fun child => child :: d.below fuel child
    | none => []

def descendants (d : Document) (id : NodeId) : List NodeId := d.below d.nodes.length id

def matchesSelector (d : Document) (id : NodeId) (s : Selector) : Bool :=
  s.matchesPath (((d.path id).filterMap d.node?).map Node.element)

def select (d : Document) (selector : String) (start : Option NodeId) :
    Except Selector.Fault (List NodeId) := do
  let s ← Selector.read selector
  return (d.descendants (start.getD root)).filter fun id => d.matchesSelector id s

def field? (d : Document) (id : NodeId) (name : String) : Option Value :=
  (d.node? id).bind fun n => n.field? name

end Document

end AttrChain
