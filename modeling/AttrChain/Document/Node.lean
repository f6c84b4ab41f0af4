import AttrChain.Selector.Basic
import AttrChain.Text.Cut
import AttrChain.Value.Basic

/-!
The nodes of a document.
-/

namespace AttrChain

/-- A node: its tag, its `id` attribute as `name`, its classes, other attributes, properties, styles
and text, and its place in the tree. -/
structure Node where
  id : NodeId
  tag : String
  name : Option String
  classes : List String
  attrs : List (String × String)
  props : List (String × Value)
  styles : List (String × String)
  text : String
  parent : Option NodeId
  children : List NodeId

namespace Node

def blank (id : NodeId) (tag : String) (parent : Option NodeId) : Node where
  id := id
  tag := tag
  name := none
  classes := []
  attrs := []
  props := []
  styles := []
  text := ""
  parent := parent
  children := []

def hasClass (n : Node) (c : String) : Bool := n.classes.contains c

def addClass (c : String) (n : Node) : Node :=
  if n.hasClass c then n else { n with classes := n.classes ++ [c] }

def addClasses (cs : List String) (n : Node) : Node := cs.foldl (fun n c => n.addClass c) n

/-- Sets an attribute. The attribute `class` sets the classes to the words of the value. -/
def setAttr (name value : String) (n : Node) : Node :=
  if name = "id" then { n with name := some value }
  else if name = "class" then { n with classes := [] }.addClasses (Text.wordsOf value)
  else { n with attrs := Dict.insert name value n.attrs }

/-- Removes an attribute; without `class` there are no classes. -/
def removeAttr (name : String) (n : Node) : Node :=
  if name = "id" then { n with name := none }
  else if name = "class" then { n with classes := [] }
  else { n with attrs := Dict.erase name n.attrs }

/-- The value of an attribute. Classes are not read as an attribute. -/
def attr? (n : Node) (name : String) : Option String :=
  if name = "id" then n.name else Dict.get? name n.attrs

def element (n : Node) : Element where
  tag := n.tag
  id := n.name
  hasClass := n.hasClass
  attr := n.attr?

/-- What the node answers for a name: a property, else an attribute, also one spelled with hyphens
for underscores, else its text or tag. -/
def field? (n : Node) (name : String) : Option Value :=
  let hyphened := String.ofList (name.toList.map fun c => if c = '_' then '-' else c)
  match Dict.get? name n.props with
  | some v => some v
  | none => match (n.attr? name).or (n.attr? hyphened) with
    | some v => some (.text v)
    | none =>
      if name = "text" then some (.text n.text)
      else if name = "tag" then some (.text n.tag)
      else none

end Node

end AttrChain
