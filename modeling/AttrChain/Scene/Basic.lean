import AttrChain.Settings
import AttrChain.Value.Basic

/-!
Scenes: nodes with the texts of their chains, the events to fire at them, and the chains to bind
again elsewhere. Nodes are named by ids.
-/

namespace AttrChain.Scene

inductive Format where
  | text | json
  deriving DecidableEq

structure NodeEntry where
  id : String
  tag : String
  parent : Option String
  classText : String
  attrs : List (String × String)
  text : String
  onText : String
  byText : String
  toText : String
  deriving DecidableEq

def NodeEntry.plain (id : String) : NodeEntry := ⟨id, "div", none, "", [], "", "", "", ""⟩

structure FireEntry where
  node : String
  event : String
  detail : Option Value
  bubbles : Bool

/-- Chains kept on one node that are to listen on another; all of them if no event is named. -/
structure RebindEntry where
  source : String
  target : String
  events : List String
  once : Bool
  initial : Option Value
  selector : Option String

end AttrChain.Scene

namespace AttrChain

structure Scene where
  settings : Settings
  format : Scene.Format
  nodes : List Scene.NodeEntry
  fires : List Scene.FireEntry
  rebinds : List Scene.RebindEntry

def Scene.empty : Scene := ⟨.standard, .text, [], [], []⟩

end AttrChain
