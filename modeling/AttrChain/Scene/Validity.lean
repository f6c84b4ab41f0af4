import AttrChain.Scene.Basic
import AttrChain.Text.Cut

/-!
Valid scenes: every id is given once and before it is used, and every event has a name.
-/

namespace AttrChain.Scene

inductive Fault where
  | emptyId
  | unknownParent (id parent : String)
  | duplicateId (id : String)
  | unknownTarget (id : String)
  | unnamedEvent (node : String)
  | unknownRebind (id : String)
  deriving DecidableEq

def Fault.message : Fault → String
  | emptyId => "Node with empty id"
  | unknownParent id parent =>
    "Node `" ++ id ++ "` refers to unknown parent `" ++ parent ++ "`"
  | duplicateId id => "Duplicate node id `" ++ id ++ "`"
  | unknownTarget id => "Fire targets unknown node `" ++ id ++ "`"
  | unnamedEvent node => "Fire on `" ++ node ++ "` has no event name"
  | unknownRebind id => "Rebind refers to unknown node `" ++ id ++ "`"

def NodeEntry.check (known : List String) (n : NodeEntry) : Except Fault Unit :=
  if n.id = "" then .error .emptyId
  else match n.parent with
    | some parent =>
      if parent ∉ known then .error (.unknownParent n.id parent)
      else if n.id ∈ known then .error (.duplicateId n.id)
      else .ok ()
    | none => if n.id ∈ known then .error (.duplicateId n.id) else .ok ()

def checkNodes : List String → List NodeEntry → Except Fault Unit
  | _, [] => .ok ()
  | known, n :: rest => do
    n.check known
    checkNodes (n.id :: known) rest

def FireEntry.check (known : List String) (f : FireEntry) : Except Fault Unit :=
  if f.node ∉ known then .error (.unknownTarget f.node)
  else if Text.trimmed f.event = "" then .error (.unnamedEvent f.node)
  else .ok ()

def RebindEntry.check (known : List String) (r : RebindEntry) : Except Fault Unit :=
  if r.source ∉ known then .error (.unknownRebind r.source)
  else if r.target ∉ known then .error (.unknownRebind r.target)
  else .ok ()

/-- Checks a scene: its nodes, then its events, then its rebindings, up to the first fault. -/
def check (s : Scene) : Except Fault Unit := do
  checkNodes [] s.nodes
  let known := s.nodes.map NodeEntry.id
  s.fires.forM (FireEntry.check known)
  s.rebinds.forM (RebindEntry.check known)

end AttrChain.Scene
