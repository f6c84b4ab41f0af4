import AttrChain.Rejection
import AttrChain.Value.Basic

/-!
What a firing carries along: its event, the nodes it is about, and the values set for the running
instruction.
-/

namespace AttrChain

/-- An event at a node. The two flags, which instructions may set, are part of the value: copies of
an event do not share them. Dispatch therefore hands on the event that each firing gives back, and a
flag set by one firing is seen by the listeners called after it in this way only. -/
structure Event where
  name : String
  target : NodeId
  detail : Option Value
  prevented : Bool
  stopped : Bool

def Event.fresh (name : String) (target : NodeId) (detail : Option Value) : Event :=
  ⟨name, target, detail, false, false⟩

/-- The context of a firing: the event; the node where it arose, the node of the listener and the
node that it is delegated to; the values taken for the running instruction; the result of the last
query; and what update instructions act on. -/
structure Context where
  event : Option Event
  target : Option NodeId
  current : Option NodeId
  delegate : Option NodeId
  data : Option Value
  primary : Option Value
  updated : Option Value

namespace Context

def blank : Context := ⟨none, none, none, none, none, none, none⟩

def listener (current delegate : NodeId) : Context :=
  { blank with current := some current, delegate := some delegate }

def withEvent (event : Event) (c : Context) : Context :=
  { c with target := some event.target, event := some event }

def preventDefault (c : Context) : Context :=
  { c with event := c.event.map fun e => { e with prevented := true } }

def stopPropagation (c : Context) : Context :=
  { c with event := c.event.map fun e => { e with stopped := true } }

end Context

inductive Settlement where
  | fulfilled (value : Option Value)
  | rejected (why : Rejection)

/-- A result that is pending: settled already though not looked at yet, or open until its ticket is
answered. -/
inductive Promise where
  | settled (s : Settlement)
  | ticket (number : Nat)

inductive Reply where
  | done (value : Option Value)
  | pending (p : Promise)

namespace Reply

def nothing : Reply := done none

def value (v : Value) : Reply := done (some v)

def reject (message : String) : Reply := pending (.settled (.rejected ⟨some message⟩))

def abort : Reply := pending (.settled (.rejected .silent))

end Reply

end AttrChain
