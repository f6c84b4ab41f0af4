import AttrChain.Kit.Change
import AttrChain.Kit.Control

/-!
The instruction kit: control, computing and changing instructions together.
-/

namespace AttrChain

inductive Kit where
  | control (c : Control)
  | compute (c : Compute)
  | change (c : Change)
  deriving DecidableEq

namespace Kit

def callTable : Option Error × Table Kit :=
  (Compute.table.map Kit.compute).merge (Control.table.map Kit.control)

def tables : Except Error (Tables Kit) :=
  match callTable with
  | (some e, _) => .error e
  | (none, calls) => .ok ⟨calls, calls, Change.table.map Kit.change, calls⟩

def perform (k : Kit) (args : List Value) (ctx : Context) (s : Stack) (d : Document) :
    Except Error Reply × Context × Stack × Document × List Log.Entry :=
  match k with
  | control c =>
    let (reply, ctx', s') := c.perform args ctx s
    (reply, ctx', s', d, c.entries args ctx s)
  | compute c =>
    let (reply, ctx) := c.perform args ctx d
    (reply, ctx, s, d, [])
  | change c =>
    let (reply, ctx, d) := c.perform args ctx d
    (reply, ctx, s, d, [])

end Kit

end AttrChain
