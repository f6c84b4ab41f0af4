import AttrChain.Chain.Run
import AttrChain.Document.Tree
import AttrChain.Log

/-!
The stage on which chains run: a document, all chains, the listeners that lead events to them, the
chains kept for later, the records of firings, and what was logged.

A chain that runs is taken off the stage, so it cannot be fired or resumed from inside its own run.
-/

namespace AttrChain

structure ChainId where
  index : Nat
  deriving DecidableEq

structure Slot (ι : Type) where
  chain : Chain ι
  running : Bool

/-- A firing that waits for a promise. Then it goes on at the cell `next` with its context. -/
structure Suspended where
  chain : ChainId
  promise : Promise
  next : Option Nat
  ctx : Context

/-- A listener for an event on a node. With a selector it answers only for nodes inside that
match; a listener for once is dropped when it is used. -/
structure Listener where
  node : NodeId
  event : String
  selector : Option String
  once : Bool
  chain : ChainId
  deriving DecidableEq

inductive Status where
  | pending
  | done
  | aborted
  | failed (message : String)
  deriving DecidableEq

structure Record where
  event : String
  target : NodeId
  current : NodeId
  delegate : NodeId
  status : Status
  value : Option Value

structure Task where
  record : Nat
  firing : Suspended

structure Stored where
  node : NodeId
  event : String
  chain : ChainId
  deriving DecidableEq

inductive Notice where
  | listen (l : Listener)
  | built (node : NodeId) (event : String)
  deriving DecidableEq

/-- The stage. Firings that were suspended and not yet looked at are `fresh`; those that can go on
are `ready`, in the order of their turn, and come before the fresh ones; the others are `waiting`.
`extra` belongs to the program around the stage. -/
structure Stage (ι ε : Type) where
  document : Document
  slots : List (Slot ι)
  listeners : List Listener
  records : List Record
  fresh : List Task
  ready : List Task
  waiting : List Task
  stored : List Stored
  notices : List Notice
  log : List Log.Entry
  extra : ε

namespace Stage

variable {ι ε : Type}

def empty (extra : ε) : Stage ι ε where
  document := .empty
  slots := []
  listeners := []
  records := []
  fresh := []
  ready := []
  waiting := []
  stored := []
  notices := []
  log := []
  extra := extra

def note (level : Log.Level) (source : Log.Source) (message : String) (s : Stage ι ε) :
    Stage ι ε :=
  { s with log := s.log ++ [⟨level, source, message⟩] }

def addChain (c : Chain ι) (s : Stage ι ε) : ChainId × Stage ι ε :=
  (⟨s.slots.length⟩, { s with slots := s.slots ++ [⟨c, false⟩] })

/-- The chain with the given handle, as it was when it last came to rest. -/
def chain? (s : Stage ι ε) (id : ChainId) : Option (Chain ι) :=
  (s.slots[id.index]?).map Slot.chain

/-- The buffer of a chain; nothing of it shows while the chain runs. -/
def buffer (s : Stage ι ε) (id : ChainId) : List Value :=
  match s.slots[id.index]? with
  | some slot => if slot.running then [] else slot.chain.stack.buffer
  | none => []

def takeChain (id : ChainId) (s : Stage ι ε) : Option (Chain ι × Stage ι ε) :=
  match s.slots[id.index]? with
  | some ⟨c, false⟩ => some (c, { s with slots := s.slots.set id.index ⟨c, true⟩ })
  | _ => none

def putChain (id : ChainId) (c : Chain ι) (s : Stage ι ε) : Stage ι ε :=
  { s with slots := s.slots.set id.index ⟨c, false⟩ }

def setRecord (i : Nat) (status : Status) (value : Option Value) (s : Stage ι ε) : Stage ι ε :=
  { s with records := s.records.modify i fun r => { r with status, value } }

end Stage

end AttrChain
