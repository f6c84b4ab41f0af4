import AttrChain.Descriptor.Reader
import AttrChain.Instruction.Table
import AttrChain.Settings
import AttrChain.Stage.Dispatch

/-!
Building nodes: their descriptors are read, compiled into chains, and bound as listeners or stored.
-/

namespace AttrChain

variable {ι ε : Type}

structure Builder (ι : Type) where
  tables : Tables ι
  settings : Settings

namespace Builder

def callCell (b : Builder ι) (phase : Phase) (c : Call) : Except Error (Cell ι) :=
  (b.tables.resolve phase c.name).map fun i => .call i c

def updateCell (b : Builder ι) (u : Update) : Except Error (Cell ι) :=
  (b.tables.resolve .update u.name).map fun i => .update i u

def targetCells (b : Builder ι) : Option Target → Except Error (List (Cell ι))
  | none => .ok []
  | some t => do
    let updates ← t.updates.mapM b.updateCell
    let calls ← t.calls.mapM (b.callCell .next)
    return .query t.query :: updates ++ calls

def link (b : Builder ι) (triggers : List Trigger) (on calls : List Call)
    (target : Option Target) : Except Error (Chain ι) := do
  let on ← on.mapM (b.callCell .on)
  let calls ← calls.mapM (b.callCell .by)
  let target ← b.targetCells target
  return .ofCells triggers (on ++ calls ++ target)

def compile (b : Builder ι) (g : Group) : Except Error (Chain ι) := do
  let (triggers, on) ← Trigger.readSlot g.onText.toList
  let calls ← Call.readAll g.byText.toList
  let target ← Target.read g.toText.toList
  b.link triggers on calls target

end Builder

structure BindCount where
  bound : Nat
  stored : Nat
  deriving DecidableEq

structure Skipped where
  index : Nat
  onText : String
  error : Error
  deriving DecidableEq

structure Summary where
  node : NodeId
  chains : Nat
  bound : Nat
  stored : Nat
  skipped : List Skipped
  deriving DecidableEq

namespace Stage

def stored? (node : NodeId) (event : String) (s : Stage ι ε) : Option ChainId :=
  (s.stored.find? fun e => e.node = node ∧ e.event = event).map Stored.chain

/-- Keeps a chain for an event on a node; there can be only one. -/
def store (node : NodeId) (event : String) (id : ChainId) (s : Stage ι ε) :
    Except Error (Stage ι ε) :=
  if (s.stored? node event).isSome then .error (.alreadyStored node event)
  else .ok { s with stored := s.stored ++ [⟨node, event, id⟩] }

def unstore (node : NodeId) (event : String) (s : Stage ι ε) : Option ChainId × Stage ι ε :=
  (s.stored? node event,
    { s with stored := s.stored.filter fun e => ¬(e.node = node ∧ e.event = event) })

def storedEvents (node : NodeId) (s : Stage ι ε) : List String :=
  ((s.stored.filter (·.node = node)).map Stored.event).mergeSort fun a b => a ≤ b

def listen (l : Listener) (s : Stage ι ε) : Stage ι ε :=
  { s with listeners := s.listeners ++ [l], notices := s.notices ++ [Notice.listen l] }

def built (h : Host ι (Stage ι ε)) (node : NodeId) (event : String) (s : Stage ι ε) :
    Stage ι ε :=
  let s := { s with notices := s.notices ++ [Notice.built node event] }
  (s.dispatch h (.fresh event node none) false).2

/-- The first event to be stored that has a chain on the node already, or a second time in the
list. -/
def taken? (node : NodeId) (s : Stage ι ε) : List String → List Trigger → Option String
  | _, [] => none
  | seen, t :: rest =>
    if !t.stored then taken? node s seen rest
    else if (s.stored? node t.event).isSome || seen.contains t.event then some t.event
    else taken? node s (t.event :: seen) rest

def bindEach (node : NodeId) (id : ChainId) :
    List Trigger → BindCount → Stage ι ε → Except Error BindCount × Stage ι ε
  | [], count, s => (.ok count, s)
  | t :: rest, count, s =>
    if t.stored then
      match s.store node t.event id with
      | .error e => (.error e, s)
      | .ok s =>
        bindEach node id rest { count with stored := count.stored + 1 }
          (s.note .debug .binder ("Stored chain for `" ++ t.event ++ "` on " ++ node.text))
    else
      bindEach node id rest { count with bound := count.bound + 1 }
        ((s.listen ⟨node, t.event, t.selector, t.once, id⟩).note .debug .binder
          ("Bound chain for `" ++ t.event ++ "` on " ++ node.text))

/-- Binds a chain on a node, unless one of the events to be stored is taken. -/
def bind (node : NodeId) (c : Chain ι) (s : Stage ι ε) : Except Error BindCount × Stage ι ε :=
  match s.taken? node [] c.triggers with
  | some event => (.error (.alreadyStored node event), s)
  | none =>
    let (id, s) := s.addChain c
    bindEach node id c.triggers ⟨0, 0⟩ s

def buildGroup (b : Builder ι) (node : NodeId) (g : Group) (s : Stage ι ε) :
    Except Error BindCount × Stage ι ε :=
  match b.compile g with
  | .error e => (.error e, s)
  | .ok c =>
    let s := s.note .debug .builder
      ("Compiled `" ++ g.onText ++ "` into " ++ c.size.repr ++ " cells")
    s.bind node c

/-- Builds groups one by one. A strict build ends at the first error, any other passes the group
over and goes on. -/
def buildGroups (b : Builder ι) (node : NodeId) :
    Nat → List Group → Summary → Stage ι ε → Except Error Summary × Stage ι ε
  | _, [], summary, s => (.ok summary, s)
  | i, g :: rest, summary, s =>
    match s.buildGroup b node g with
    | (.ok count, s) =>
      buildGroups b node (i + 1) rest
        { summary with
          chains := summary.chains + 1
          bound := summary.bound + count.bound
          stored := summary.stored + count.stored } s
    | (.error e, s) =>
      if b.settings.strict then (.error e, s)
      else
        let s := s.note .error .builder
          ("Skipping group " ++ i.repr ++ " `" ++ g.onText ++ "` on " ++ node.text ++ ": "
            ++ e.message)
        buildGroups b node (i + 1) rest
          { summary with skipped := summary.skipped ++ [⟨i, g.onText, e⟩] } s

def build (h : Host ι (Stage ι ε)) (b : Builder ι) (node : NodeId)
    (onText byText toText : String) (s : Stage ι ε) : Except Error Summary × Stage ι ε :=
  let groups := Group.ofTexts onText byText toText
  match s.buildGroups b node 0 groups ⟨node, 0, 0, 0, []⟩ with
  | (.error e, s) => (.error e, s)
  | (.ok summary, s) =>
    let s := s.built h node b.settings.doneEvent
    let s := s.note .debug .builder
      ("Built " ++ node.text ++ ": " ++ summary.chains.repr ++ " chains, "
        ++ summary.bound.repr ++ " bound, " ++ summary.stored.repr ++ " stored")
    (.ok summary, s)

end Stage

/-- How chains that were kept are bound again: which ones, all if none is named; with which
selector; whether once; and with which initial value. -/
structure Rebinding where
  events : List String
  selector : Option String
  once : Bool
  initial : Option Value

namespace Stage

/-- Makes copies of kept chains listen, one by one, up to the first event that has none. -/
def rebindEach (source target : NodeId) (r : Rebinding) :
    List String → Stage ι ε → Except Error Unit × Stage ι ε
  | [], s => (.ok (), s)
  | event :: rest, s =>
    match (s.stored? source event).bind s.chain? with
    | none => (.error (.nothingStored source), s)
    | some c =>
      let (id, s) := s.addChain (c.rebind r.initial)
      let s := s.listen ⟨target, event, r.selector, r.once, id⟩
      rebindEach source target r rest
        (s.note .debug .binder
          ("Re-bound stored `" ++ event ++ "` from " ++ source.text ++ " to " ++ target.text))

def rebind (source target : NodeId) (r : Rebinding) (s : Stage ι ε) :
    Except Error Nat × Stage ι ε :=
  let events := if r.events.isEmpty then s.storedEvents source else r.events
  if events.isEmpty then (.error (.nothingStored source), s)
  else
    let (result, s) := s.rebindEach source target r events
    (result.map fun _ => events.length, s)

end Stage

end AttrChain
