import AttrChain.Stage.Fire

/-!
Dispatching events: from the target up through its ancestors, to the listeners on each node.
-/

namespace AttrChain

/-- The node that a listener on a node of the path answers for: that node itself, or with a
selector the innermost match among the nodes below it on the path. -/
def Listener.delegate? (l : Listener) (d : Document) (inner : List NodeId) :
    Except Selector.Fault (Option NodeId) :=
  match l.selector with
  | none => .ok (some l.node)
  | some text => (Selector.read text).map fun s => inner.find? fun id => d.matchesSelector id s

structure Matches where
  kept : List Listener
  chosen : List (ChainId × NodeId)
  warnings : List String

/-- Looks through listeners for an event on the node `current`; `inner` are the nodes below it on
the path. A listener for once is dropped as it is chosen. -/
def Matches.of (d : Document) (event : String) (current : NodeId) (inner : List NodeId) :
    List Listener → Matches
  | [] => ⟨[], [], []⟩
  | l :: rest =>
    let more := Matches.of d event current inner rest
    let kept := { more with kept := l :: more.kept }
    if l.node ≠ current ∨ l.event ≠ event then kept
    else match l.delegate? d inner with
      | .ok none => kept
      | .ok (some delegate) =>
        { more with
          kept := if l.once then more.kept else l :: more.kept
          chosen := (l.chain, delegate) :: more.chosen }
      | .error fault =>
        let warning :=
          "Listener for `" ++ event ++ "` on " ++ current.text ++ ": " ++ fault.message
        { kept with warnings := warning :: more.warnings }

namespace Stage

variable {ι ε : Type}

/-- Fires a chain for a listener and keeps a record of it. Gives the event with the flags that the
firing has set so far. -/
def deliver (h : Host ι (Stage ι ε)) (current : NodeId) (event : Event) (s : Stage ι ε)
    (chosen : ChainId × NodeId) : Event × Stage ι ε :=
  let (chain, delegate) := chosen
  let slot := s.records.length
  let record : Record := ⟨event.name, event.target, current, delegate, .pending, none⟩
  let s := { s with records := s.records ++ [record] }
  let (fired, s) := s.fire h chain event (.listener current delegate)
  let s := match fired with
    | .done o => s.setRecord slot .done o.value
    | .suspended f => { s with fresh := s.fresh ++ [⟨slot, f⟩] }
    | .failed e _ =>
      (s.note .error .dispatcher ("Chain on " ++ current.text ++ " failed: " ++ e.message)).setRecord
        slot (.failed e.message) none
  (fired.ctx.event.getD event, s)

def deliverAt (h : Host ι (Stage ι ε)) (path : List NodeId) (event : Event) (current : NodeId)
    (s : Stage ι ε) : Event × Stage ι ε :=
  let found := Matches.of s.document event.name current (path.takeWhile (· ≠ current)) s.listeners
  let s := { s with listeners := found.kept }
  let s := found.warnings.foldl (fun s w => s.note .warn .dispatcher w) s
  found.chosen.foldl (fun (event, s) chosen => s.deliver h current event chosen) (event, s)

def deliverAlong (h : Host ι (Stage ι ε)) (path : List NodeId) :
    List NodeId → Event → Stage ι ε → Event × Stage ι ε
  | [], event, s => (event, s)
  | current :: rest, event, s =>
    let (event, s) := s.deliverAt h path event current
    if event.stopped then
      (event, s.note .debug .dispatcher
        ("Propagation of `" ++ event.name ++ "` stopped at " ++ current.text))
    else deliverAlong h path rest event s

/-- Delivers an event at a node, and at its ancestors if it bubbles. Gives the event with its flags
as they are when all synchronous work is done. -/
def dispatch (h : Host ι (Stage ι ε)) (event : Event) (bubbles : Bool) (s : Stage ι ε) :
    Event × Stage ι ε :=
  let path := s.document.path event.target
  let hops := if bubbles then path.length else 1
  let s := s.note .debug .dispatcher
    ("Dispatch `" ++ event.name ++ "` at " ++ event.target.text ++ " (" ++ hops.repr ++ " hops)")
  deliverAlong h path (path.take hops) event s

/-- Looks after one task: its record is closed when the firing ends, and a firing that still waits
stays on the list. -/
def attend (h : Host ι (Stage ι ε)) (s : Stage ι ε) (t : Task) : Stage ι ε :=
  match s.poll h t.firing with
  | (.done o, s) => s.setRecord t.record .done o.value
  | (.aborted, s) => s.setRecord t.record .aborted none
  | (.waiting f, s) => { s with waiting := s.waiting ++ [⟨t.record, f⟩] }

/-- Goes on with all firings that can go on, and looks at the fresh ones for the first time. -/
def settle (h : Host ι (Stage ι ε)) (s : Stage ι ε) : Stage ι ε :=
  (s.ready ++ s.fresh).foldl (attend h) { s with ready := [], fresh := [] }

def wake (ticket : Nat) (s : Stage ι ε) : Stage ι ε :=
  let waits (t : Task) := match t.firing.promise with
    | .ticket number => number == ticket
    | .settled _ => false
  { s with
    ready := s.ready ++ s.waiting.filter waits
    waiting := s.waiting.filter fun t => !waits t }

end Stage

end AttrChain
