import AttrChain.Complaint
import AttrChain.Kit.Host
import AttrChain.Scene.Basic
import AttrChain.Stage.Build

/-!
Running scenes: all nodes are made, then built, kept chains are bound again, and the events are
fired one after another, each followed by all work that it leaves.
-/

namespace AttrChain

/-- A scene as it runs: the stage, what chains are compiled with, the nodes by their ids, and what
the builds have done. -/
structure Session where
  stage : Stage Kit Unit
  builder : Builder Kit
  ids : List (String × NodeId)
  builds : List Summary

namespace Session

inductive Fault where
  | tables (e : Error)
  | unknownNode (id : String)
  | build (node : String) (e : Error)
  | rebind (source target : String) (e : Error)
  deriving DecidableEq

def Fault.complaint : Fault → Complaint
  | tables e => ⟨"Failed to assemble instruction tables", some e.message⟩
  | unknownNode id => ⟨"Unknown node `" ++ id ++ "`", none⟩
  | build node e => ⟨"Failed to build node `" ++ node ++ "`", some e.message⟩
  | rebind source target e =>
    ⟨"Failed to re-bind `" ++ source ++ "` to `" ++ target ++ "`", some e.message⟩

def start (settings : Settings) : Except Fault Session :=
  match Kit.tables with
  | .error e => .error (.tables e)
  | .ok tables => .ok ⟨.empty (), ⟨tables, settings⟩, [], []⟩

def host (s : Session) : Host Kit (Stage Kit Unit) := Stage.host s.builder.settings

def note (level : Log.Level) (message : String) (s : Session) : Session :=
  { s with stage := s.stage.note level .session message }

def lookup (s : Session) (id : String) : Except Fault NodeId :=
  match Dict.get? id s.ids with
  | some node => .ok node
  | none => .error (.unknownNode id)

def lookupParent (s : Session) : Option String → Except Fault (Option NodeId)
  | none => .ok none
  | some id => (s.lookup id).map some

/-- What a node is made with. Attributes come last, so they may change its id and its classes. -/
def furnish (entry : Scene.NodeEntry) (n : Node) : Node :=
  let n := (n.setAttr "id" entry.id).addClasses (Text.wordsOf entry.classText)
  let n := entry.attrs.foldl (fun n (name, value) => n.setAttr name value) n
  { n with text := entry.text }

def create (entry : Scene.NodeEntry) (s : Session) : Except Fault Unit × Session :=
  match s.lookupParent entry.parent with
  | .error e => (.error e, s)
  | .ok parent =>
    let (id, document) := s.stage.document.create entry.tag parent
    let document := document.modify id (furnish entry)
    let s := { s with
      stage := { s.stage with document }
      ids := Dict.insert entry.id id s.ids }
    (.ok (), s.note .debug ("Created `" ++ entry.id ++ "` as " ++ id.text))

def build (entry : Scene.NodeEntry) (s : Session) : Except Fault Unit × Session :=
  if Text.trimmed entry.onText = "" then (.ok (), s)
  else match s.lookup entry.id with
    | .error e => (.error e, s)
    | .ok node =>
      let (result, stage) :=
        s.stage.build s.host s.builder node entry.onText entry.byText entry.toText
      let s := { s with stage }
      match result with
      | .error e => (.error (.build entry.id e), s)
      | .ok summary =>
        let s := { s with builds := s.builds ++ [summary] }
        (.ok (), s.note .info
          ("Built `" ++ entry.id ++ "`: " ++ summary.chains.repr ++ " chains ("
            ++ summary.bound.repr ++ " bound, " ++ summary.stored.repr ++ " stored)"))

def rebind (entry : Scene.RebindEntry) (s : Session) : Except Fault Unit × Session :=
  match s.lookup entry.source, s.lookup entry.target with
  | .error e, _ => (.error e, s)
  | _, .error e => (.error e, s)
  | .ok source, .ok target =>
    let (result, stage) := s.stage.rebind source target
      ⟨entry.events, entry.selector, entry.once, entry.initial⟩
    let s := { s with stage }
    match result with
    | .error e => (.error (.rebind entry.source entry.target e), s)
    | .ok count =>
      (.ok (), s.note .info
        ("Re-bound " ++ count.repr ++ " chains from `" ++ entry.source ++ "` to `"
          ++ entry.target ++ "`"))

def settle (s : Session) : Session := { s with stage := s.stage.settle s.host }

def fire (entry : Scene.FireEntry) (s : Session) : Except Fault Unit × Session :=
  match s.lookup entry.node with
  | .error e => (.error e, s)
  | .ok target =>
    let (event, stage) := s.stage.dispatch s.host
      (.fresh (Text.trimmed entry.event) target entry.detail) entry.bubbles
    let s := { s with stage }
    let s := if event.prevented then
        s.note .debug
          ("Default action of `" ++ entry.event ++ "` on `" ++ entry.node ++ "` prevented")
      else s
    (.ok (), s.settle)

def forEach {α : Type} (step : α → Session → Except Fault Unit × Session) :
    List α → Session → Except Fault Unit × Session
  | [], s => (.ok (), s)
  | entry :: rest, s =>
    match step entry s with
    | (.error e, s) => (.error e, s)
    | (.ok (), s) => forEach step rest s

def andThen (step : Session → Except Fault Unit × Session) :
    Except Fault Unit × Session → Except Fault Unit × Session
  | (.ok (), s) => step s
  | (.error e, s) => (.error e, s)

def play (scene : Scene) (s : Session) : Except Fault Unit × Session :=
  let count (s : Session) : Except Fault Unit × Session :=
    (.ok (), s.note .debug (s.stage.listeners.length.repr ++ " listeners registered"))
  let finish (s : Session) : Except Fault Unit × Session := (.ok (), s.settle)
  forEach create scene.nodes s
    |> andThen (forEach build scene.nodes)
    |> andThen (forEach rebind scene.rebinds)
    |> andThen count
    |> andThen (forEach fire scene.fires)
    |> andThen finish

/-- Runs a scene. Gives the session at its end, or the fault that ended it, with the log up to
there. -/
def run (scene : Scene) : Except Fault Session × List Log.Entry :=
  match start scene.settings with
  | .error e => (.error e, [])
  | .ok s =>
    let (result, s) := play scene s
    (result.map fun _ => s, s.stage.log)

end Session

end AttrChain
