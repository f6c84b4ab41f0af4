import AttrChain.Calendar
import AttrChain.Scene.Session
import AttrChain.Value.Json

/-!
Reports of scenes: what was built, what was fired, and how the nodes are in the end; as text for
readers or as JSON for programs.
-/

namespace AttrChain

namespace Report

structure BuildLine where
  node : String
  chains : Nat
  bound : Nat
  stored : Nat
  errors : List String
  deriving DecidableEq

structure FiringLine where
  event : String
  target : String
  current : String
  delegate : String
  status : Status
  value : Option Value

structure NodeLine where
  node : String
  tag : String
  classes : List String
  attrs : List (String × String)
  props : List (String × Value)
  styles : List (String × String)
  text : String

end Report

structure Report where
  generated : Moment
  builds : List Report.BuildLine
  firings : List Report.FiringLine
  nodes : List Report.NodeLine

namespace Report

open AttrChain.Text

def skippedText (g : Skipped) : String :=
  "group " ++ g.index.repr ++ " `" ++ g.onText ++ "`: " ++ g.error.message

/-- The report of a session. The root is left out. -/
def ofSession (generated : Moment) (s : Session) : Report :=
  let d := s.stage.document
  { generated
    builds := s.builds.map fun b =>
      ⟨d.label b.node, b.chains, b.bound, b.stored, b.skipped.map skippedText⟩
    firings := s.stage.records.map fun r =>
      ⟨r.event, d.label r.target, d.label r.current, d.label r.delegate, r.status, r.value⟩
    nodes := (d.nodes.filter (·.id ≠ Document.root)).map fun n =>
      ⟨d.label n.id, n.tag, n.classes, n.attrs, n.props, n.styles, n.text⟩ }

def padded (width : Nat) (s : String) : String :=
  s ++ String.ofList (List.replicate (width - s.length) ' ')

def BuildLine.lines (b : BuildLine) : List String :=
  ("  " ++ padded 12 b.node ++ " chains=" ++ b.chains.repr ++ " bound=" ++ b.bound.repr
      ++ " stored=" ++ b.stored.repr)
    :: b.errors.map fun e => "    skipped " ++ e

def statusText : Status → String
  | .pending => "pending"
  | .done => "done"
  | .aborted => "aborted"
  | .failed message => "failed: " ++ message

def FiringLine.line (f : FiringLine) : String :=
  "  " ++ f.event ++ " at " ++ f.target ++ " on " ++ f.current ++ " (via " ++ f.delegate ++ "): "
    ++ statusText f.status ++ " => " ++ (f.value.map Value.shown).getD "-"

def NodeLine.line (n : NodeLine) : String :=
  "  " ++ n.node ++ " <" ++ n.tag ++ ">"
    ++ (if n.classes.isEmpty then "" else " ." ++ joinWith "." n.classes)
    ++ String.join (n.attrs.map fun (k, v) => " " ++ k ++ "=\x22" ++ v ++ "\x22")
    ++ String.join (n.props.map fun (k, v) => " $" ++ k ++ "=" ++ v.shown)
    ++ String.join (n.styles.map fun (k, v) => " %" ++ k ++ "=" ++ v)
    ++ (if n.text = "" then "" else " text=" ++ Quoted.encode n.text)

def lines (r : Report) : List String :=
  ["Report generated " ++ r.generated.text, "", "Builds:"]
    ++ r.builds.flatMap BuildLine.lines
    ++ ["", "Firings:"]
    ++ (if r.firings.isEmpty then ["  (none)"] else r.firings.map FiringLine.line)
    ++ ["", "Nodes:"]
    ++ r.nodes.map NodeLine.line

def text (r : Report) : String := String.join (r.lines.map fun line => line ++ "\n")

def statusJson : Status → Json
  | .pending => .text "pending"
  | .done => .text "done"
  | .aborted => .text "aborted"
  | .failed message => .object [("failed", .text message)]

def textsJson (texts : List (String × String)) : Json :=
  .object (texts.map fun (k, v) => (k, .text v))

def BuildLine.json (b : BuildLine) : Json :=
  .object [("node", .text b.node), ("chains", .int b.chains), ("bound", .int b.bound),
    ("stored", .int b.stored), ("errors", .array (b.errors.map .text))]

def FiringLine.json (f : FiringLine) : Json :=
  .object [("event", .text f.event), ("target", .text f.target), ("current", .text f.current),
    ("delegate", .text f.delegate), ("status", statusJson f.status),
    ("value", (f.value.map Value.toJson).getD .null)]

def NodeLine.json (n : NodeLine) : Json :=
  .object [("node", .text n.node), ("tag", .text n.tag),
    ("classes", .array (n.classes.map .text)), ("attrs", textsJson n.attrs),
    ("props", .object (n.props.map fun (k, v) => (k, v.toJson))), ("styles", textsJson n.styles),
    ("text", .text n.text)]

def json (r : Report) : Json :=
  .object [("generated", .text r.generated.stamp), ("builds", .array (r.builds.map BuildLine.json)),
    ("firings", .array (r.firings.map FiringLine.json)),
    ("nodes", .array (r.nodes.map NodeLine.json))]

end Report

end AttrChain
