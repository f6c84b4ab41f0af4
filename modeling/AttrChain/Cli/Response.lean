import AttrChain.Cli.Arguments
import AttrChain.Complaint
import AttrChain.Scene.File
import AttrChain.Scene.Report

/-!
What the command answers: the text on its output, the lines on its error output, and its exit code.
-/

namespace AttrChain.Cli

structure Response where
  exit : Nat
  output : String
  errors : String
  deriving DecidableEq

def Options.scene (o : Options) (onText : String) : Scene :=
  let node : Scene.NodeEntry :=
    { Scene.NodeEntry.plain "node" with
      onText, byText := o.byText.getD "", toText := o.toText.getD "" }
  { Scene.empty with
    settings := { Settings.standard with strict := !o.lenient }
    nodes := [node]
    fires := o.fires.map fun event => ⟨"node", event, none, true⟩ }

def Options.file? (o : Options) : Option String :=
  match o.onText with
  | some _ => none
  | none => o.scenePath

def Options.threshold (o : Options) : Log.Level :=
  if o.quiet then .error
  else match o.verbosity with
    | 0 => .warn
    | 1 => .info
    | 2 => .debug
    | _ => .trace

def Options.logText (o : Options) (log : List Log.Entry) : String :=
  let shown := log.filter fun e => e.level.rank ≤ o.threshold.rank
  String.join (shown.map fun e => e.line ++ "\n")

def opening : List Log.Entry :=
  [⟨.info, .program, "OBT Chain Runner v0.1.0"⟩, ⟨.debug, .program, "Using obt-core v0.1.0"⟩]

def quickStart : String :=
  "OBT Chain Runner - No input specified\n"
    ++ "\nQuick Start:\n"
    ++ "  obt-cli --on \x22click|push(2,3) add\x22 --to \x22=|text\x22 --fire click\n"
    ++ "\nFor whole scenes:\n"
    ++ "  obt-cli --config scene.toml\n"
    ++ "\nUse --help for more options\n"

def versionText : String := "obt-cli 0.1.0\n"

def helpText : String :=
  "Compile and run OBT attribute chains on an in-memory document\n"
    ++ "\nUsage: obt-cli [OPTIONS]\n"
    ++ "\nOptions:\n"
    ++ "  -c, --config <FILE>  Path to a scene file (scene.toml)\n"
    ++ "      --on <ATTR>      On attribute of a single ad-hoc node\n"
    ++ "      --by <ATTR>      By attribute of the ad-hoc node\n"
    ++ "      --to <ATTR>      To attribute of the ad-hoc node\n"
    ++ "  -f, --fire <EVENT>   Event to fire at the ad-hoc node (can be repeated)\n"
    ++ "      --lenient        Continue past groups that fail to compile\n"
    ++ "      --json           Print the report as JSON\n"
    ++ "  -v, --verbose...     Verbosity level (can be repeated: -v, -vv)\n"
    ++ "  -q, --quiet          Suppress all output except errors\n"
    ++ "  -h, --help           Print help\n"
    ++ "  -V, --version        Print version\n"

def Options.refuse (o : Options) (log : List Log.Entry) (c : Complaint) : Response :=
  ⟨1, "", o.logText log ++ c.text⟩

def Options.runScene (o : Options) (log : List Log.Entry) (scene : Scene) (now : Moment) :
    Response :=
  match Session.run scene with
  | (.error fault, more) => o.refuse (log ++ more) fault.complaint
  | (.ok session, more) =>
    let report := Report.ofSession now session
    let output := if o.json || scene.format == .json then report.json.pretty ++ "\n"
      else report.text
    ⟨0, output, o.logText (log ++ more)⟩

/-- The answer to a call with options. `files` gives the text of a file or the reason why it cannot
be read. -/
def Options.respond (o : Options) (files : String → Except String String) (now : Moment) :
    Response :=
  match o.onText, o.scenePath with
  | some onText, _ => o.runScene opening (o.scene onText) now
  | none, some path =>
    let log := opening ++
      [⟨.info, .program, "Loading scene from: " ++ Text.Quoted.encode path⟩]
    match Scene.load path (files path) with
    | .error fault => o.refuse log fault.complaint
    | .ok scene => o.runScene log scene now
  | none, none => ⟨0, quickStart, o.logText opening⟩

def Fault.message : Fault → String
  | unexpected arg => "unexpected argument '" ++ arg ++ "' found"
  | missingValue _ => "a value is required for an option but none was supplied"
  | repeatedParam _ | repeatedSwitch _ => "an option cannot be used multiple times"
  | surplusValue _ => "an option takes no value but one was supplied"
  | emptyPath => "the path of a scene file cannot be empty"

def respond (args : List String) (files : String → Except String String) (now : Moment) :
    Response :=
  match Request.read args with
  | .error fault => ⟨2, "", "error: " ++ fault.message ++ "\n"⟩
  | .ok .help => ⟨0, helpText, ""⟩
  | .ok .version => ⟨0, versionText, ""⟩
  | .ok (.run o) => o.respond files now

end AttrChain.Cli
