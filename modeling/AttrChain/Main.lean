import AttrChain.Cli.Response
import Std.Time.DateTime.Timestamp

/-!
The command: it reads the scene file that its arguments name, and prints the answer.
-/

open AttrChain

def readScene (path : String) : IO (Except String String) := do
  try
    let bytes ← IO.FS.readBinFile path
    match String.fromUTF8? bytes with
    | some text => return .ok text
    | none => return .error "stream did not contain valid UTF-8"
  catch e =>
    match e with
    | .noFileOrDirectory .. => return .error "No such file or directory (os error 2)"
    | .permissionDenied .. => return .error "Permission denied (os error 13)"
    | .inappropriateType .. => return .error "Is a directory (os error 21)"
    | other => return .error other.toString

def currentMoment : IO Moment := do
  let now ← Std.Time.Timestamp.now
  let nanos := now.toNanosecondsSinceUnixEpoch.val
  return ⟨nanos.fdiv 1000000000, (nanos.fmod 1000000000).toNat⟩

def scenePath? (args : List String) : Option String :=
  match Cli.Request.read args with
  | .ok (.run o) => o.file?
  | _ => none

def main (args : List String) : IO UInt32 := do
  let content ← match scenePath? args with
    | some path => readScene path
    | none => pure (.ok "")
  let response := Cli.respond args (fun _ => content) (← currentMoment)
  IO.eprint response.errors
  IO.print response.output
  return UInt32.ofNat response.exit
