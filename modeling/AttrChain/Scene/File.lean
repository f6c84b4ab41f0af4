import AttrChain.Complaint
import AttrChain.Scene.Json
import AttrChain.Scene.Validity
import AttrChain.Text.Quoted
import AttrChain.Toml.Document

/-!
Scenes in files. A file has to hold a TOML document, the document a scene, and the scene has to be
valid.
-/

namespace AttrChain.Scene

inductive FileFault where
  | unreadable (path reason : String)
  | malformed (path : String)
  | invalid (path : String) (fault : Fault)
  deriving DecidableEq

def FileFault.complaint : FileFault → Complaint
  | unreadable path reason =>
    ⟨"Failed to read scene file: " ++ Text.Quoted.encode path, some reason⟩
  | malformed path => ⟨"Failed to parse scene file: " ++ Text.Quoted.encode path, none⟩
  | invalid path fault =>
    ⟨"Invalid scene file: " ++ Text.Quoted.encode path, some fault.message⟩

def ofToml? (text : String) : Option Scene := (Toml.read? text).bind (ofJson? .tables)

def load (path : String) (content : Except String String) : Except FileFault Scene :=
  match content with
  | .error reason => .error (.unreadable path reason)
  | .ok text => match ofToml? text with
    | none => .error (.malformed path)
    | some scene => match scene.check with
      | .error fault => .error (.invalid path fault)
      | .ok () => .ok scene

end AttrChain.Scene
