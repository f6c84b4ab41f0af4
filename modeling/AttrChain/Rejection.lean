import AttrChain.Log
import AttrChain.Text.Cut

/-!
Rejections: firings that end on purpose, with or without a message.
-/

namespace AttrChain

structure Rejection where
  message : Option String
  deriving DecidableEq

namespace Rejection

def silent : Rejection := ⟨none⟩

def text (r : Rejection) : String :=
  match r.message with
  | some m => "rejected: " ++ m
  | none => "rejected"

/-- The level that a message names at its start, and the text behind the name. A message that names
none is not logged. -/
def route? (message : String) : Option (Log.Level × String) :=
  let cs := message.toList
  let level? (start : String) (level : Log.Level) :=
    (Text.afterStart start.toList cs).map fun rest => (level, String.ofList (Text.trim rest))
  (level? "err:" .error).or ((level? "warn:" .warn).or (level? "info:" .info))

def logged? (r : Rejection) : Option Log.Entry := do
  let (level, text) ← route? (← r.message)
  return ⟨level, .host, text⟩

end Rejection

end AttrChain
