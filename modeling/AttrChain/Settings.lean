/-!
The switches of the chain builder.
-/

namespace AttrChain

/-- Whether rejections are reported, whether a build ends at its first error, and the event fired
at a node when it is built. -/
structure Settings where
  debug : Bool
  strict : Bool
  doneEvent : String
  deriving DecidableEq

def Settings.standard : Settings := ⟨true, true, "obted"⟩

end AttrChain
