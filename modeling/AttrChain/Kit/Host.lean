import AttrChain.Kit.Basic
import AttrChain.Settings
import AttrChain.Stage.Dispatch

/-!
The stage as host of the chains on it, with the instructions of the kit.
-/

namespace AttrChain

variable {ι ε : Type}

namespace Stage

/-- All matches of a selector below a node. A text that is no selector matches nothing and is
warned about. -/
def findAll (selector : String) (start : Option NodeId) (s : Stage ι ε) :
    List NodeId × Stage ι ε :=
  match s.document.select selector start with
  | .ok found => (found, s)
  | .error fault => ([], s.note .warn .document fault.message)

def findOne (selector : String) (start : Option NodeId) (s : Stage ι ε) :
    Option NodeId × Stage ι ε :=
  let (found, s) := s.findAll selector start
  (found.head?, s)

/-- Logs a rejection if its message names a level, unless the settings silence it. -/
def logRejection (settings : Settings) (r : Rejection) (s : Stage ι ε) : Stage ι ε :=
  if settings.debug then { s with log := s.log ++ r.logged?.toList } else s

def performKit (k : Kit) (args : List Value) (ctx : Context) (stack : Stack) (s : Stage ι ε) :
    Except Error Reply × Context × Stack × Stage ι ε :=
  let (reply, ctx, stack, document, entries) := k.perform args ctx stack s.document
  (reply, ctx, stack, { s with document, log := s.log ++ entries })

/-- The stage as host of chains made of kit instructions, which leave no ticket open. -/
def host (settings : Settings) : Host Kit (Stage Kit ε) where
  perform := performKit
  findOne := findOne
  findAll := findAll
  field := fun id name s => s.document.field? id name
  answer := fun _ _ => none
  reject := logRejection settings

end Stage

end AttrChain
