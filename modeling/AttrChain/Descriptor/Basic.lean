import AttrChain.Error

/-!
Descriptors: what the attribute text of a node says about its chains.

An On slot names events and calls, a By slot names calls, and a To slot names a target, updates of
the target and further calls.
-/

namespace AttrChain

structure Group where
  onText : String
  byText : String
  toText : String
  deriving DecidableEq

/-- An event that a chain answers to. The selector delegates it to nodes inside; `once` drops the
listener when it is used; `stored` keeps the chain for later instead of listening. -/
structure Trigger where
  event : String
  selector : Option String
  once : Bool
  stored : Bool
  deriving DecidableEq

structure Call where
  name : String
  args : List Value
  rest : Option Nat

inductive Refinement where
  | range (first last : Option Nat)
  | places (indices : List Nat)
  | test (e : Filter.Expr)
  deriving DecidableEq

/-- A search for the target: the first match of a selector, or all of its matches. The empty
selector means the node where the search starts. -/
structure Query where
  selector : String
  single : Bool
  refinement : Option Refinement
  deriving DecidableEq

def Query.start : Query := ⟨"", true, none⟩

structure Update where
  name : String
  args : List Value

structure Target where
  query : Query
  updates : List Update
  calls : List Call

end AttrChain
