import AttrChain.Filter.Basic
import AttrChain.Literal.Basic

/-!
What can go wrong while chains are read, bound and run.
-/

namespace AttrChain

inductive Phase where
  | on | by | update | next
  deriving DecidableEq

def Phase.name : Phase → String
  | on => "on"
  | .by => "by"
  | update => "update"
  | next => "next"

inductive Error where
  | badEvent (text : String)
  | badCall (text : String)
  | badArguments (text : String) (why : Literal.Fault)
  | misplacedSentinel (name : String)
  | badQuery (text : String)
  | badFilter (text : String) (why : Filter.Fault)
  | badUpdate (text : String)
  | unknownInstruction (phase : Phase) (name : String)
  | duplicateInstruction (name : String)
  | alreadyStored (node : NodeId) (event : String)
  | nothingStored (node : NodeId)
  | busy
  | failed (message : String)
  deriving DecidableEq

def Error.message : Error → String
  | badEvent text => "Invalid event definition: " ++ text
  | badCall text => "Invalid call definition: " ++ text
  | badArguments text why => "Invalid argument list `" ++ text ++ "`: " ++ why.message
  | misplacedSentinel name =>
    "Flow sentinel `" ++ name ++ "` is only allowed as the last argument"
  | badQuery text => "Invalid query definition: " ++ text
  | badFilter text why => "Invalid filter expression `" ++ text ++ "`: " ++ why.message
  | badUpdate text => "Invalid update definition: " ++ text
  | unknownInstruction phase name =>
    "Instruction `" ++ name ++ "` is not in the " ++ phase.name ++ " table"
  | duplicateInstruction name => "Instruction `" ++ name ++ "` is already registered"
  | alreadyStored node event =>
    "A chain is already stored for event `" ++ event ++ "` on node " ++ node.text
  | nothingStored node => "No chain stored on node " ++ node.text
  | busy => "Chain is already running (re-entrant firing)"
  | failed message => "Instruction failed: " ++ message

/-- Whether the error is raised while a chain is compiled or bound, and not while it runs. -/
def Error.isConfiguration : Error → Bool
  | busy | failed _ => false
  | _ => true

section Results

variable {ε α β : Type} {x : Except ε α}

theorem ok_of_bind {f : α → Except ε β} {b : β} (h : x >>= f = .ok b) : ∃ a, x = .ok a ∧ f a = .ok b := by
  cases x with
  | error why => cases h
  | ok a => exact ⟨a, rfl, h⟩

theorem ok_of_map {f : α → β} {b : β} (h : x.map f = .ok b) : ∃ a, x = .ok a ∧ f a = b := by
  cases x with
  | error why => cases h
  | ok a => exact ⟨a, rfl, Except.ok.inj h⟩

theorem map_eq_ok_iff {f : α → β} {b : β} : x.map f = .ok b ↔ ∃ a, x = .ok a ∧ f a = b := by
  refine ⟨ok_of_map, ?_⟩
  rintro ⟨a, rfl, rfl⟩
  rfl

theorem map_eq_error_iff {f : α → β} {e : ε} : x.map f = .error e ↔ x = .error e := by
  cases x with
  | error why => simp [Except.map]
  | ok a => simp [Except.map]

theorem ok_of_toOption {a : α} (h : x.toOption = some a) : x = .ok a := by
  cases x with
  | error why => cases h
  | ok b => exact congrArg Except.ok (Option.some.inj h)

end Results

end AttrChain
