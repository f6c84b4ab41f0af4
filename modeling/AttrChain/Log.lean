/-!
Log entries.
-/

namespace AttrChain.Log

inductive Level where
  | error | warn | info | debug | trace
  deriving DecidableEq

/-- The rank of a level; a larger one is less important. -/
def Level.rank : Level → Nat
  | error => 1
  | warn => 2
  | info => 3
  | debug => 4
  | trace => 5

def Level.name : Level → String
  | error => "ERROR"
  | warn => "WARN"
  | info => "INFO"
  | debug => "DEBUG"
  | trace => "TRACE"

inductive Source where
  | host | control | builder | binder | document | dispatcher | session | program
  deriving DecidableEq

def Source.name : Source → String
  | host => "obt_core::host"
  | control => "obt_core::control"
  | builder => "obt_core::builder"
  | binder => "obt_core::binder"
  | document => "obt_cli::document"
  | dispatcher => "obt_cli::dispatcher"
  | session => "obt_cli::session"
  | program => "obt_cli"

structure Entry where
  level : Level
  source : Source
  message : String
  deriving DecidableEq

def Entry.line (e : Entry) : String := "[" ++ e.level.name ++ " " ++ e.source.name ++ "] " ++ e.message

end AttrChain.Log
