import AttrChain.Text.Cut

/-!
Complaints: what failed, and why, for the reader of the command line.
-/

namespace AttrChain

structure Complaint where
  what : String
  cause : Option String
  deriving DecidableEq

namespace Complaint

def line (c : Complaint) : String :=
  match c.cause with
  | some cause => c.what ++ ": " ++ cause
  | none => c.what

def indented (s : String) : String :=
  Text.joinWith "\n"
    ((Text.splitOn '\n' s.toList).map fun line => "    " ++ String.ofList line)

def text (c : Complaint) : String :=
  "Error: " ++ c.what
    ++ (match c.cause with
      | some cause => "\n\nCaused by:\n" ++ indented cause
      | none => "")
    ++ "\n"

end Complaint

end AttrChain
