import AttrChain.Value.Basic

/-!
Filter expressions: what they are made of, and what can be wrong with their text.
-/

namespace AttrChain.Filter

inductive Op where
  | or | and | eq | ne | lt | le | gt | ge | add | sub | mul | div | mod
  deriving DecidableEq

/-- How tightly an operator binds; all are grouped from the left. -/
def Op.precedence : Op → Nat
  | or => 1
  | and => 2
  | eq | ne => 3
  | lt | le | gt | ge => 4
  | add | sub => 5
  | mul | div | mod => 6

def Op.name : Op → String
  | or => "Or"
  | and => "And"
  | eq => "Eq"
  | ne => "Ne"
  | lt => "Lt"
  | le => "Le"
  | gt => "Gt"
  | ge => "Ge"
  | add => "Add"
  | sub => "Sub"
  | mul => "Mul"
  | div => "Div"
  | mod => "Mod"

/-- A condition on one match of a query: its place, the number of matches, the match itself and its
named fields. -/
inductive Expr where
  | num (n : Int64)
  | text (s : String)
  | index
  | count
  | item (field : Option String)
  | not (e : Expr)
  | neg (e : Expr)
  | binary (op : Op) (left right : Expr)
  deriving DecidableEq

inductive Token where
  | num (n : Int64)
  | text (s : String)
  | word (name : String)
  | op (o : Op)
  | bang
  | opening
  | closing
  deriving DecidableEq

inductive Fault where
  | hugeNumber (digits : String)
  | openText
  | unexpectedChar (c : Char)
  | trailing
  | ended
  | unknownName (name : String)
  | unclosed
  | strayOp (o : Op)
  | strayClosing
  deriving DecidableEq

def Fault.message : Fault → String
  | hugeNumber digits => "number `" ++ digits ++ "` out of range"
  | openText => "unterminated string"
  | unexpectedChar c => "unexpected character `" ++ c.toString ++ "`"
  | trailing => "trailing input"
  | ended => "unexpected end of expression"
  | unknownName name => "unknown identifier `" ++ name ++ "`"
  | unclosed => "missing `)`"
  | strayOp o => "unexpected token Op(" ++ o.name ++ ")"
  | strayClosing => "unexpected token RParen"

end AttrChain.Filter
