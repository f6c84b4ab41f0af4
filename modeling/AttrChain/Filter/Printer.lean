import AttrChain.Filter.Basic
import AttrChain.Text.Apostrophes
import AttrChain.Text.Word

/-!
Writing filter expressions with as few parentheses as their operators need.
-/

namespace AttrChain.Filter

open AttrChain.Text

def Op.sign : Op → String
  | or => "||"
  | and => "&&"
  | eq => "=="
  | ne => "!="
  | lt => "<"
  | le => "<="
  | gt => ">"
  | ge => ">="
  | add => "+"
  | sub => "-"
  | mul => "*"
  | div => "/"
  | mod => "%"

def Token.written : Token → List Char
  | num n => n.toInt.repr.toList
  | text s => Apostrophes.encode s
  | word name => name.toList
  | op o => o.sign.toList
  | bang => ['!']
  | opening => ['(']
  | closing => [')']

def writtenAll (ts : List Token) : List Char := [' '].intercalate (ts.map Token.written)

namespace Expr

/-- How tightly the outermost operator between two operands binds. An expression without one holds
together more tightly than any operator binds. -/
def tightness : Expr → Nat
  | binary op _ _ => op.precedence
  | _ => 7

def parenthesized (needed : Bool) (ts : List Token) : List Token :=
  if needed then .opening :: ts ++ [.closing] else ts

/-- The tokens of an expression. An operand is in parentheses if its operator binds more loosely
than the one around it, on the right also if it binds as tightly; behind a sign it is if it has an
operator at all. -/
def tokens : Expr → List Token
  | num n => [.num n]
  | text s => [.text s]
  | index => [.word "i"]
  | count => [.word "n"]
  | item none => [.word "v"]
  | item (some field) => [.word ("v." ++ field)]
  | not e => .bang :: parenthesized (e.tightness < 7) e.tokens
  | neg e => .op .sub :: parenthesized (e.tightness < 7) e.tokens
  | binary op left right =>
    parenthesized (left.tightness < op.precedence) left.tokens ++
      .op op :: parenthesized (right.tightness ≤ op.precedence) right.tokens

def written (e : Expr) : List Char := writtenAll e.tokens

/-- Whether the text of the expression says all of it: no negative numbers, since a sign is an
operand's and not a number's, and only names that are made of letters, numbers and underscores. -/
def Writable : Expr → Prop
  | num n => 0 ≤ n.toInt
  | item (some field) => field ≠ "" ∧ ∀ c ∈ field.toList, isAlphanumeric c = true ∨ c = '_'
  | not e => e.Writable
  | neg e => e.Writable
  | binary _ left right => left.Writable ∧ right.Writable
  | _ => True

end Expr

end AttrChain.Filter
