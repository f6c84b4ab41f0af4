import AttrChain.Literal.Basic
import AttrChain.Text.Apostrophes
import AttrChain.Value.Text

/-!
Writing values as literals, and argument lists.
-/

namespace AttrChain

open AttrChain.Text

def commaSpace : List Char := [',', ' ']

namespace Value

mutual

/-- The value as a literal: texts and keys in single quotes, anything else as it is shown. -/
def literal : Value → List Char
  | text s => Apostrophes.encode s
  | list items => '[' :: commaSpace.intercalate (literals items) ++ [']']
  | map entries => '\x7b' :: commaSpace.intercalate (literalEntries entries) ++ ['\x7d']
  | v => v.shown.toList

def literals : List Value → List (List Char)
  | [] => []
  | v :: rest => literal v :: literals rest

def literalEntries : List (String × Value) → List (List Char)
  | [] => []
  | (k, v) :: rest => (Apostrophes.encode k ++ ':' :: ' ' :: literal v) :: literalEntries rest

end

/-- The values that have literals: all but floating-point numbers and nodes. The keys of a map
ascend. -/
inductive IsLiteral : Value → Prop where
  | nil : IsLiteral nil
  | null : IsLiteral null
  | bool (b : Bool) : IsLiteral (bool b)
  | int (n : Int64) : IsLiteral (int n)
  | text (s : String) : IsLiteral (text s)
  | list {items : List Value} : (∀ v ∈ items, IsLiteral v) → IsLiteral (list items)
  | map {entries : List (String × Value)} : entries.Pairwise (fun a b => a.1 < b.1) →
      (∀ e ∈ entries, IsLiteral e.2) → IsLiteral (map entries)

end Value

namespace Literal

/-- The mark for live arguments: an underscore, with their number if it is not 0. -/
def flowMark (count : Nat) : List Char :=
  if count = 0 then ['_'] else '_' :: Nat.toDigits 10 count

end Literal

namespace Arguments

def written (a : Arguments) : List Char :=
  commaSpace.intercalate (Value.literals a.args ++ (a.rest.map Literal.flowMark).toList)

/-- Whether the arguments can be written: literals, and at most nine live ones behind them. -/
structure Writable (a : Arguments) : Prop where
  args : ∀ v ∈ a.args, v.IsLiteral
  rest : ∀ n ∈ a.rest, n ≤ 9

end Arguments

end AttrChain
