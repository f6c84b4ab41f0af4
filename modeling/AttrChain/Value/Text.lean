import AttrChain.Decimal.Style
import AttrChain.Text.Quoted
import AttrChain.Text.Cut
import AttrChain.Value.Basic

/-!
The text of a value: as it is shown to the reader, and as it is spelled out in diagnostics.
-/

namespace AttrChain.Value

open AttrChain.Text AttrChain.Decimal

mutual

/-- The value as it is shown: texts as they are, lists in brackets and maps in braces. -/
def shown : Value → String
  | nil => "undefined"
  | null => "null"
  | bool b => if b then "true" else "false"
  | int n => n.toInt.repr
  | float x => Style.plain.write x
  | text s => s
  | list items => "[" ++ joinWith "," (shownItems items) ++ "]"
  | map entries => "\x7b" ++ joinWith "," (shownEntries entries) ++ "\x7d"
  | node id => id.text

def shownItems : List Value → List String
  | [] => []
  | v :: rest => shown v :: shownItems rest

def shownEntries : List (String × Value) → List String
  | [] => []
  | (k, v) :: rest => (k ++ ":" ++ shown v) :: shownEntries rest

end

mutual

def inspect : Value → String
  | nil => "Nil"
  | null => "Null"
  | bool b => "Bool(" ++ (if b then "true" else "false") ++ ")"
  | int n => "Int(" ++ n.toInt.repr ++ ")"
  | float x => "Float(" ++ Style.diagnostic.write x ++ ")"
  | text s => "Str(" ++ Quoted.encode s ++ ")"
  | list items => "List([" ++ joinWith ", " (inspectItems items) ++ "])"
  | map entries => "Map(\x7b" ++ joinWith ", " (inspectEntries entries) ++ "\x7d)"
  | node id => "Node(NodeId(" ++ id.index.repr ++ "))"

def inspectItems : List Value → List String
  | [] => []
  | v :: rest => inspect v :: inspectItems rest

def inspectEntries : List (String × Value) → List String
  | [] => []
  | (k, v) :: rest => (Quoted.encode k ++ ": " ++ inspect v) :: inspectEntries rest

end

def inspectAll (items : List Value) : String := "[" ++ joinWith ", " (inspectItems items) ++ "]"

end AttrChain.Value
