import AttrChain.Decimal.Style
import AttrChain.Json.Basic
import AttrChain.Text.Cut
import AttrChain.Text.Numeral

/-!
Writing JSON texts, on one line or indented.
-/

namespace AttrChain.Json

open AttrChain.Text AttrChain.Decimal

def encodeChar (c : Char) : List Char :=
  if c == '\x22' then ['\\', '\x22']
  else if c == '\\' then ['\\', '\\']
  else if c == '\x08' then ['\\', 'b']
  else if c == '\x0c' then ['\\', 'f']
  else if c == '\n' then ['\\', 'n']
  else if c == '\r' then ['\\', 'r']
  else if c == '\t' then ['\\', 't']
  else if c.toNat < 0x20 then
    ['\\', 'u', '0', '0', hexDigit (c.toNat / 16), hexDigit (c.toNat % 16)]
  else [c]

def quote (s : String) : String :=
  String.ofList ('\x22' :: s.toList.flatMap encodeChar ++ ['\x22'])

mutual

def compact : Json → String
  | null => "null"
  | bool b => if b then "true" else "false"
  | int n => n.repr
  | float x => Style.json.write x
  | text s => quote s
  | array items => "[" ++ joinWith "," (compactItems items) ++ "]"
  | object fields => "\x7b" ++ joinWith "," (compactFields fields) ++ "\x7d"

def compactItems : List Json → List String
  | [] => []
  | item :: rest => compact item :: compactItems rest

def compactFields : List (String × Json) → List String
  | [] => []
  | (key, value) :: rest => (quote key ++ ":" ++ compact value) :: compactFields rest

end

def indent (depth : Nat) : String := "\n" ++ String.ofList (List.replicate (2 * depth) ' ')

/-- The lines of a list or object between its brackets; an empty one stays on its line. -/
def block (depth : Nat) (opening closing : String) (lines : List String) : String :=
  if lines.isEmpty then opening ++ closing
  else opening ++ indent (depth + 1) ++ joinWith ("," ++ indent (depth + 1)) lines
    ++ indent depth ++ closing

mutual

def prettyAt (depth : Nat) : Json → String
  | array items => block depth "[" "]" (prettyItems (depth + 1) items)
  | object fields => block depth "\x7b" "\x7d" (prettyFields (depth + 1) fields)
  | null => "null"
  | bool b => compact (bool b)
  | int n => compact (int n)
  | float x => compact (float x)
  | text s => compact (text s)

def prettyItems (depth : Nat) : List Json → List String
  | [] => []
  | item :: rest => prettyAt depth item :: prettyItems depth rest

def prettyFields (depth : Nat) : List (String × Json) → List String
  | [] => []
  | (key, value) :: rest => (quote key ++ ": " ++ prettyAt depth value) :: prettyFields depth rest

end

def pretty (json : Json) : String := prettyAt 0 json

end AttrChain.Json
