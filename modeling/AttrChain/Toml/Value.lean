import AttrChain.Toml.DateTime
import AttrChain.Toml.Number
import AttrChain.Toml.Text
import AttrChain.Toml.Tree

/-!
TOML keys and values. Lists and tables nest at most 79 deep, and a key has at most 79 parts.
-/

namespace AttrChain.Toml

def isKeyChar (c : Char) : Bool := c.isAlphanum || c == '_' || c == '-'

def readPart? (cs : List Char) : Option (String × List Char) :=
  let cs := skipBlank cs
  let part := match cs with
    | '\x22' :: _ | '\x27' :: _ => readShortText? cs
    | cs =>
      let bare := cs.takeWhile isKeyChar
      if bare.isEmpty then none else some (String.ofList bare, cs.dropWhile isKeyChar)
  part.map fun (s, rest) => (s, skipBlank rest)

def readParts? : Nat → List Char → Option (List String × List Char)
  | 0, _ => none
  | fuel + 1, cs => do
    let (part, rest) ← readPart? cs
    match rest with
    | '.' :: rest =>
      let (parts, rest) ← readParts? fuel rest
      return (part :: parts, rest)
    | rest => return ([part], rest)

def readKey? (cs : List Char) : Option (List String × List Char) := readParts? 79 cs

/-- The field under which a date or time stands. -/
def dateTimeKey : String := "$__toml_private_datetime"

def readNumber? (cs : List Char) : Option (Json × List Char) :=
  match readDateTime? cs with
  | some (s, rest) => some (.object [(dateTimeKey, .text s)], rest)
  | none => match (readDecimal? cs).or (readSpecial? cs) with
    | some (x, rest) => some (.float x, rest)
    | none => (readInteger? cs).map fun (n, rest) => (.int n, rest)

abbrev Pair := List String × Json

def tableOf? (pairs : List Pair) : Option Json :=
  (pairs.foldlM (fun entries (key, value) => Tree.assign key value .header entries) []).map
    fun entries => .object (Tree.toJsonEntries entries)

mutual

/-- A value, and the rest; `depth` is the nesting still allowed. -/
def readValue? : Nat → Nat → List Char → Option (Json × List Char)
  | 0, _, _ => none
  | fuel + 1, depth, cs =>
    match cs with
    | '\x22' :: _ | '\x27' :: _ => (readText? cs).map fun (s, rest) => (.text s, rest)
    | 't' :: 'r' :: 'u' :: 'e' :: rest => some (.bool true, rest)
    | 'f' :: 'a' :: 'l' :: 's' :: 'e' :: rest => some (.bool false, rest)
    | '[' :: rest =>
      match depth with
      | 0 => none
      | depth + 1 => (readItems? fuel depth rest).map fun (items, rest) => (.array items, rest)
    | '\x7b' :: rest =>
      match depth, skipBlank rest with
      | 0, _ => none
      | _ + 1, '\x7d' :: rest => some (.object [], rest)
      | depth + 1, _ => do
        let (pairs, rest) ← readPairs? fuel depth rest
        let table ← tableOf? pairs
        return (table, rest)
    | cs => readNumber? cs

/-- The items of a list up to the closing bracket. A comma may stand behind the last one. -/
def readItems? : Nat → Nat → List Char → Option (List Json × List Char)
  | 0, _, _ => none
  | fuel + 1, depth, cs =>
    match skipGap cs with
    | ']' :: rest => some ([], rest)
    | cs => do
      let (item, rest) ← readValue? fuel depth cs
      match skipGap rest with
      | ',' :: rest =>
        let (items, rest) ← readItems? fuel depth rest
        return (item :: items, rest)
      | ']' :: rest => return ([item], rest)
      | _ => none

def readPairs? : Nat → Nat → List Char → Option (List Pair × List Char)
  | 0, _, _ => none
  | fuel + 1, depth, cs => do
    let (key, rest) ← readKey? cs
    let rest ← readMark? '=' rest
    let (value, rest) ← readValue? fuel depth (skipBlank rest)
    match skipBlank rest with
    | ',' :: rest =>
      let (pairs, rest) ← readPairs? fuel depth rest
      return ((key, value) :: pairs, rest)
    | '\x7d' :: rest => return ([(key, value)], rest)
    | _ => none

end

def readPair? (cs : List Char) : Option (Pair × List Char) := do
  let (key, rest) ← readKey? cs
  let rest ← readMark? '=' rest
  let (value, rest) ← readValue? (2 * rest.length + 2) 79 (skipBlank rest)
  let rest ← readLineEnd? rest
  return ((key, value), rest)

end AttrChain.Toml
