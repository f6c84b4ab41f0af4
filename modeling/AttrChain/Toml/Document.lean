import AttrChain.Text.Cut
import AttrChain.Toml.Value

/-!
TOML documents: line by line a pair, or the header of a table, read and put together into one
tree.
-/

namespace AttrChain.Toml

/-- What a line says: a key has a value, or a table opens, on its own or in a list of tables. -/
inductive Line where
  | pair (key : List String) (value : Json)
  | table (key : List String)
  | element (key : List String)

def readHeader? (closing : List Char) (cs : List Char) : Option (List String × List Char) := do
  let (key, rest) ← readKey? cs
  let rest ← Text.afterStart closing rest
  let rest ← readLineEnd? rest
  return (key, rest)

def readLine? (cs : List Char) : Option (Line × List Char) :=
  match cs with
  | '[' :: '[' :: rest =>
    (readHeader? [']', ']'] rest).map fun (key, rest) => (.element key, rest)
  | '[' :: rest => (readHeader? [']'] rest).map fun (key, rest) => (.table key, rest)
  | cs => (readPair? cs).map fun (pair, rest) => (.pair pair.1 pair.2, rest)

def readLines? : Nat → List Char → Option (List Line)
  | 0, _ => none
  | fuel + 1, cs =>
    match skipBlank cs with
    | [] => some []
    | cs => match readLineEnd? cs with
      | some rest => readLines? fuel rest
      | none => do
        let (line, rest) ← readLine? cs
        let lines ← readLines? fuel rest
        return line :: lines

/-- The tree put together so far, and the key of the table that was opened last. -/
structure Draft where
  root : Tree.Entries
  current : List String

def Draft.add (d : Draft) : Line → Option Draft
  | .pair key value => (Tree.assignIn d.current key value d.root).map fun root => { d with root }
  | .table key => (Tree.openTable key d.root).map fun root => ⟨root, key⟩
  | .element key => (Tree.openElement key d.root).map fun root => ⟨root, key⟩

def ofLines? (lines : List Line) : Option Json :=
  (lines.foldlM Draft.add ⟨[], []⟩).map fun d => .object (Tree.toJsonEntries d.root)

def withoutMark : List Char → List Char
  | '\uFEFF' :: rest => rest
  | cs => cs

def read? (s : String) : Option Json :=
  let cs := withoutMark s.toList
  (readLines? (cs.length + 1) cs).bind ofLines?

end AttrChain.Toml
