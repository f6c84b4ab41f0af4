import AttrChain.Dict
import AttrChain.Json.Basic

/-!
Trees of tables as they are put together, key by key. A table may be written out only once, and what
is there already cannot be given another value.
-/

namespace AttrChain.Toml

/-- How a table came to be: written out under its own header, on the way to the table of another
header, or on the way to the last part of a dotted key. -/
inductive Made where
  | header | passage | dotted
  deriving DecidableEq

/-- What stands under a key: a value, a table, or a list of tables under headers. -/
inductive Tree where
  | leaf (json : Json)
  | table (made : Made) (entries : List (String × Tree))
  | series (elements : List (List (String × Tree)))

namespace Tree

abbrev Entries := List (String × Tree)

/-- Changes the table at the end of a path; tables on the way that are not there are made as
`made`. In a list of tables the way leads into the last one. The way of a dotted key does not lead
into a table under its own header. -/
def change (made : Made) (f : Made → Entries → Option Entries) :
    List String → Made → Entries → Option Entries
  | [], own, entries => f own entries
  | key :: path, _, entries =>
    match Dict.get? key entries with
    | none =>
      (change made f path made []).map fun inner => Dict.insert key (.table made inner) entries
    | some (.leaf _) => none
    | some (.table own inner) =>
      if made = .dotted ∧ own = .header then none
      else (change made f path own inner).map fun inner =>
        Dict.insert key (.table own inner) entries
    | some (.series elements) =>
      (change made f path .header (elements.getLast?.getD [])).map fun inner =>
        Dict.insert key (.series (elements.dropLast ++ [inner])) entries

/-- Gives a value to a dotted key in a table. Only a table that dotted keys have made is filled by
them. -/
def assign (key : List String) (value : Json) (own : Made) (entries : Entries) : Option Entries :=
  let path := key.dropLast
  let last := key.getLast?.getD ""
  change .dotted (fun own entries =>
    if own = .dotted ↔ path.isEmpty then none
    else if (Dict.get? last entries).isSome then none
    else some (Dict.insert last (.leaf value) entries)) path own entries

def openTable (key : List String) (root : Entries) : Option Entries :=
  let last := key.getLast?.getD ""
  change .passage (fun _ entries =>
    match Dict.get? last entries with
    | none => some (Dict.insert last (.table .header []) entries)
    | some (.table .passage inner) => some (Dict.insert last (.table .header inner) entries)
    | some _ => none) key.dropLast .header root

def openElement (key : List String) (root : Entries) : Option Entries :=
  let last := key.getLast?.getD ""
  change .passage (fun _ entries =>
    match Dict.get? last entries with
    | none => some (Dict.insert last (.series [[]]) entries)
    | some (.series elements) => some (Dict.insert last (.series (elements ++ [[]])) entries)
    | some _ => none) key.dropLast .header root

def assignIn (current key : List String) (value : Json) (root : Entries) : Option Entries :=
  change .passage (assign key value) current .header root

mutual

def toJson : Tree → Json
  | leaf json => json
  | table _ entries => .object (toJsonEntries entries)
  | series elements => .array (toJsonElements elements)

def toJsonEntries : List (String × Tree) → List (String × Json)
  | [] => []
  | (key, tree) :: rest => (key, toJson tree) :: toJsonEntries rest

def toJsonElements : List (List (String × Tree)) → List Json
  | [] => []
  | entries :: rest => .object (toJsonEntries entries) :: toJsonElements rest

end

end Tree

end AttrChain.Toml
