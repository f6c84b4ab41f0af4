import AttrChain.Dict
import AttrChain.Error
import AttrChain.Instruction.Basic
import AttrChain.Text.Cut

/-!
Tables of instructions by name. A table inside a table is reached by a dotted name.
-/

namespace AttrChain

inductive Entry (ι : Type) where
  | leaf (i : Instruction ι)
  | table (entries : List (String × Entry ι))

/-- Entries by name, in ascending order of the names. -/
structure Table (ι : Type) where
  entries : List (String × Entry ι)

namespace Table

variable {ι κ : Type}

def empty : Table ι := ⟨[]⟩

def hasEntry (t : Table ι) (name : String) : Bool := (Dict.get? name t.entries).isSome

def set (t : Table ι) (name : String) (i : Instruction ι) : Table ι :=
  ⟨Dict.insert name (.leaf i) t.entries⟩

def ofList (instructions : List (String × Instruction ι)) : Table ι :=
  instructions.foldl (fun t (name, i) => t.set name i) empty

/-- Adds an entry; a name can be taken only once. -/
def addEntry (t : Table ι) (name : String) (entry : Entry ι) : Except Error (Table ι) :=
  if t.hasEntry name then .error (.duplicateInstruction name)
  else .ok ⟨Dict.insert name entry t.entries⟩

def register (t : Table ι) (name : String) (i : Instruction ι) : Except Error (Table ι) :=
  t.addEntry name (.leaf i)

/-- Adds a table, of which the entries are then reached by names with `name` and a dot in front. -/
def nest (t : Table ι) (name : String) (inner : Table ι) : Except Error (Table ι) :=
  t.addEntry name (.table inner.entries)

def mergeEntries (t : Table ι) : List (String × Entry ι) → Option Error × Table ι
  | [] => (none, t)
  | (name, entry) :: rest =>
    match t.addEntry name entry with
    | .error e => (some e, t)
    | .ok t => t.mergeEntries rest

/-- Adds the entries of another table in ascending order up to the first of which the name is
taken. -/
def merge (t other : Table ι) : Option Error × Table ι := t.mergeEntries other.entries

def find? : List String → List (String × Entry ι) → Option (Instruction ι)
  | [], _ => none
  | part :: path, entries =>
    match Dict.get? part entries, path with
    | some (.leaf i), [] => some i
    | some (.table inner), _ :: _ => find? path inner
    | _, _ => none

def pathOf (name : String) : List String := (Text.splitOn '.' name.toList).map String.ofList

def get? (t : Table ι) (name : String) : Option (Instruction ι) := find? (pathOf name) t.entries

mutual

def namesOfEntry (name : String) : Entry ι → List String
  | .leaf _ => [name]
  | .table entries => (namesOfEntries entries).map fun n => name ++ "." ++ n

def namesOfEntries : List (String × Entry ι) → List String
  | [] => []
  | (name, entry) :: rest => namesOfEntry name entry ++ namesOfEntries rest

end

def names (t : Table ι) : List String := namesOfEntries t.entries

def size (t : Table ι) : Nat := t.entries.length

mutual

def mapEntry (f : ι → κ) : Entry ι → Entry κ
  | .leaf i => .leaf (i.map f)
  | .table entries => .table (mapEntries f entries)

def mapEntries (f : ι → κ) : List (String × Entry ι) → List (String × Entry κ)
  | [] => []
  | (name, entry) :: rest => (name, mapEntry f entry) :: mapEntries f rest

end

def map (f : ι → κ) (t : Table ι) : Table κ := ⟨mapEntries f t.entries⟩

end Table

structure Tables (ι : Type) where
  on : Table ι
  calls : Table ι
  update : Table ι
  next : Table ι

def Tables.table {ι : Type} (t : Tables ι) : Phase → Table ι
  | .on => t.on
  | .by => t.calls
  | .update => t.update
  | .next => t.next

def Tables.resolve {ι : Type} (t : Tables ι) (phase : Phase) (name : String) :
    Except Error (Instruction ι) :=
  match (t.table phase).get? name with
  | some i => .ok i
  | none => .error (.unknownInstruction phase name)

end AttrChain
