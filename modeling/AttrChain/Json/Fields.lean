import AttrChain.Dict
import AttrChain.Json.Basic

/-!
Reading records out of documents. A record is written as an object, of which unknown fields are
passed over, or as an array of the values of its fields in order.
-/

namespace AttrChain.Json

/-- The ways in which forms of writing differ: whether an array may go on behind the last field of
a record, and what may stand as the content of a choice that has none. -/
structure Dialect where
  surplus : Bool
  isUnit : Json → Bool

/-- The texts that are read as JSON: arrays end with the last field, and no content is `null`. -/
def Dialect.json : Dialect where
  surplus := false
  isUnit
    | null => true
    | _ => false

/-- The texts that are read as tables: what stands behind the last field is passed over, and no
content is an empty list or table. -/
def Dialect.tables : Dialect where
  surplus := true
  isUnit
    | array [] | object [] => true
    | _ => false

structure Fields where
  entries : List (String × Json)
  named : Bool

def fields? (d : Dialect) (names : List String) : Json → Option Fields
  | object entries => some ⟨entries, true⟩
  | array items =>
    if d.surplus || items.length ≤ names.length then some ⟨names.zip items, false⟩ else none
  | _ => none

namespace Fields

variable {α : Type}

def required (f : Fields) (name : String) (read : Json → Option α) : Option α :=
  (Dict.get? name f.entries).bind read

def orElse (f : Fields) (name : String) (default : α) (read : Json → Option α) : Option α :=
  match Dict.get? name f.entries with
  | some json => read json
  | none => some default

/-- A field that may be missing by name, and may be `null`; in an array its place has to be
there. -/
def optional (f : Fields) (name : String) (read : Json → Option α) : Option (Option α) :=
  match Dict.get? name f.entries with
  | some .null => some none
  | some json => (read json).map some
  | none => if f.named then some none else none

end Fields

def asText? : Json → Option String
  | text s => some s
  | _ => none

def asBool? : Json → Option Bool
  | bool b => some b
  | _ => none

def asList? {α : Type} (read : Json → Option α) : Json → Option (List α)
  | array items => items.mapM read
  | _ => none

def asTexts? : Json → Option (List (String × String))
  | object entries =>
    (entries.mapM fun entry => (asText? entry.2).map fun s => (entry.1, s)).map Dict.ofList
  | _ => none

/-- One of several choices: its name, or an object that gives it no content. -/
def asChoice? {α : Type} (d : Dialect) (choices : List (String × α)) : Json → Option α
  | text s => Dict.get? s choices
  | object [(name, content)] => if d.isUnit content then Dict.get? name choices else none
  | _ => none

end AttrChain.Json
