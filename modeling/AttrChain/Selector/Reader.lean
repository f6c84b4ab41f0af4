import AttrChain.Selector.Basic
import AttrChain.Text.Cut
import AttrChain.Text.Word

/-!
Reading selectors: alternatives between commas, compounds between blanks, and in a compound a tag or
a star before `#id`, `.class`, `[name]` and `[name=value]` in any order.
-/

namespace AttrChain

open AttrChain.Text

def isSelectorChar (c : Char) : Bool := isAlphanumeric c || c == '-' || c == '_'

def Compound.any : Compound := ⟨none, none, [], []⟩

def cutEquals : List Char → List Char × Option (List Char)
  | [] => ([], none)
  | c :: rest =>
    if c = '=' then ([], some rest)
    else
      let (name, value) := cutEquals rest
      (c :: name, value)

/-- The attribute test between square brackets: a name, perhaps with a value that may stand in
quotes. -/
def AttrTest.read (body : List Char) : AttrTest :=
  let (name, value) := cutEquals body
  { name := String.ofList (trim name)
    value := value.map fun v =>
      String.ofList (strip (fun c => c == '\x22' || c == '\x27') (trim v)) }

/-- Takes the tests at the start of `cs` into the compound `c`. The fuel bounds their number. -/
def Compound.readTests (full : String) (text : List Char) :
    Nat → List Char → Compound → Except Selector.Fault Compound
  | 0, _, c => .ok c
  | _, [], c => .ok c
  | fuel + 1, sign :: rest, c =>
    let name := rest.takeWhile isSelectorChar
    let behind := rest.dropWhile isSelectorChar
    match sign with
    | '#' =>
      if name.isEmpty then .error (.unexpected full '#')
      else readTests full text fuel behind { c with id := some (String.ofList name) }
    | '.' =>
      if name.isEmpty then .error (.unexpected full '.')
      else readTests full text fuel behind { c with classes := c.classes ++ [String.ofList name] }
    | '[' =>
      if !text.contains ']' then .error (.unterminated full)
      else
        let test := AttrTest.read (rest.takeWhile (· != ']'))
        if test.name.isEmpty then .error (.unexpected full '[')
        else
          readTests full text fuel ((rest.dropWhile (· != ']')).drop 1)
            { c with attrs := c.attrs ++ [test] }
    | other => .error (.unexpected full other)

/-- Reads a compound; `full` is the whole selector, for messages. -/
def Compound.read (full : String) (text : List Char) : Except Selector.Fault Compound :=
  match text with
  | '*' :: rest => readTests full text text.length rest any
  | _ =>
    let name := text.takeWhile isSelectorChar
    let tag := if name.isEmpty then none else some (String.ofList name)
    readTests full text text.length (text.dropWhile isSelectorChar) { any with tag }

def Complex.read (full : String) (text : List Char) : Except Selector.Fault Complex := do
  let parts ← (words text).mapM (Compound.read full)
  if parts.isEmpty then throw .empty
  return ⟨parts⟩

def Selector.read (text : String) : Except Selector.Fault Selector := do
  return ⟨← (splitOn ',' text.toList).mapM (Complex.read text)⟩

end AttrChain
