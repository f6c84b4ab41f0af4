import AttrChain.Descriptor.Basic
import AttrChain.Filter.Reader
import AttrChain.Literal.Reader
import AttrChain.Split
import AttrChain.Text.Cut

/-!
Reading descriptors from attribute text.
-/

namespace AttrChain

open AttrChain.Text

def isPlaceholder (cs : List Char) : Bool := cs == ['-']

def slotSplitter : Splitter := ⟨';', [.call, .quote]⟩

def itemSplitter : Splitter := ⟨' ', [.call, .quote, .square, .brace]⟩

def partSplitter : Splitter := ⟨'|', [.call, .quote, .square, .brace]⟩

/-- The characters with every blank outside quotes made a plain space; `quote` is the open quote,
`escaped` tells whether a backslash stands before. -/
def spaceBlanksFrom : Option Char → Bool → List Char → List Char
  | _, _, [] => []
  | some q, escaped, c :: rest =>
    c :: (if escaped then spaceBlanksFrom (some q) false rest
      else if c = '\\' then spaceBlanksFrom (some q) true rest
      else if c = q then spaceBlanksFrom none false rest
      else spaceBlanksFrom (some q) false rest)
  | none, _, c :: rest =>
    (if isBlank c then ' ' else c) ::
      spaceBlanksFrom (if isQuote c then some c else none) false rest

def spaceBlanks (cs : List Char) : List Char := spaceBlanksFrom none false cs

def items (cs : List Char) : List (List Char) :=
  ((itemSplitter.split cs).map trim).filter (!·.isEmpty)

def slot (cs : List Char) : List Char :=
  let text := trim cs
  if isPlaceholder text then [] else text

/-- The descriptor groups of a node. On slots that are empty are dropped; the `i`-th of the others
goes with the `i`-th By slot and the `i`-th To slot. -/
def Group.ofTexts (onText byText toText : String) : List Group :=
  let slots (s : String) := (slotSplitter.split s.toList).map slot
  let bys := slots byText
  let tos := slots toText
  ((slots onText).filter (!·.isEmpty)).zipIdx.map fun (on, i) =>
    { onText := String.ofList on
      byText := String.ofList (bys[i]?.getD [])
      toText := String.ofList (tos[i]?.getD []) }

def inParens? (cs : List Char) : Option (List Char) :=
  match cs with
  | '(' :: rest => if rest.getLast? == some ')' then some rest.dropLast else none
  | _ => none

def argsText? (cs : List Char) : Option (Option (List Char)) :=
  if cs.isEmpty then some none else (inParens? cs).map some

def isEventChar (c : Char) : Bool := isWordChar c || c == '.' || c == ':' || c == '-'

def isCallStart (c : Char) : Bool := isWordChar c || c == '$'

def isCallChar (c : Char) : Bool := isCallStart c || c == '.' || c == '-'

def readName? (start part : Char → Bool) (cs : List Char) : Option (List Char × List Char) :=
  match cs with
  | c :: rest => if start c then some (c :: rest.takeWhile part, rest.dropWhile part) else none
  | [] => none

/-- Reads an event: `^` for once or `@` for stored, a name, and perhaps a selector in
parentheses. -/
def Trigger.read (cs : List Char) : Except Error Trigger :=
  let (once, stored, text) := match cs with
    | '^' :: rest => (true, false, rest)
    | '@' :: rest => (false, true, rest)
    | cs => (false, false, cs)
  let parts? := do
    let (name, rest) ← readName? isWordChar isEventChar text
    let selector? ← argsText? rest
    return (name, selector?)
  match parts? with
  | none => .error (.badEvent (String.ofList cs))
  | some (name, selector?) =>
    let selector? := (selector?.map trim).filter (!·.isEmpty)
    .ok ⟨String.ofList name, selector?.map String.ofList, once, stored⟩

def pushName : String := "push"

def readArgs? (text? : Option (List Char)) : Except Error Arguments :=
  match text? with
  | some text => Arguments.read text
  | none => .ok .empty

def Call.read (cs : List Char) : Except Error Call :=
  let parts? := match readName? isCallStart isCallChar cs with
    | some (name, rest) => (argsText? rest).map fun text? => (String.ofList name, text?)
    | none => (argsText? cs).map fun text? => (pushName, text?)
  match parts? with
  | none => .error (.badCall (String.ofList cs))
  | some (name, text?) => (readArgs? text?).map fun a => ⟨name, a.args, a.rest⟩

def Call.readAll (cs : List Char) : Except Error (List Call) :=
  let text := spaceBlanks cs
  if isPlaceholder (trim text) then .ok [] else (items text).mapM Call.read

def Trigger.readSlot (cs : List Char) : Except Error (List Trigger × List Call) :=
  let parts := partSplitter.splitN 1 (trim cs)
  do
    let triggers ← (items (spaceBlanks (parts[0]?.getD []))).mapM Trigger.read
    if triggers.isEmpty then throw (.badEvent (String.ofList (trim cs)))
    return (triggers, ← Call.readAll (parts[1]?.getD []))

def isPlaceChar (c : Char) : Bool := isWordDigit c || c == ',' || isBlank c

def between? (opening closing : Char) (cs : List Char) : Option (List Char) :=
  match cs with
  | c :: rest =>
    if c = opening ∧ rest.getLast? = some closing then some rest.dropLast else none
  | [] => none

/-- Reads the refinement of a query: bounds in parentheses, places in square brackets, or a filter
in braces. Bounds that are not numbers are left open. -/
def Refinement.read (cs : List Char) : Except Error Refinement :=
  let bad := Error.badQuery (String.ofList cs)
  match (between? '(' ')' cs).filter (·.all isPlaceChar) with
  | some text =>
    let bounds := (splitOn ',' text).map fun s => readSize? (trim s)
    .ok (.range (bounds[0]?.getD none) (bounds[1]?.getD none))
  | none => match (between? '[' ']' cs).filter (·.all isPlaceChar) with
    | some text =>
      let places := ((splitOn ',' text).map trim).filter (!·.isEmpty)
      match places.mapM readSize? with
      | some indices => .ok (.places indices)
      | none => .error bad
    | none => match between? '\x7b' '\x7d' cs with
      | some text => (Filter.Expr.read text).map .test
      | none => .error bad

def isOpening (c : Char) : Bool := c == '(' || c == '[' || c == '\x7b'

def isClosing (c : Char) : Bool := c == ')' || c == ']' || c == '\x7d'

/-- What may stand behind the selector of a query: nothing, or a text in brackets, which need not
be of one kind. -/
def refinementText? (cs : List Char) : Option (Option (List Char)) :=
  match cs.dropWhile isBlank with
  | [] => some none
  | c :: rest =>
    if isOpening c && 2 ≤ rest.length && (rest.getLast?.map isClosing).getD false then
      some (some (c :: rest))
    else none

/-- Cuts a query behind its opening parenthesis: the selector up to the first closing parenthesis
that leaves a well-formed rest, and the refinement. -/
def cutQuery? : List Char → Option (List Char × Option (List Char))
  | [] => none
  | c :: rest =>
    let later := (cutQuery? rest).map fun (selector, text?) => (c :: selector, text?)
    if c = ')' then
      match refinementText? rest with
      | some text? => some ([], text?)
      | none => later
    else later

/-- Reads a query: nothing for the start, a bare selector for its first match, or a selector in
parentheses for all matches, perhaps with a refinement. -/
def Query.read (cs : List Char) : Except Error Query :=
  let text := trim cs
  if text.isEmpty || isPlaceholder text then .ok .start
  else match text with
    | '(' :: rest =>
      match cutQuery? rest with
      | none => .error (.badQuery (String.ofList text))
      | some (selector, none) => .ok ⟨String.ofList (trim selector), false, none⟩
      | some (selector, some refinement) =>
        (Refinement.read refinement).map fun r => ⟨String.ofList (trim selector), false, some r⟩
    | _ => .ok ⟨String.ofList text, true, none⟩

def signUpdate? : Char → Option String
  | '@' => some "attr"
  | '$' => some "prop"
  | '%' => some "css"
  | '^' => some "toggleAttr"
  | _ => none

def Update.readNamed (cs : List Char) : Except Error Update :=
  let parts? := do
    let (name, rest) ← readName? isWordChar isWordChar cs
    let text? ← argsText? rest
    return (name, text?)
  match parts? with
  | none => .error (.badUpdate (String.ofList cs))
  | some (name, text?) => do
    let a ← readArgs? text?
    if a.rest.isSome then throw (.badUpdate (String.ofList cs))
    return ⟨String.ofList name, a.args⟩

def Update.read (cs : List Char) : Except Error Update :=
  match cs with
  | [] => readNamed cs
  | c :: rest =>
    match signUpdate? c with
    | none => readNamed cs
    | some name =>
      if rest.isEmpty then .error (.badUpdate (String.ofList cs))
      else .ok ⟨name, [.text (String.ofList rest)]⟩

def Update.readAll (cs : List Char) : Except Error (List Update) :=
  let text := spaceBlanks cs
  if isPlaceholder (trim text) then .ok [] else (items text).mapM Update.read

def Target.read (cs : List Char) : Except Error (Option Target) :=
  let text := trim cs
  if text.isEmpty then .ok none
  else
    let parts := partSplitter.splitN 2 text
    do
      let query ← Query.read (parts[0]?.getD [])
      let updates ← Update.readAll (parts[1]?.getD [])
      let calls ← Call.readAll (parts[2]?.getD [])
      return some ⟨query, updates, calls⟩

end AttrChain
