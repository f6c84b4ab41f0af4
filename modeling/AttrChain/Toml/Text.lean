import AttrChain.Text.Numeral
import AttrChain.Toml.Blank

/-!
TOML texts: in double quotes with escapes or in single quotes as they are, on one line or, between
three quotes, on several.
-/

namespace AttrChain.Toml

def escapeWidth? : Char → Option Nat
  | 'u' => some 4
  | 'U' => some 8
  | _ => none

def escaped? : Char → Option Char
  | 'b' => some '\x08'
  | 'f' => some '\x0c'
  | 'n' => some '\n'
  | 'r' => some '\r'
  | 't' => some '\t'
  | '\x22' => some '\x22'
  | '\\' => some '\\'
  | _ => none

def readEscape? : List Char → Option (Char × List Char)
  | [] => none
  | c :: rest =>
    match escapeWidth? c with
    | none => (escaped? c).map fun d => (d, rest)
    | some width =>
      let digits := rest.take width
      let n := Text.appendDigits 16 0 digits
      if digits.length = width ∧ digits.all Text.isHexDigit ∧ n.isValidChar then
        some (Char.ofNat n, rest.drop width)
      else none

def readBasic? : Nat → List Char → Option (List Char × List Char)
  | 0, _ => none
  | _, [] => none
  | fuel + 1, c :: rest =>
    if c == '\x22' then some ([], rest)
    else if c == '\\' then do
      let (d, rest) ← readEscape? rest
      let (ds, rest) ← readBasic? fuel rest
      return (d :: ds, rest)
    else if isPlain c then (readBasic? fuel rest).map fun (ds, rest) => (c :: ds, rest)
    else none

def readLiteral? : List Char → Option (List Char × List Char)
  | [] => none
  | c :: rest =>
    if c == '\x27' then some ([], rest)
    else if isPlain c then (readLiteral? rest).map fun (ds, rest) => (c :: ds, rest)
    else none

/-- The rest after a backslash at the end of a line: all blanks and ends of lines are passed over. -/
def readContinuation? (cs : List Char) : Option (List Char) :=
  (readNewline? (skipBlank cs)).map fun rest => skipBlankLines (rest.length + 1) rest

/-- The characters of a text between three quotes up to the closing ones, and the rest. One or two
quotes are part of the text, also in front of the closing ones. -/
def readLong? (quote : Char) (escapes : Bool) : Nat → List Char → Option (List Char × List Char)
  | 0, _ => none
  | _, [] => none
  | fuel + 1, c :: rest =>
    let quotes := ((c :: rest).takeWhile (· == quote)).length
    if 3 ≤ quotes then
      let inside := min (quotes - 3) 2
      some (List.replicate inside quote, (c :: rest).drop (3 + inside))
    else if escapes && c == '\\' then
      match readContinuation? rest with
      | some rest => readLong? quote escapes fuel rest
      | none => do
        let (d, rest) ← readEscape? rest
        let (ds, rest) ← readLong? quote escapes fuel rest
        return (d :: ds, rest)
    else match readNewline? (c :: rest) with
      | some rest => (readLong? quote escapes fuel rest).map fun (ds, rest) => ('\n' :: ds, rest)
      | none =>
        if isPlain c then
          (readLong? quote escapes fuel rest).map fun (ds, rest) => (c :: ds, rest)
        else none

def skipFirstNewline (cs : List Char) : List Char := (readNewline? cs).getD cs

def readShortText? (cs : List Char) : Option (String × List Char) :=
  let read := match cs with
    | '\x22' :: rest => readBasic? (rest.length + 1) rest
    | '\x27' :: rest => readLiteral? rest
    | _ => none
  read.map fun (s, rest) => (String.ofList s, rest)

def readText? (cs : List Char) : Option (String × List Char) :=
  let long (quote : Char) (escapes : Bool) (rest : List Char) :=
    (readLong? quote escapes (rest.length + 1) (skipFirstNewline rest)).map fun (s, rest) =>
      (String.ofList s, rest)
  match cs with
  | '\x22' :: '\x22' :: '\x22' :: rest => long '\x22' true rest
  | '\x27' :: '\x27' :: '\x27' :: rest => long '\x27' false rest
  | cs => readShortText? cs

end AttrChain.Toml
