import AttrChain.Dict
import AttrChain.Json.Number

/-!
Reading JSON texts. Of two fields with one key the later counts; lists and objects nest at most
127 deep.
-/

namespace AttrChain.Json

open AttrChain.Text

def skipBlank (cs : List Char) : List Char :=
  cs.dropWhile fun c => c == ' ' || c == '\n' || c == '\t' || c == '\r'

def readHex? : List Char → Option (Nat × List Char)
  | a :: b :: c :: d :: rest =>
    if [a, b, c, d].all isHexDigit then some (appendDigits 16 0 [a, b, c, d], rest) else none
  | _ => none

/-- The character of an escape by code point, after `\u`. A character beyond 16 bits is
written as two such escapes; one of the two alone is refused. -/
def readCodePoint? (cs : List Char) : Option (Char × List Char) := do
  let (n, rest) ← readHex? cs
  if 0xDC00 ≤ n ∧ n ≤ 0xDFFF then none
  else if n < 0xD800 ∨ 0xDBFF < n then some (Char.ofNat n, rest)
  else match rest with
    | '\\' :: 'u' :: more => do
      let (m, rest) ← readHex? more
      if 0xDC00 ≤ m ∧ m ≤ 0xDFFF then
        some (Char.ofNat (0x10000 + (n - 0xD800) * 0x400 + (m - 0xDC00)), rest)
      else none
    | _ => none

def escaped? : Char → Option Char
  | '\x22' => some '\x22'
  | '\\' => some '\\'
  | '/' => some '/'
  | 'b' => some '\x08'
  | 'f' => some '\x0c'
  | 'n' => some '\n'
  | 'r' => some '\r'
  | 't' => some '\t'
  | _ => none

/-- The characters of a text up to its closing quote, and the rest. The fuel bounds the number of
characters. -/
def readChars? : Nat → List Char → Option (List Char × List Char)
  | 0, _ => none
  | _, [] => none
  | fuel + 1, c :: rest =>
    if c == '\x22' then some ([], rest)
    else if c == '\\' then
      match rest with
      | 'u' :: more => do
        let (d, more) ← readCodePoint? more
        let (ds, more) ← readChars? fuel more
        return (d :: ds, more)
      | e :: more => do
        let d ← escaped? e
        let (ds, more) ← readChars? fuel more
        return (d :: ds, more)
      | [] => none
    else if c.toNat < 0x20 then none
    else do
      let (ds, more) ← readChars? fuel rest
      return (c :: ds, more)

def readText? (cs : List Char) : Option (String × List Char) :=
  (readChars? (cs.length + 1) cs).map fun (s, rest) => (String.ofList s, rest)

mutual

/-- The document at the start of `cs`, and the rest; `depth` is the nesting still allowed. -/
def readValue? : Nat → Nat → List Char → Option (Json × List Char)
  | 0, _, _ => none
  | fuel + 1, depth, cs =>
    match skipBlank cs with
    | 'n' :: 'u' :: 'l' :: 'l' :: rest => some (null, rest)
    | 't' :: 'r' :: 'u' :: 'e' :: rest => some (bool true, rest)
    | 'f' :: 'a' :: 'l' :: 's' :: 'e' :: rest => some (bool false, rest)
    | '\x22' :: rest => (readText? rest).map fun (s, rest) => (text s, rest)
    | '[' :: rest =>
      match depth, skipBlank rest with
      | 0, _ => none
      | _ + 1, ']' :: more => some (array [], more)
      | depth + 1, more =>
        (readItems? fuel depth more).map fun (items, rest) => (array items, rest)
    | '\x7b' :: rest =>
      match depth, skipBlank rest with
      | 0, _ => none
      | _ + 1, '\x7d' :: more => some (object [], more)
      | depth + 1, more =>
        (readFields? fuel depth more).map fun (fields, rest) => (object (Dict.ofList fields), rest)
    | other => readNumber? other

def readItems? : Nat → Nat → List Char → Option (List Json × List Char)
  | 0, _, _ => none
  | fuel + 1, depth, cs => do
    let (item, rest) ← readValue? fuel depth cs
    match skipBlank rest with
    | ',' :: more =>
      let (items, rest) ← readItems? fuel depth more
      return (item :: items, rest)
    | ']' :: more => return ([item], more)
    | _ => none

def readFields? : Nat → Nat → List Char → Option (List (String × Json) × List Char)
  | 0, _, _ => none
  | fuel + 1, depth, cs =>
    match skipBlank cs with
    | '\x22' :: rest => do
      let (key, rest) ← readText? rest
      match skipBlank rest with
      | ':' :: more =>
        let (value, rest) ← readValue? fuel depth more
        match skipBlank rest with
        | ',' :: more =>
          let (fields, rest) ← readFields? fuel depth more
          return ((key, value) :: fields, rest)
        | '\x7d' :: more => return ([(key, value)], more)
        | _ => none
      | _ => none
    | _ => none

end

def read? (s : String) : Option Json := do
  let cs := s.toList
  let (json, rest) ← readValue? (2 * cs.length + 2) 127 cs
  if (skipBlank rest).isEmpty then some json else none

end AttrChain.Json
