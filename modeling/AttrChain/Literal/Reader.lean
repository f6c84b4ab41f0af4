import AttrChain.Decimal.Reader
import AttrChain.Error
import AttrChain.Text.Blank
import AttrChain.Text.Word

/-!
Reading argument lists, such as `1, 'two', [3, 4], \x7bfive: 5\x7d, _2`. Each reader takes what it
reads off the front of the characters and gives the rest.
-/

namespace AttrChain.Literal

open AttrChain.Text AttrChain.Decimal

def skipBlank (cs : List Char) : List Char := cs.dropWhile isBlank

def isBareChar (c : Char) : Bool := isAlphanumeric c || c == '_' || c == '$'

/-- A bare word, which does not start with an ASCII digit, and the rest. -/
def readWord? (cs : List Char) : Option (List Char × List Char) :=
  match cs.takeWhile isBareChar with
  | [] => none
  | c :: word => if c.isDigit then none else some (c :: word, cs.dropWhile isBareChar)

def readDigits? (cs : List Char) : Option (List Char × List Char) :=
  match cs.takeWhile Char.isDigit with
  | [] => none
  | digits => some (digits, cs.dropWhile Char.isDigit)

/-- The flow sentinel that a word is: `_` asks for 0, `_1` to `_9` for one to nine. -/
def sentinel? : List Char → Option Nat
  | ['_'] => some 0
  | ['_', d] => if '1' ≤ d ∧ d ≤ '9' then some (digitValue d) else none
  | _ => none

/-- The characters of a decimal number: digits, points, and exponent marks with a sign behind
them. -/
def numeralSpan : List Char → List Char × List Char
  | [] => ([], [])
  | c :: rest =>
    if c.isDigit || c == '.' then
      let (span, rest) := numeralSpan rest
      (c :: span, rest)
    else if c == 'e' || c == 'E' then
      match rest with
      | [] => ([c], [])
      | s :: more =>
        if s == '+' || s == '-' then
          let (span, rest) := numeralSpan more
          (c :: s :: span, rest)
        else
          let (span, rest) := numeralSpan (s :: more)
          (c :: span, rest)
    else ([], c :: rest)

def readHexNumber (negative : Bool) (cs : List Char) : Except Fault (Value × List Char) :=
  let digits := cs.takeWhile isHexDigit
  let n := appendDigits 16 0 digits
  if digits.isEmpty then .error .noHexDigits
  else if Nat.pow 2 63 ≤ n then .error .hugeHex
  else .ok (.int (if negative then .ofInt (-n) else .ofNat n), cs.dropWhile isHexDigit)

def readDecimal (sign : List Char) (cs : List Char) : Except Fault (Value × List Char) :=
  let (span, rest) := numeralSpan cs
  let numeral := sign ++ span
  let value? :=
    if span.all Char.isDigit then (readInt? numeral).map Value.int
    else (readFloat? numeral).map Value.float
  match value? with
  | some v => .ok (v, rest)
  | none => .error (.badNumber (String.ofList numeral))

def readUnsigned (sign : List Char) (cs : List Char) : Except Fault (Value × List Char) :=
  let negative := sign == ['-']
  match cs with
  | 'I' :: _ =>
    match readWord? cs with
    | some (word, rest) =>
      if word = ['I', 'n', 'f', 'i', 'n', 'i', 't', 'y'] then
        .ok (.float (Float.ofBits (if negative then 0xFFF0000000000000 else 0x7FF0000000000000)),
          rest)
      else .error .badInfinity
    | none => .error .badInfinity
  | '0' :: 'x' :: rest => readHexNumber negative rest
  | '0' :: 'X' :: rest => readHexNumber negative rest
  | cs => readDecimal sign cs

def readNumber : List Char → Except Fault (Value × List Char)
  | '-' :: rest => readUnsigned ['-'] rest
  | '+' :: rest => readUnsigned ['+'] rest
  | cs => readUnsigned [] cs

/-- The code point written by up to four characters, with a plus sign allowed in front. -/
def codePoint? (cs : List Char) : Option Char :=
  let digits := match cs with
    | '+' :: rest => rest
    | cs => cs
  if digits.isEmpty || !digits.all isHexDigit then none
  else
    let n := appendDigits 16 0 digits
    if n < 0xD800 ∨ 0xDFFF < n then some (Char.ofNat n) else none

def escaped : Char → Char
  | 'n' => '\n'
  | 't' => '\t'
  | 'r' => '\r'
  | '0' => '\x00'
  | c => c

def readText (quote : Char) : Nat → List Char → Except Fault (List Char × List Char)
  | 0, _ => .error .openText
  | _ + 1, [] => .error .openText
  | fuel + 1, c :: rest =>
    if c = quote then .ok ([], rest)
    else if c = '\\' then
      match rest with
      | [] => .error .openEscape
      | 'u' :: more =>
        match codePoint? (more.take 4) with
        | none => .error (.badCodePoint (String.ofList (more.take 4)))
        | some d => do
          let (ds, rest) ← readText quote fuel (more.drop 4)
          return (d :: ds, rest)
      | e :: more => do
        let (ds, rest) ← readText quote fuel more
        return (escaped e :: ds, rest)
    else do
      let (ds, rest) ← readText quote fuel rest
      return (c :: ds, rest)

def ofWord (word : List Char) : Except Fault Value :=
  match String.ofList word with
  | "true" => .ok (.bool true)
  | "false" => .ok (.bool false)
  | "null" => .ok .null
  | "undefined" => .ok .nil
  | "NaN" => .ok (.float (Float.ofBits 0x7FF8000000000000))
  | "Infinity" => .ok (.float (Float.ofBits 0x7FF0000000000000))
  | other => .error (.unknownWord other)

def readNamed (cs : List Char) : Except Fault (Value × List Char) :=
  match cs with
  | [] => .error .noValue
  | c :: _ =>
    match readWord? cs with
    | none => .error (.unexpected c)
    | some (word, rest) => (ofWord word).map (·, rest)

def readKey (cs : List Char) : Except Fault (String × List Char) :=
  match cs with
  | [] => .error .noKey
  | c :: rest =>
    if c == '\x22' || c == '\x27' || c == '\x60' then do
      let (key, rest) ← readText c (rest.length + 1) rest
      return (String.ofList key, rest)
    else match (readWord? cs).or (readDigits? cs) with
      | some (key, rest) => .ok (String.ofList key, rest)
      | none => .error .noKey

def skipColon (cs : List Char) : Except Fault (List Char) :=
  match skipBlank cs with
  | ':' :: rest => .ok rest
  | c :: _ => .error (.noColon (some c))
  | [] => .error (.noColon none)

mutual

/-- The value at the start of `cs`, and the rest. The fuel bounds the steps into the text. -/
def readValue : Nat → List Char → Except Fault (Value × List Char)
  | 0, _ => .error .noValue
  | fuel + 1, cs =>
    match skipBlank cs with
    | [] => .error .noValue
    | c :: rest =>
      if c == '[' then (readItems fuel rest).map fun (items, rest) => (.list items, rest)
      else if c == '\x7b' then
        (readEntries fuel rest).map fun (entries, rest) => (Value.ofEntries entries, rest)
      else if c == '\x22' || c == '\x27' || c == '\x60' then
        (readText c (rest.length + 1) rest).map fun (s, rest) => (.text (String.ofList s), rest)
      else if c.isDigit || c == '-' || c == '+' || c == '.' then readNumber (c :: rest)
      else readNamed (c :: rest)

/-- The items of a list up to its closing bracket; a comma may stand before it. -/
def readItems : Nat → List Char → Except Fault (List Value × List Char)
  | 0, _ => .error .noValue
  | fuel + 1, cs =>
    match skipBlank cs with
    | ']' :: rest => .ok ([], rest)
    | cs => do
      let (item, rest) ← readValue fuel cs
      match skipBlank rest with
      | ',' :: more =>
        let (items, rest) ← readItems fuel more
        return (item :: items, rest)
      | ']' :: more => return ([item], more)
      | _ => throw .unclosedList

def readEntries : Nat → List Char → Except Fault (List (String × Value) × List Char)
  | 0, _ => .error .noKey
  | fuel + 1, cs =>
    match skipBlank cs with
    | '\x7d' :: rest => .ok ([], rest)
    | cs => do
      let (key, rest) ← readKey cs
      let rest ← skipColon rest
      let (value, rest) ← readValue fuel rest
      match skipBlank rest with
      | ',' :: more =>
        let (entries, rest) ← readEntries fuel more
        return ((key, value) :: entries, rest)
      | '\x7d' :: more => return ([(key, value)], more)
      | _ => throw .unclosedMap

end

/-- One argument: a value, or a flow sentinel with its name. -/
inductive Argument where
  | value (v : Value)
  | flow (count : Nat) (name : String)

def readArgument (cs : List Char) : Except Fault (Argument × List Char) :=
  let plain := (readValue (2 * cs.length + 2) cs).map fun (v, rest) => (.value v, rest)
  match readWord? cs with
  | some (word, rest) =>
    match sentinel? word with
    | some n => .ok (.flow n (String.ofList word), rest)
    | none => plain
  | none => plain

/-- The arguments, with commas between them and perhaps one behind the last. -/
def readArguments : Nat → List Char → Except Fault (List Argument)
  | 0, _ => .ok []
  | fuel + 1, cs =>
    match skipBlank cs with
    | [] => .ok []
    | cs => do
      let (arg, rest) ← readArgument cs
      match skipBlank rest with
      | [] => return [arg]
      | ',' :: more => return arg :: (← readArguments fuel more)
      | c :: _ => throw (.unexpected c)

/-- Puts the arguments together; only the last may be a flow sentinel. -/
def collect : List Argument → Except Error Arguments
  | [] => .ok .empty
  | [.flow n _] => .ok ⟨[], some n⟩
  | .flow _ name :: _ => .error (.misplacedSentinel name)
  | .value v :: rest => (collect rest).map fun more => { more with args := v :: more.args }

end AttrChain.Literal

namespace AttrChain

def Arguments.read (cs : List Char) : Except Error Arguments :=
  match Literal.readArguments (cs.length + 1) cs with
  | .ok args => Literal.collect args
  | .error why => .error (.badArguments (String.ofList cs) why)

end AttrChain
