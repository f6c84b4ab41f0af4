import AttrChain.Error
import AttrChain.Text.Blank
import AttrChain.Text.Numeral
import AttrChain.Text.Word

/-!
Reading filter expressions: a text becomes tokens, and the tokens become an expression by
precedence climbing.
-/

namespace AttrChain.Filter

open AttrChain.Text

def isNameChar (c : Char) : Bool := isAlphanumeric c || c == '_' || c == '.'

/-- The characters up to the closing quote, and the rest. A backslash takes the next character as
it is. -/
def readText (quote : Char) : List Char → Except Fault (List Char × List Char)
  | [] => .error .openText
  | c :: rest =>
    if c = quote then .ok ([], rest)
    else if c = '\\' then
      match rest with
      | [] => .error .openText
      | e :: more => do
        let (s, rest) ← readText quote more
        return (e :: s, rest)
    else do
      let (s, rest) ← readText quote rest
      return (c :: s, rest)

/-- The operator or bracket at the start of `cs`, the longest that fits, and the rest. -/
def readSign? : List Char → Option (Token × List Char)
  | '|' :: '|' :: rest => some (.op .or, rest)
  | '&' :: '&' :: rest => some (.op .and, rest)
  | '=' :: '=' :: '=' :: rest => some (.op .eq, rest)
  | '=' :: '=' :: rest => some (.op .eq, rest)
  | '!' :: '=' :: '=' :: rest => some (.op .ne, rest)
  | '!' :: '=' :: rest => some (.op .ne, rest)
  | '<' :: '=' :: rest => some (.op .le, rest)
  | '>' :: '=' :: rest => some (.op .ge, rest)
  | '<' :: rest => some (.op .lt, rest)
  | '>' :: rest => some (.op .gt, rest)
  | '+' :: rest => some (.op .add, rest)
  | '-' :: rest => some (.op .sub, rest)
  | '*' :: rest => some (.op .mul, rest)
  | '/' :: rest => some (.op .div, rest)
  | '%' :: rest => some (.op .mod, rest)
  | '!' :: rest => some (.bang, rest)
  | '(' :: rest => some (.opening, rest)
  | ')' :: rest => some (.closing, rest)
  | _ => none

def readToken (c : Char) (rest : List Char) : Except Fault (Token × List Char) :=
  if c.isDigit then
    let digits := c :: rest.takeWhile Char.isDigit
    match readInt? digits with
    | some n => .ok (.num n, rest.dropWhile Char.isDigit)
    | none => .error (.hugeNumber (String.ofList digits))
  else if c == '\x27' || c == '\x22' then
    (readText c rest).map fun (s, rest) => (.text (String.ofList s), rest)
  else if isLetter c || c == '_' then
    .ok (.word (String.ofList (c :: rest.takeWhile isNameChar)), rest.dropWhile isNameChar)
  else match readSign? (c :: rest) with
    | some (t, rest) => .ok (t, rest)
    | none => .error (.unexpectedChar c)

def readTokens : Nat → List Char → Except Fault (List Token)
  | 0, _ => .ok []
  | fuel + 1, cs =>
    match cs.dropWhile isBlank with
    | [] => .ok []
    | c :: rest => do
      let (t, rest) ← readToken c rest
      return t :: (← readTokens fuel rest)

/-- The operand that a name stands for: the place `i`, the count `n`, the match `v`, or a field of
it. -/
def ofName (name : String) : Except Fault Expr :=
  if name = "i" then .ok .index
  else if name = "n" ∨ name = "o.length" then .ok .count
  else if name = "v" then .ok (.item none)
  else match name.toList with
    | 'v' :: '.' :: field =>
      if field.isEmpty || field.contains '.' then .error (.unknownName name)
      else .ok (.item (some (String.ofList field)))
    | _ => .error (.unknownName name)

mutual

/-- An expression whose operators all bind tighter than `floor`, and the tokens behind it. -/
def readBinary : Nat → Nat → List Token → Except Fault (Expr × List Token)
  | 0, _, _ => .error .ended
  | fuel + 1, floor, ts => do
    let (left, ts) ← readUnary fuel ts
    readTail fuel floor left ts

/-- Takes operators tighter than `floor` with their right operands behind `left`. -/
def readTail : Nat → Nat → Expr → List Token → Except Fault (Expr × List Token)
  | 0, _, _, _ => .error .ended
  | fuel + 1, floor, left, ts =>
    match ts with
    | .op o :: rest =>
      if o.precedence ≤ floor then .ok (left, ts)
      else do
        let (right, ts) ← readBinary fuel o.precedence rest
        readTail fuel floor (.binary o left right) ts
    | _ => .ok (left, ts)

def readUnary : Nat → List Token → Except Fault (Expr × List Token)
  | 0, _ => .error .ended
  | fuel + 1, ts =>
    match ts with
    | .bang :: rest => (readUnary fuel rest).map fun (e, ts) => (.not e, ts)
    | .op .sub :: rest => (readUnary fuel rest).map fun (e, ts) => (.neg e, ts)
    | _ => readOperand fuel ts

def readOperand : Nat → List Token → Except Fault (Expr × List Token)
  | 0, _ => .error .ended
  | fuel + 1, ts =>
    match ts with
    | [] => .error .ended
    | .num n :: rest => .ok (.num n, rest)
    | .text s :: rest => .ok (.text s, rest)
    | .word name :: rest => (ofName name).map (·, rest)
    | .opening :: rest => do
      match ← readBinary fuel 0 rest with
      | (e, .closing :: ts) => return (e, ts)
      | _ => throw .unclosed
    | .bang :: _ => .error .ended
    | .op o :: _ => .error (.strayOp o)
    | .closing :: _ => .error .strayClosing

end

def ofTokens (ts : List Token) : Except Fault Expr := do
  let (e, rest) ← readBinary (4 * ts.length + 4) 0 ts
  if rest.isEmpty then return e else throw .trailing

def Expr.read (cs : List Char) : Except Error Expr :=
  match readTokens cs.length cs >>= ofTokens with
  | .ok e => .ok e
  | .error why => .error (.badFilter (String.ofList cs) why)

end AttrChain.Filter
