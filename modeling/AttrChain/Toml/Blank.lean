/-!
What TOML texts pass over: blanks, comments and the ends of lines.
-/

namespace AttrChain.Toml

def skipBlank (cs : List Char) : List Char := cs.dropWhile fun c => c == ' ' || c == '\t'

def readNewline? : List Char → Option (List Char)
  | '\n' :: rest => some rest
  | '\r' :: '\n' :: rest => some rest
  | _ => none

/-- Whether `c` may stand in texts and comments: everything but controls, of which only the tab is
allowed. -/
def isPlain (c : Char) : Bool := c == '\t' || (0x20 ≤ c.toNat && c.toNat != 0x7F)

def skipComment : List Char → List Char
  | '#' :: rest => rest.dropWhile isPlain
  | cs => cs

def readLineEnd? (cs : List Char) : Option (List Char) :=
  match skipComment (skipBlank cs) with
  | [] => some []
  | rest => readNewline? rest

def skipBlankLines : Nat → List Char → List Char
  | 0, cs => cs
  | fuel + 1, cs =>
    let cs := skipBlank cs
    match readNewline? cs with
    | some rest => skipBlankLines fuel rest
    | none => cs

/-- The rest after blanks, comments and ends of lines. The fuel bounds the number of lines. -/
def skipLines : Nat → List Char → List Char
  | 0, cs => cs
  | fuel + 1, cs =>
    let cs := skipBlank cs
    match readNewline? (skipComment cs) with
    | some rest => skipLines fuel rest
    | none => cs

def skipGap (cs : List Char) : List Char := skipLines (cs.length + 1) cs

end AttrChain.Toml
