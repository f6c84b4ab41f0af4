/-!
Splitting attribute text at one character, while quoted texts and bracketed spans stay whole.

A splitter names its separator and its guards. `Splitter.splitN` cuts at the first unguarded
separators, as many as it is told, and `Splitter.split` at all of them.
-/

namespace AttrChain

inductive Guard where
  | quote | call | square | brace
  deriving DecidableEq

def Guard.brackets? : Guard → Option (Char × Char)
  | .quote => none
  | .call => some ('(', ')')
  | .square => some ('[', ']')
  | .brace => some ('\x7b', '\x7d')

def isQuote (c : Char) : Bool := c == '\x22' || c == '\x27' || c == '\x60'

structure Nesting where
  opening : Char
  closing : Char
  depth : Nat
  deriving DecidableEq

/-- Where a scan is: in which quote, if any, behind a backslash or not, and in which brackets. -/
structure Guarding where
  watchQuotes : Bool
  quote : Option Char
  escaped : Bool
  nestings : List Nesting
  deriving DecidableEq

def Guarding.start (guards : List Guard) : Guarding where
  watchQuotes := guards.contains .quote
  quote := none
  escaped := false
  nestings := (guards.filterMap Guard.brackets?).map fun (o, c) => ⟨o, c, 0⟩

/-- Takes a character into the first kind of brackets that it opens or closes, and tells whether it
is guarded: as one of these brackets, or by standing inside brackets. -/
def Nesting.step (c : Char) : List Nesting → Bool × List Nesting
  | [] => (false, [])
  | n :: rest =>
    if c = n.opening then (true, { n with depth := n.depth + 1 } :: rest)
    else if c = n.closing ∧ 0 < n.depth then (true, { n with depth := n.depth - 1 } :: rest)
    else
      let (guarded, rest) := Nesting.step c rest
      (0 < n.depth || guarded, n :: rest)

/-- Takes a character into the scan, and tells whether it is guarded. -/
def Guarding.step (c : Char) (g : Guarding) : Bool × Guarding :=
  match g.quote with
  | some q =>
    if g.escaped then (true, { g with escaped := false })
    else if c = '\\' then (true, { g with escaped := true })
    else if c = q then (true, { g with quote := none })
    else (true, g)
  | none =>
    if g.watchQuotes && isQuote c then (true, { g with quote := some c })
    else
      let (guarded, nestings) := Nesting.step c g.nestings
      (guarded, { g with nestings })

structure Splitter where
  separator : Char
  guards : List Guard
  deriving DecidableEq

def consHead (c : Char) : List (List Char) → List (List Char)
  | [] => [[c]]
  | s :: rest => (c :: s) :: rest

/-- The segments of a text of which the scan is at `g`; `max` is the number of cuts allowed. -/
def Splitter.scan (s : Splitter) : Nat → Guarding → List Char → List (List Char)
  | 0, _, cs => [cs]
  | _ + 1, _, [] => [[]]
  | max + 1, g, c :: rest =>
    let (guarded, g) := g.step c
    if !guarded && c == s.separator then [] :: s.scan max g rest
    else consHead c (s.scan (max + 1) g rest)

/-- Cuts the text at its first `max` unguarded separators. The empty text has no segments. -/
def Splitter.splitN (s : Splitter) (max : Nat) (cs : List Char) : List (List Char) :=
  if cs.isEmpty then [] else s.scan max (Guarding.start s.guards) cs

def Splitter.split (s : Splitter) (cs : List Char) : List (List Char) := s.splitN cs.length cs

end AttrChain
