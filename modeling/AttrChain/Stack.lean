import AttrChain.Value.Basic

/-!
The stack of a chain. Its buffer holds results, taken from the end; its staging queue holds what is
set aside for the next instruction, taken from the front. Both are listed from the bottom up.
-/

namespace AttrChain

/-- A buffer of results and a queue of values set aside. -/
structure Stack where
  buffer : List Value
  staging : List Value

namespace Stack

def empty : Stack := ⟨[], []⟩

/-- Appends values to the buffer, leaving out placeholders. -/
def push (values : List Value) (s : Stack) : Stack :=
  { s with buffer := s.buffer ++ values.filter (!·.isNil) }

def pushNil (s : Stack) : Stack := { s with buffer := s.buffer ++ [.nil] }

def pop (s : Stack) : Option Value × Stack :=
  (s.buffer.getLast?, { s with buffer := s.buffer.dropLast })

def top (n : Nat) (s : Stack) : List Value := s.buffer.drop (s.buffer.length - n)

/-- Takes the last `n` values off the buffer, keeping their order. -/
def popMany (n : Nat) (s : Stack) : List Value × Stack :=
  (s.top n, { s with buffer := s.buffer.take (s.buffer.length - n) })

/-- The place that an index means in a list of `length` items: a negative index counts from the
end, and what lies outside is moved to the nearer end. -/
def place (i : Int) (length : Nat) : Nat :=
  if i < 0 then length - i.natAbs else min i.toNat length

def slice (first : Int) (last : Option Int) (s : Stack) : List Value :=
  let length := s.buffer.length
  let stop := match last with
    | some i => place i length
    | none => length
  (s.buffer.take stop).drop (place first length)

def stage (values : List Value) (s : Stack) : Stack :=
  { s with staging := s.staging ++ values }

/-- Sets the last value of the buffer aside, or a placeholder if there is none. -/
def stageTop (s : Stack) : Stack :=
  let (v, s) := s.pop
  s.stage [v.getD .nil]

/-- Sets the last `n` values of the buffer aside; for `n` below 2, nothing. -/
def stageTopMany (n : Nat) (s : Stack) : Stack :=
  if 1 < n then
    let (values, s) := s.popMany n
    s.stage values
  else s

def stageBottom (s : Stack) : Stack :=
  { s with buffer := s.buffer.tail }.stage [s.buffer.head?.getD .nil]

def stageBottomMany (n : Nat) (s : Stack) : Stack :=
  if 1 < n then { s with buffer := s.buffer.drop n }.stage (s.buffer.take n) else s

def get? (i : Int) (s : Stack) : Option Value :=
  let at_ := if i < 0 then s.buffer.length + i else i
  if at_ < 0 then none else s.buffer[at_.toNat]?

def stageCopies (indices : List Int) (s : Stack) : Stack :=
  s.stage (indices.map fun i => (s.get? i).getD .nil)

/-- Takes what an instruction asks for by its signed count. Zero asks for all that is set aside: a
single value as it is, several as a list. Otherwise the values set aside come first, as many as
the count's size; only if there are none does a positive count take values off the buffer. A count
of size one gives the value itself, a larger one always a list. -/
def draw (n : Int) (s : Stack) : Option Value × Stack :=
  if n = 0 then
    match s.staging with
    | [] => (none, s)
    | [v] => (v.filled?, { s with staging := [] })
    | values => (some (.list values), { s with staging := [] })
  else
    match s.staging with
    | v :: rest =>
      if n.natAbs = 1 then (v.filled?, { s with staging := rest })
      else
        (some (.list ((v :: rest).take n.natAbs)), { s with staging := (v :: rest).drop n.natAbs })
    | [] =>
      if n = 1 then
        let (v, s) := s.pop
        (v.bind Value.filled?, s)
      else if 1 < n then
        let (values, s) := s.popMany n.toNat
        (some (.list values), s)
      else (none, s)

end Stack

end AttrChain
