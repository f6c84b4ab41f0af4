import AttrChain.Descriptor.Basic
import AttrChain.Instruction.Basic
import AttrChain.Stack
import AttrChain.Text.Cut
import AttrChain.Text.Quoted

/-!
Chains: cells in a row, of which each is linked to the next one. A prune cuts the link to its own
cell, and a link that is cut stays cut.
-/

namespace AttrChain

variable {ι : Type}

inductive Op (ι : Type) where
  | start
  | call (i : Instruction ι)
  | query (q : Query)

/-- A cell: what it runs, with literal arguments; how many values it takes from the stack as data
and how many as further arguments; and whether its result is the new target of updates. -/
structure Cell (ι : Type) where
  op : Op ι
  label : String
  args : List Value
  want : Option Int
  rest : Option Nat
  isUpdate : Bool

namespace Cell

def head (triggers : List Trigger) : Cell ι where
  op := .start
  label := Text.joinWith " " (triggers.map Trigger.event)
  args := []
  want := none
  rest := none
  isUpdate := false

/-- A call. It takes as data what its instruction asks for. -/
def call (i : Instruction ι) (c : Call) : Cell ι where
  op := .call i
  label := c.name
  args := c.args
  want := i.arity.map Arity.count
  rest := c.rest
  isUpdate := false

/-- An update. It always takes one value as data. -/
def update (i : Instruction ι) (u : Update) : Cell ι where
  op := .call i
  label := u.name
  args := u.args
  want := some 1
  rest := none
  isUpdate := true

/-- A query. It takes at most one value that is set aside. -/
def query (q : Query) : Cell ι where
  op := .query q
  label := if q.single then q.selector else "(" ++ q.selector ++ ")"
  args := []
  want := some (-1)
  rest := none
  isUpdate := false

def isPrune (c : Cell ι) : Bool :=
  match c.op with
  | .call i => i.isPrune
  | _ => false

end Cell

/-- A chain: what it answers to, its cells with the head first, the value that the head hands on,
the places of cells of which the link to the next one is cut, and its stack. -/
structure Chain (ι : Type) where
  triggers : List Trigger
  cells : List (Cell ι)
  initial : Option Value
  cuts : List Nat
  stack : Stack

namespace Chain

def ofCells (triggers : List Trigger) (cells : List (Cell ι)) : Chain ι where
  triggers := triggers
  cells := .head triggers :: cells
  initial := none
  cuts := []
  stack := .empty

/-- A copy with a stack of its own, and another initial value if one is given. -/
def rebind (c : Chain ι) (initial : Option Value) : Chain ι :=
  { c with initial := initial.or c.initial, stack := .empty }

def size (c : Chain ι) : Nat := c.cells.length

def isEmpty (c : Chain ι) : Bool := c.cells.length ≤ 1

def next? (c : Chain ι) (i : Nat) : Option Nat :=
  if i + 1 < c.cells.length ∧ i ∉ c.cuts then some (i + 1) else none

/-- The cell that a prune cuts off from what follows: the one before it. -/
def prev? (c : Chain ι) (i : Nat) : Option Nat :=
  match c.cells[i]? with
  | some cell => if cell.isPrune ∧ 0 < i then some (i - 1) else none
  | none => none

def reachedFrom (cuts : List Nat) : Nat → List (Cell ι) → List (Cell ι)
  | _, [] => []
  | i, cell :: rest => if i ∈ cuts then [cell] else cell :: reachedFrom cuts (i + 1) rest

def labels (c : Chain ι) : List String := (reachedFrom c.cuts 0 c.cells).tail.map Cell.label

def inspect (c : Chain ι) : String :=
  let optional (s? : Option String) := match s? with
    | some s => "Some(" ++ s ++ ")"
    | none => "None"
  let truth (b : Bool) := if b then "true" else "false"
  let braced (name : String) (fields : List String) :=
    name ++ " \x7b " ++ Text.joinWith ", " fields ++ " \x7d"
  let listed (xs : List String) := "[" ++ Text.joinWith ", " xs ++ "]"
  let trigger (t : Trigger) := braced "Evn"
    ["name: " ++ Text.Quoted.encode t.event,
      "selector: " ++ optional (t.selector.map Text.Quoted.encode),
      "once: " ++ truth t.once, "store: " ++ truth t.stored]
  let cell (entry : Cell ι × Nat) := braced "Cell"
    ["label: " ++ Text.Quoted.encode entry.1.label,
      "want: " ++ optional (entry.1.want.map Int.repr),
      "rest: " ++ optional (entry.1.rest.map Nat.repr),
      "next: " ++ optional ((c.next? entry.2).map Nat.repr)]
  braced "Chain" ["evns: " ++ listed (c.triggers.map trigger),
    "cells: " ++ listed (c.cells.zipIdx.map cell)]

end Chain

end AttrChain
