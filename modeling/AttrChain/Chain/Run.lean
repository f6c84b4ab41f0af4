import AttrChain.Chain.Basic
import AttrChain.Chain.Host
import AttrChain.Descriptor.Refine
import AttrChain.Value.View

/-!
Running a chain: cell by cell along the links, until the last cell, an error, or a result that is
still pending.
-/

namespace AttrChain

variable {ι σ : Type}

structure Frame (σ : Type) where
  ctx : Context
  stack : Stack
  cuts : List Nat
  host : σ

namespace Query

/-- The selector that stands for the node where the event arose. -/
def targetToken : String := "~"

/-- The selector that stands for the node of the listener. -/
def currentToken : String := "="

def refine (h : Host ι σ) (q : Query) (s : σ) (nodes : List NodeId) : List NodeId :=
  match q.refinement with
  | none => nodes
  | some r =>
    r.applyWith (fun node name =>
      match name with
      | some name => h.field node name s
      | none => some (.node node)) nodes

/-- What a query finds. The search starts at the node taken as data, else at the delegate. -/
def find (h : Host ι σ) (q : Query) (ctx : Context) (s : σ) : Option Value × σ :=
  let start := (ctx.data.bind Value.asNode?).or ctx.delegate
  if q.selector = targetToken then (ctx.target.map .node, s)
  else if q.selector = currentToken then (ctx.current.map .node, s)
  else if q.selector = "" then (start.map .node, s)
  else if q.single then
    let (found, s) := h.findOne q.selector start s
    (found.map .node, s)
  else
    let (all, s) := h.findAll q.selector start s
    (some (.list ((q.refine h s all).map .node)), s)

end Query

namespace Cell

/-- The arguments of a cell: the literal ones, then the live ones taken off the buffer. For a count
of 0 the last value is taken, and a list is spread out. -/
def arguments (c : Cell ι) (s : Stack) : List Value × Stack :=
  match c.rest with
  | none => (c.args, s)
  | some 0 =>
    let (v, s) := s.pop
    match v with
    | some (.list items) => (c.args ++ items, s)
    | some v => (c.args ++ [v], s)
    | none => (c.args, s)
  | some k =>
    let (values, s) := s.popMany k
    (c.args ++ values, s)

def takeData (c : Cell ι) (s : Stack) : Option Value × Stack :=
  match c.want with
  | some n => s.draw n
  | none => (none, s)

def perform (h : Host ι σ) (i : Nat) (c : Cell ι) (args : List Value) (f : Frame σ) :
    Except Error Reply × Frame σ :=
  match c.op with
  | .start => (.ok .nothing, f)
  | .query q =>
    let (found, s) := q.find h f.ctx f.host
    (.ok .nothing, { f with ctx := { f.ctx with primary := found, updated := found }, host := s })
  | .call instruction => match instruction.action with
    | .plain body =>
      let (reply, ctx, _, s) := h.perform body args f.ctx .empty f.host
      (reply, { f with ctx, host := s })
    | .access body =>
      let (reply, ctx, stack, s) := h.perform body args f.ctx f.stack f.host
      (reply, { f with ctx, stack, host := s })
    | .prune => (.ok .nothing, { f with cuts := f.cuts.insert (i - 1) })

/-- The result of a cell. An update's value becomes the target of further updates and flows no
further, if it is there at once. -/
def result (c : Cell ι) (reply : Except Error Reply) (f : Frame σ) :
    Except Error Reply × Frame σ :=
  match reply with
  | .ok (.done (some v)) =>
    if c.isUpdate then (.ok .nothing, { f with ctx := { f.ctx with updated := some v } })
    else (reply, f)
  | _ => (reply, f)

def invoke (h : Host ι σ) (i : Nat) (c : Cell ι) (incoming : Option Value) (f : Frame σ) :
    Except Error Reply × Frame σ :=
  let stack := f.stack.push incoming.toList
  let (args, stack) := c.arguments stack
  let (data, stack) := c.takeData stack
  let (reply, f) := c.perform h i args { f with ctx := { f.ctx with data }, stack }
  c.result reply f

end Cell

/-- How a run stops: with the last value, with an error, given up, or waiting for a promise before
it goes on at the next cell, if there is one. -/
inductive Halt where
  | done (value : Option Value)
  | failed (e : Error)
  | rejected (why : Rejection)
  | waiting (p : Promise) (next : Option Nat)

/-- Runs cells along the links, where the first one is at place `i`. A promise that `look` finds
fulfilled does not stop the run. -/
def Chain.run (h : Host ι σ) (look : Promise → σ → Option Settlement) :
    Nat → List (Cell ι) → Option Value → Frame σ → Halt × Frame σ
  | _, [], value, f => (.done value, f)
  | i, cell :: rest, incoming, f =>
    let (reply, f) := cell.invoke h i incoming f
    let linked := i ∉ f.cuts
    match reply with
    | .error e => (.failed e, f)
    | .ok (.done value) =>
      if linked then Chain.run h look (i + 1) rest value f else (.done value, f)
    | .ok (.pending p) =>
      match look p f.host with
      | some (.fulfilled value) =>
        if linked then Chain.run h look (i + 1) rest value f else (.done value, f)
      | some (.rejected why) => (.rejected why, f)
      | none =>
        (.waiting p (if linked && !rest.isEmpty then some (i + 1) else none), f)

namespace Chain

def leave (c : Chain ι) (f : Frame σ) : Chain ι := { c with stack := f.stack, cuts := f.cuts }

/-- Fires a chain: from its head, on an empty stack, up to the first pending result. -/
def fire (h : Host ι σ) (c : Chain ι) (ctx : Context) (s : σ) : Halt × Chain ι × Context × σ :=
  let (halt, f) := run h (fun _ _ => none) 0 c.cells c.initial ⟨ctx, .empty, c.cuts, s⟩
  (halt, c.leave f, f.ctx, f.host)

/-- Goes on at the cell at place `i` with the value that was waited for, up to the first promise
that is still open. -/
def resume (h : Host ι σ) (c : Chain ι) (i : Nat) (value : Option Value) (ctx : Context) (s : σ) :
    Halt × Chain ι × Context × σ :=
  let (halt, f) := run h h.settlement? i (c.cells.drop i) value ⟨ctx, c.stack, c.cuts, s⟩
  (halt, c.leave f, f.ctx, f.host)

end Chain

end AttrChain
