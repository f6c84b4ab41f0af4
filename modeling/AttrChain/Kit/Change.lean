import AttrChain.Kit.Compute

/-!
Instructions that change the nodes found by a query.
-/

namespace AttrChain

inductive Change where
  | attr | prop | css | toggleAttr | text | addClass
  deriving DecidableEq

namespace Change

def table : Table Change := Table.ofList
  [("attr", .plain attr none),
    ("prop", .plain prop none),
    ("css", .plain css none),
    ("toggleAttr", .plain toggleAttr none),
    ("text", .plain text none),
    ("addClass", .plain addClass none)]

/-- The value to write, unless it is absent or null. -/
def written? : Option Value → Option Value
  | some .null => none
  | v => v

def toNode (c : Change) (args : List Value) (value : Option Value) (n : Node) :
    Except Error Node :=
  match c with
  | attr => do
    let name ← Compute.nameArg args "attr"
    return match written? value with
      | some v => n.setAttr name v.shown
      | none => n.removeAttr name
  | prop => do
    let name ← Compute.nameArg args "prop"
    return match value with
      | some v => { n with props := Dict.insert name v n.props }
      | none => { n with props := Dict.erase name n.props }
  | css => do
    let name ← Compute.nameArg args "css"
    return match written? value with
      | some v => { n with styles := Dict.insert name v.shown n.styles }
      | none => { n with styles := Dict.erase name n.styles }
  | toggleAttr => do
    let name ← Compute.nameArg args "toggleAttr"
    let on := match value with
      | some force => force.isTruthy
      | none => (n.attr? name).isNone
    return if on then n.setAttr name "" else n.removeAttr name
  | text => .ok { n with text := (value.map Value.shown).getD "" }
  | addClass =>
    let names := if args.isEmpty then (value.map fun v => Text.wordsOf v.shown).getD []
      else args.map Value.shown
    .ok (n.addClasses names)

/-- What an instruction does to a document, target by target up to the first error. Targets that
do not exist are passed over. -/
def toNodes (c : Change) (args : List Value) (value : Option Value) :
    List NodeId → Document → Option Error × Document
  | [], d => (none, d)
  | id :: rest, d =>
    match d.node? id with
    | none => toNodes c args value rest d
    | some n => match c.toNode args value n with
      | .error e => (some e, d)
      | .ok n => toNodes c args value rest (d.modify id fun _ => n)

def perform (c : Change) (args : List Value) (ctx : Context) (d : Document) :
    Except Error Reply × Context × Document :=
  let targets := (ctx.updated.map Value.nodes).getD []
  let (error?, d) := c.toNodes args ctx.data targets d
  let reply := match error? with
    | some e => .error e
    | none => .ok .nothing
  (reply, { ctx with data := none }, d)

end Change

end AttrChain
