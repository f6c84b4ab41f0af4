import AttrChain.Chain.Context
import AttrChain.Error
import AttrChain.Instruction.Table
import AttrChain.Stack
import AttrChain.Value.Text
import AttrChain.Value.View

/-!
The control instructions: they move values between buffer, staging queue and arguments, end firings,
and set the flags of the event.
-/

namespace AttrChain

inductive Control where
  | push | pop | shift | index | nil | dup | dups | pack | part | vain | spread
  | pass | finish | avoid | stop | debug
  deriving DecidableEq

namespace Control

def table : Table Control := Table.ofList
  [("push", .access push (some .all)),
    ("pop", .access pop none),
    ("shift", .access shift none),
    ("index", .access index none),
    ("nil", .access nil (some (.optional 1))),
    ("dup", .access dup none),
    ("dups", .access dups none),
    ("pack", .access pack none),
    ("part", .access part none),
    ("vain", .access vain none),
    ("spread", .access spread (some (.take 1))),
    ("pass", .plain pass (some (.take 1))),
    ("end", .plain finish (some (.take 1))),
    ("avoid", .plain avoid (some (.optional 1))),
    ("stop", .plain stop (some (.optional 1))),
    ("prune", .prune),
    ("debug", .access debug none)]

def intArg (args : List Value) (i : Nat) (default : Int) : Int :=
  match args[i]?.bind Value.asInt? with
  | some n => n.toInt
  | none => default

/-- Whether the data of a cell is the one looked for: any of the arguments, or without arguments
anything that counts as true. -/
def isTarget (data : Option Value) (args : List Value) : Bool :=
  match data with
  | none => false
  | some v => if args.isEmpty then v.isTruthy else args.contains v

def applies (data : Option Value) : Bool := data.all Value.isTruthy

def spreadItems? : Value → Option (List Value)
  | .list items => some items
  | .text s => some (s.toList.map fun c => .text c.toString)
  | _ => none

def perform (c : Control) (args : List Value) (ctx : Context) (s : Stack) :
    Except Error Reply × Context × Stack :=
  let quiet (s : Stack) := (Except.ok Reply.nothing, ctx, s)
  let n := intArg args 0 1
  match c with
  | push => (.ok .nothing, { ctx with data := none }, s.push (args ++ ctx.data.toList))
  | pop => quiet (if n = 1 then s.stageTop else s.stageTopMany n.toNat)
  | shift => quiet (if n = 1 then s.stageBottom else s.stageBottomMany n.toNat)
  | index => quiet (s.stageCopies ((args.filterMap Value.asInt?).map Int64.toInt))
  | nil => if applies ctx.data then quiet s.pushNil else (.ok (.done args.head?), ctx, s)
  | dup => quiet (s.push (List.replicate n.toNat (s.top 1)).flatten)
  | dups => quiet (s.push (s.top n.toNat))
  | pack =>
    let (items, s) := s.popMany n.toNat
    (.ok (.value (.list items)), ctx, s)
  | part =>
    let last := (args[1]?.bind Value.asInt?).map Int64.toInt
    (.ok (.value (.list (s.slice (intArg args 0 0) last))), ctx, s)
  | vain => quiet (s.popMany n.toNat).2
  | spread =>
    let ctx' := { ctx with data := none }
    match ctx.data with
    | none => quiet s
    | some v => match spreadItems? v with
      | some items => (.ok .nothing, ctx', s.push items)
      | none => (.error (.failed ("spread: `" ++ v.shown ++ "` is not iterable")), ctx', s)
  | pass => (.ok (if isTarget ctx.data args then .nothing else .abort), ctx, s)
  | finish => (.ok (if isTarget ctx.data args then .abort else .nothing), ctx, s)
  | avoid =>
    if applies ctx.data then (.ok (.done args.head?), ctx.preventDefault, s) else quiet s
  | stop =>
    if applies ctx.data then (.ok (.done args.head?), ctx.stopPropagation, s) else quiet s
  | debug =>
    (.ok (if (args.head?.map (· == .bool false)).getD false then .abort else .nothing), ctx, s)

def debugText (args : List Value) (ctx : Context) (s : Stack) : String :=
  let optional (s? : Option String) := match s? with
    | some s => "Some(" ++ s ++ ")"
    | none => "None"
  let node (id : NodeId) := "NodeId(" ++ id.index.repr ++ ")"
  let message := match args.head? with
    | some v => if v.isNil then "" else v.shown
    | none => ""
  "[debug] " ++ message
    ++ " event=" ++ optional (ctx.event.map fun e => Text.Quoted.encode e.name)
    ++ " target=" ++ optional (ctx.target.map node)
    ++ " current=" ++ optional (ctx.current.map node)
    ++ " primary=" ++ optional (ctx.primary.map Value.inspect)
    ++ " updated=" ++ optional (ctx.updated.map Value.inspect)
    ++ " buffer=" ++ Value.inspectAll s.buffer
    ++ " staging=" ++ Value.inspectAll s.staging

def entries (c : Control) (args : List Value) (ctx : Context) (s : Stack) : List Log.Entry :=
  match c with
  | debug => [⟨.info, .control, debugText args ctx s⟩]
  | _ => []

end Control

end AttrChain
