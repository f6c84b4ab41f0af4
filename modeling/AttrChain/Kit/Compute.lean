import AttrChain.Chain.Context
import AttrChain.Document.Tree
import AttrChain.Error
import AttrChain.Instruction.Table
import AttrChain.Value.Text
import AttrChain.Value.View

/-!
Instructions that compute: arithmetic, texts, attributes of nodes, and results that come late.
-/

namespace AttrChain

inductive Compute where
  | add | sub | mul | concat | attr | defer | fail
  deriving DecidableEq

namespace Compute

def table : Table Compute := Table.ofList
  [("add", .plain add (some (.take 2))),
    ("sub", .plain sub (some (.take 1))),
    ("mul", .plain mul (some (.take 2))),
    ("concat", .plain concat (some (.take 2))),
    ("attr", .plain attr (some (.optional 1))),
    ("defer", .plain defer (some (.optional 1))),
    ("fail", .plain fail none)]

/-- The operands of an instruction: its data, a list spread out, and then its arguments. -/
def operands (data : Option Value) (args : List Value) : List Value :=
  match data with
  | some (.list items) => items ++ args
  | some v => v :: args
  | none => args

structure Arithmetic where
  name : String
  whole : Int → Int → Int
  float : Float → Float → Float

def addition : Arithmetic := ⟨"add", (· + ·), (· + ·)⟩

def subtraction : Arithmetic := ⟨"sub", (· - ·), (· - ·)⟩

def multiplication : Arithmetic := ⟨"mul", (· * ·), (· * ·)⟩

def fits (n : Int) : Bool := -Int.pow 2 63 ≤ n && n < Int.pow 2 63

/-- The result of the operation on two values. Whole numbers stay whole as long as they fit. -/
def Arithmetic.apply (a : Arithmetic) (x y : Value) : Except Error Value :=
  match x, y with
  | .int m, .int n =>
    let r := a.whole m.toInt n.toInt
    .ok (if fits r then .int (.ofInt r) else .float (a.float m.toFloat n.toFloat))
  | _, _ => match x.asFloat?, y.asFloat? with
    | some p, some q => .ok (.float (a.float p q))
    | _, _ =>
      .error (.failed (a.name ++ ": `" ++ x.shown ++ "` and `" ++ y.shown ++ "` are not numbers"))

def Arithmetic.fold (a : Arithmetic) : List Value → Except Error Value
  | [] => .error (.failed (a.name ++ ": no operands"))
  | first :: rest => rest.foldlM a.apply first

def nameArg (args : List Value) (instruction : String) : Except Error String :=
  match args.head?.bind Value.asText? with
  | some name => .ok name
  | none => .error (.failed (instruction ++ ": missing name argument"))

def perform (c : Compute) (args : List Value) (ctx : Context) (d : Document) :
    Except Error Reply × Context :=
  let used := { ctx with data := none }
  let arithmetic (a : Arithmetic) := ((a.fold (operands ctx.data args)).map Reply.value, used)
  match c with
  | add => arithmetic addition
  | sub => arithmetic subtraction
  | mul => arithmetic multiplication
  | concat =>
    let s := String.join ((operands ctx.data args).map Value.shown)
    (.ok (.value (.text s)), used)
  | attr => match nameArg args "attr" with
    | .error e => (.error e, ctx)
    | .ok name =>
      let node := (ctx.data.bind Value.asNode?).or ctx.delegate
      let found := (node.bind d.node?).bind fun n => n.attr? name
      (.ok (.done (found.map .text)), used)
  | defer => (.ok (.pending (.settled (.fulfilled (ctx.data.or args.head?)))), used)
  | fail =>
    let message := match args.head? with
      | some v => v.shown
      | none => "failed"
    (.ok (.reject ("err: " ++ message)), ctx)

end Compute

end AttrChain
