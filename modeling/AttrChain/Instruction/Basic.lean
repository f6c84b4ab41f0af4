/-!
Instructions as a chain sees them: how they are invoked and how many values they ask for. What an
instruction does stands apart; here it is only an identity of type `ι`.
-/

namespace AttrChain

/-- How many values an instruction asks for: all that are set aside, `n` of those set aside or of
the buffer, or up to `n` of those set aside. -/
inductive Arity where
  | all
  | take (n : Nat)
  | optional (n : Nat)
  deriving DecidableEq

/-- The signed count by which the stack is asked. -/
def Arity.count : Arity → Int
  | all => 0
  | take n => n
  | optional n => -n

/-- How an instruction is invoked: with its context alone, with the stack as well, or as the
instruction that cuts its chain. -/
inductive Action (ι : Type) where
  | plain (body : ι)
  | access (body : ι)
  | prune
  deriving DecidableEq

structure Instruction (ι : Type) where
  action : Action ι
  arity : Option Arity
  deriving DecidableEq

variable {ι κ : Type}

def Action.map (f : ι → κ) : Action ι → Action κ
  | plain body => plain (f body)
  | access body => access (f body)
  | prune => prune

namespace Instruction

def plain (body : ι) (arity : Option Arity) : Instruction ι := ⟨.plain body, arity⟩

def access (body : ι) (arity : Option Arity) : Instruction ι := ⟨.access body, arity⟩

def prune : Instruction ι := ⟨.prune, none⟩

def map (f : ι → κ) (i : Instruction ι) : Instruction κ := ⟨i.action.map f, i.arity⟩

def isAccess (i : Instruction ι) : Bool :=
  match i.action with
  | .access _ => true
  | _ => false

def isPrune (i : Instruction ι) : Bool :=
  match i.action with
  | .prune => true
  | _ => false

def kind (i : Instruction ι) : String :=
  match i.action with
  | .plain _ => "plain"
  | .access _ => "access"
  | .prune => "prune"

end Instruction

def Arity.inspect : Arity → String
  | all => "All"
  | take n => "Take(" ++ n.repr ++ ")"
  | optional n => "Optional(" ++ n.repr ++ ")"

def Instruction.inspect (i : Instruction ι) : String :=
  let arity := match i.arity with
    | some a => "Some(" ++ a.inspect ++ ")"
    | none => "None"
  "Instruction \x7b kind: \x22" ++ i.kind ++ "\x22, extent: " ++ arity ++ " \x7d"

end AttrChain
