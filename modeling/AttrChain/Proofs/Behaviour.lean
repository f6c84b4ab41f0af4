import AttrChain.Chain.Basic
import AttrChain.Chain.Host

/-!
Instructions that depend on nothing but their context, the stack and their arguments, and leave
nothing else behind.
-/

namespace AttrChain

/-- The behaviour of instructions in a world `ω`, which is only read: nodes are found and promises
are settled as it says. -/
structure Behaviour (ι ω : Type) where
  perform : ι → List Value → Context → Stack → Except Error Reply × Context × Stack
  findOne : String → Option NodeId → ω → Option NodeId
  findAll : String → Option NodeId → ω → List NodeId
  field : NodeId → String → ω → Option Value
  answer : Nat → ω → Option Settlement

variable {ι ω : Type}

namespace Behaviour

def host (b : Behaviour ι ω) : Host ι ω where
  perform body args ctx stack w :=
    let (reply, ctx, stack) := b.perform body args ctx stack
    (reply, ctx, stack, w)
  findOne selector start w := (b.findOne selector start w, w)
  findAll selector start w := (b.findAll selector start w, w)
  field := b.field
  answer := b.answer
  reject _ w := w

/-- Instructions that return what they are, in a world that consists of the answers to tickets. -/
def echo : Behaviour (Except Error Reply) (Nat → Option Settlement) where
  perform body _ ctx stack := (body, ctx, stack)
  findOne _ _ _ := none
  findAll _ _ _ := []
  field _ _ _ := none
  answer number w := w number

end Behaviour

def Chain.echoing (replies : List (Except Error Reply)) : Chain (Except Error Reply) :=
  .ofCells [] (replies.map fun reply => .call (.plain reply none) ⟨"echo", [], none⟩)

end AttrChain
