import AttrChain.Chain.Context
import AttrChain.Error
import AttrChain.Stack

/-!
What a chain needs from the program around it.
-/

namespace AttrChain

/-- The program around chains, with its state `σ`: what instructions do, how nodes are found and
read, which tickets are answered, and where rejections go. An instruction leaves its context, the
stack and the state behind also when it fails. -/
structure Host (ι σ : Type) where
  perform : ι → List Value → Context → Stack → σ →
    Except Error Reply × Context × Stack × σ
  findOne : String → Option NodeId → σ → Option NodeId × σ
  findAll : String → Option NodeId → σ → List NodeId × σ
  field : NodeId → String → σ → Option Value
  answer : Nat → σ → Option Settlement
  reject : Rejection → σ → σ

def Host.settlement? {ι σ : Type} (h : Host ι σ) (p : Promise) (s : σ) : Option Settlement :=
  match p with
  | .settled settlement => some settlement
  | .ticket number => h.answer number s

end AttrChain
