import AttrChain.Stage.Basic

/-!
Firing chains on the stage, and going on with firings that were suspended.
-/

namespace AttrChain

structure Outcome where
  value : Option Value
  ctx : Context

/-- What comes of firing a chain. An error leaves the context as it was when it arose. -/
inductive Fired where
  | done (o : Outcome)
  | suspended (s : Suspended)
  | failed (e : Error) (ctx : Context)

def Fired.ctx : Fired → Context
  | done o => o.ctx
  | suspended s => s.ctx
  | failed _ ctx => ctx

inductive Polled where
  | done (o : Outcome)
  | aborted
  | waiting (s : Suspended)

namespace Stage

variable {ι ε : Type}

/-- Fires a chain with an event. A chain that runs already is busy. -/
def fire (h : Host ι (Stage ι ε)) (id : ChainId) (event : Event) (ctx : Context)
    (s : Stage ι ε) : Fired × Stage ι ε :=
  let ctx := ctx.withEvent event
  match s.takeChain id with
  | none => (.failed .busy ctx, s)
  | some (c, s) =>
    let (halt, c, ctx, s) := c.fire h ctx s
    let s := s.putChain id c
    match halt with
    | .done value => (.done ⟨value, ctx⟩, s)
    | .failed e => (.failed e ctx, s)
    | .rejected why => (.suspended ⟨id, .settled (.rejected why), none, ctx⟩, s)
    | .waiting promise next => (.suspended ⟨id, promise, next, ctx⟩, s)

def abort (h : Host ι (Stage ι ε)) (why : Rejection) (s : Stage ι ε) : Polled × Stage ι ε :=
  (.aborted, h.reject why s)

def rejectionOf (e : Error) : Rejection := ⟨some ("err: " ++ e.message)⟩

def poll (h : Host ι (Stage ι ε)) (f : Suspended) (s : Stage ι ε) : Polled × Stage ι ε :=
  match h.settlement? f.promise s with
  | none => (.waiting f, s)
  | some (.rejected why) => abort h why s
  | some (.fulfilled value) =>
    match f.next with
    | none => (.done ⟨value, f.ctx⟩, s)
    | some i => match s.takeChain f.chain with
      | none => abort h (rejectionOf .busy) s
      | some (c, s) =>
        let (halt, c, ctx, s) := c.resume h i value f.ctx s
        let s := s.putChain f.chain c
        match halt with
        | .done value => (.done ⟨value, ctx⟩, s)
        | .failed e => abort h (rejectionOf e) s
        | .rejected why => abort h why s
        | .waiting promise next => (.waiting ⟨f.chain, promise, next, ctx⟩, s)

end Stage

end AttrChain
