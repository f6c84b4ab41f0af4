import AttrChain.Proofs.Upkeep
import AttrChain.Stage.Build

/-!
What events leave as it is: the tree of the document, and the chains that are kept.
-/

namespace AttrChain

variable {ι ε α : Type}

namespace Node

/-- What a node is made as, whatever is done to it later. -/
def place (n : Node) : NodeId × String × Option NodeId := (n.id, n.tag, n.parent)

/-- The second node is the first one with other attributes, classes, properties, styles or text. -/
def Rewritten (n m : Node) : Prop :=
  ∃ name classes attrs props styles text,
    m = { n with name, classes, attrs, props, styles, text }

section Rewriting

variable {n m k : Node}

theorem Rewritten.refl (n : Node) : n.Rewritten n := ⟨_, _, _, _, _, _, rfl⟩

theorem Rewritten.trans (hnm : n.Rewritten m) (hmk : m.Rewritten k) : n.Rewritten k := by
  obtain ⟨_, _, _, _, _, _, rfl⟩ := hnm
  obtain ⟨_, _, _, _, _, _, rfl⟩ := hmk
  exact ⟨_, _, _, _, _, _, rfl⟩

theorem Rewritten.place (h : n.Rewritten m) : m.place = n.place := by
  obtain ⟨_, _, _, _, _, _, rfl⟩ := h
  rfl

theorem Rewritten.children (h : n.Rewritten m) : m.children = n.children := by
  obtain ⟨_, _, _, _, _, _, rfl⟩ := h
  rfl

theorem addClasses_eq (cs : List String) (n : Node) :
    ∃ classes, n.addClasses cs = { n with classes } := by
  unfold addClasses
  induction cs generalizing n with
  | nil => exact ⟨_, rfl⟩
  | cons c rest ih =>
    obtain ⟨more, hmore⟩ := ih (n.addClass c)
    rw [List.foldl_cons, hmore]
    unfold addClass
    split
    · exact ⟨more, rfl⟩
    · exact ⟨more, rfl⟩

theorem addClasses_rewritten (cs : List String) (n : Node) : n.Rewritten (n.addClasses cs) := by
  obtain ⟨classes, h⟩ := addClasses_eq cs n
  exact ⟨_, _, _, _, _, _, h⟩

theorem setAttr_rewritten (name value : String) (n : Node) :
    n.Rewritten (n.setAttr name value) := by
  unfold setAttr
  split
  · exact ⟨_, _, _, _, _, _, rfl⟩
  split
  · exact .trans ⟨_, _, _, _, _, _, rfl⟩ (addClasses_rewritten _ _)
  · exact ⟨_, _, _, _, _, _, rfl⟩

theorem removeAttr_rewritten (name : String) (n : Node) : n.Rewritten (n.removeAttr name) := by
  unfold removeAttr
  split
  · exact ⟨_, _, _, _, _, _, rfl⟩
  split <;> exact ⟨_, _, _, _, _, _, rfl⟩

/-- The second node is what an instruction makes of the first one: an attribute is set or removed,
the words of a text or the `given` texts are added as classes, or other parts are written. -/
inductive Changed (given : List String) (n : Node) : Node → Prop
  | set (name value : String) : Changed given n (n.setAttr name value)
  | remove (name : String) : Changed given n (n.removeAttr name)
  | words (s : String) : Changed given n (n.addClasses (Text.wordsOf s))
  | given : Changed given n (n.addClasses given)
  | elsewhere (props : List (String × Value)) (styles : List (String × String)) (text : String) :
      Changed given n { n with props, styles, text }

theorem Changed.rewritten {given : List String} (h : n.Changed given m) : n.Rewritten m := by
  cases h with
  | set name value => exact setAttr_rewritten name value n
  | remove name => exact removeAttr_rewritten name n
  | words s => exact addClasses_rewritten _ n
  | given => exact addClasses_rewritten _ n
  | elsewhere => exact ⟨_, _, _, _, _, _, rfl⟩

end Rewriting

end Node

namespace Document

def skeleton (d : Document) : List (NodeId × String × Option NodeId) := d.nodes.map Node.place

/-- A change of one node leaves what is told of all nodes if it leaves what is told of that one. -/
theorem map_modify_of {tell : Node → α} {d : Document} {id : NodeId} {f : Node → Node}
    (hf : ∀ n ∈ d.node? id, tell (f n) = tell n) :
    (d.modify id f).nodes.map tell = d.nodes.map tell := by
  apply List.ext_getElem?
  intro j
  simp only [modify, List.getElem?_map, List.getElem?_modify]
  cases hn : d.nodes[j]? with
  | none => rfl
  | some n =>
    by_cases hj : id.index = j
    · subst hj
      simp [hf n hn]
    · simp [hj]

theorem skeleton_modify_of {d : Document} {id : NodeId} {f : Node → Node}
    (hf : ∀ n ∈ d.node? id, (f n).place = n.place) : (d.modify id f).skeleton = d.skeleton :=
  map_modify_of hf

theorem node?_create (d : Document) (tag : String) (parent : Option NodeId) :
    ((d.create tag parent).2.node? (d.create tag parent).1).isSome := by
  simp [create, node?, modify]

theorem skeleton_create (d : Document) (tag : String) (parent : Option NodeId) :
    (d.create tag parent).2.skeleton =
      d.skeleton ++ [(⟨d.nodes.length⟩, tag, some (parent.getD root))] := by
  have hmodify : (d.create tag parent).2.skeleton =
      skeleton ⟨d.nodes ++ [Node.blank ⟨d.nodes.length⟩ tag (some (parent.getD root))]⟩ := by
    apply skeleton_modify_of
    intro n _
    rfl
  rw [hmodify]
  simp [skeleton, Node.place, Node.blank]

end Document

namespace Change

theorem toNode_changed {c : Change} {args : List Value} {value : Option Value} {n n' : Node}
    (hn : c.toNode args value n = .ok n') :
    n.Changed (if c = .addClass then args.map Value.shown else []) n' := by
  have hset (given : List String) (on : Bool) (name value : String) :
      n.Changed given (if on then n.setAttr name value else n.removeAttr name) := by
    cases on
    · exact .remove name
    · exact .set name value
  cases c with
  | text =>
    cases hn
    exact .elsewhere _ _ _
  | addClass =>
    cases hn
    cases args with
    | nil =>
      cases value with
      | none => exact .given
      | some v => exact .words v.shown
    | cons v rest => exact .given
  | attr =>
    obtain ⟨name, -, hn⟩ := ok_of_bind hn
    cases hn
    rw [if_neg nofun]
    split
    · exact hset _ true name _
    · exact hset _ false name ""
  | prop | css =>
    obtain ⟨name, -, hn⟩ := ok_of_bind hn
    cases hn
    rw [if_neg nofun]
    split <;> exact .elsewhere _ _ _
  | toggleAttr =>
    obtain ⟨name, -, hn⟩ := ok_of_bind hn
    cases hn
    exact hset _ _ name ""

/-- What is told of nodes alike if one was rewritten is left by all instructions. -/
theorem toNodes_leaves {tell : Node → α} (ht : ∀ n m : Node, n.Rewritten m → tell m = tell n)
    (c : Change) (args : List Value) (value : Option Value) (targets : List NodeId)
    (d : Document) : (c.toNodes args value targets d).2.nodes.map tell = d.nodes.map tell := by
  induction targets generalizing d with
  | nil => rfl
  | cons id rest ih =>
    unfold toNodes
    split
    · exact ih d
    next n hn =>
      split
      · rfl
      next n' hn' =>
        refine (ih _).trans (Document.map_modify_of ?_)
        intro m hm
        cases hn.symm.trans hm
        exact ht n n' (toNode_changed hn').rewritten

theorem toNodes_skeleton (c : Change) (args : List Value) (value : Option Value)
    (targets : List NodeId) (d : Document) :
    (c.toNodes args value targets d).2.skeleton = d.skeleton :=
  toNodes_leaves (fun _ _ h => h.place) c args value targets d

def Keep (Q : Document → Prop) : Prop :=
  ∀ (c : Change) args ctx d, Q d → Q (c.perform args ctx d).2.2

end Change

namespace Stage

theorem host_keeps_document (settings : Settings) {Q : Document → Prop} (hq : Change.Keep Q) :
    (host settings : Host Kit (Stage Kit ε)).Keeps fun _ s => Q s.document where
  perform body args ctx stack s hs := by
    cases body with
    | control c => exact hs
    | compute c => exact hs
    | change c => exact hq c args ctx _ hs
  findOne selector start e s hs := by
    dsimp only [host, findOne, findAll]
    split <;> exact hs
  findAll selector start e s hs := by
    dsimp only [host, findAll]
    split <;> exact hs
  reject why e s hs := by
    dsimp only [host, logRejection]
    split <;> exact hs

/-- Instructions change nodes, and neither make nor move them. -/
theorem host_leaves_skeleton (settings : Settings) :
    (host settings : Host Kit (Stage Kit ε)).Leaves fun s => s.document.skeleton := by
  intro seen
  apply host_keeps_document (Q := fun d => d.skeleton = seen)
  intro c args ctx d hd
  exact (c.toNodes_skeleton _ _ _ _).trans hd

section Keeping

variable {h : Host ι (Stage ι ε)}

theorem takeChain_length {id : ChainId} {s t : Stage ι ε} {c : Chain ι}
    (ht : s.takeChain id = some (c, t)) : t.slots.length = s.slots.length := by
  unfold takeChain at ht
  split at ht
  · cases ht
    exact List.length_set
  · cases ht

theorem fire_length (hl : h.Leaves fun s => s.slots.length) (id : ChainId) (event : Event)
    (ctx : Context) (s : Stage ι ε) :
    (s.fire h id event ctx).2.slots.length = s.slots.length := by
  unfold fire
  dsimp only
  cases ht : s.takeChain id with
  | none => rfl
  | some taken =>
    obtain ⟨c, t⟩ := taken
    have hfired := c.fire_keeps (hl t.slots.length) (ctx.withEvent event) (s := t) rfl
    dsimp only
    generalize c.fire h (ctx.withEvent event) t = r at hfired
    obtain ⟨halt, c', ctx', u⟩ := r
    have hput : (u.putChain id c').slots.length = s.slots.length :=
      List.length_set.trans (hfired.trans (takeChain_length ht))
    cases halt <;> exact hput

theorem dispatch_length (hl : h.Leaves fun s => s.slots.length) (event : Event) (bubbles : Bool)
    (s : Stage ι ε) : (s.dispatch h event bubbles).2.slots.length = s.slots.length := by
  apply dispatch_keeps (P := fun t => t.slots.length = s.slots.length) ?_ ?_ event bubbles rfl
  · intro current event t chosen ht
    have hfired := fire_length hl chosen.1 event (.listener current chosen.2) { t with
      records := t.records ++ [⟨event.name, event.target, current, chosen.2, .pending, none⟩] }
    dsimp only [deliver]
    split <;> exact hfired.trans ht
  · exact fun _ _ _ ht => ht

end Keeping

section Settling

variable {h : Host ι (Stage ι ε)}

theorem settle_keeps {R : Stage ι ε → Prop} (hk : h.Keeps fun _ s => R s)
    (hd : ∀ s slots records fresh ready waiting,
      R s → R { s with slots, records, fresh, ready, waiting })
    {s : Stage ι ε} (hr : R s) : R (s.settle h) := by
  have hattend : ∀ (t : Stage ι ε) (task : Task), R t → R (t.attend h task) := by
    intro t task ht
    have hpolled := poll_keeps hk (fun _ t slots => hd t slots _ _ _ _) task.firing ht
    unfold attend
    split
    next hpoll =>
      rw [hpoll] at hpolled
      exact hd _ _ _ _ _ _ hpolled
    next hpoll =>
      rw [hpoll] at hpolled
      exact hd _ _ _ _ _ _ hpolled
    next hpoll =>
      rw [hpoll] at hpolled
      exact hd _ _ _ _ _ _ hpolled
  have hall : ∀ (tasks : List Task) (t : Stage ι ε), R t → R (tasks.foldl (attend h) t) := by
    intro tasks
    induction tasks with
    | nil => exact fun _ ht => ht
    | cons task rest ih => exact fun t ht => ih _ (hattend t task ht)
  exact hall _ _ (hd s _ _ _ _ _ hr)

theorem settle_leaves {view : Stage ι ε → α} (hl : h.Leaves view)
    (hv : ∀ s slots records fresh ready waiting,
      view { s with slots, records, fresh, ready, waiting } = view s)
    (s : Stage ι ε) : view (s.settle h) = view s :=
  settle_keeps (hl (view s)) (fun t _ _ _ _ _ ht => (hv t _ _ _ _ _).trans ht) rfl

end Settling

end Stage

end AttrChain
