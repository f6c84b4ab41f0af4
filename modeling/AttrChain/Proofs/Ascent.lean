import AttrChain.Document.Tree

/-!
The way from a node up to the root, in documents of which every node was created under a node that
was there before.
-/

namespace AttrChain

namespace Document

/-- Documents as they come about: nodes are created under nodes that exist, and no change moves a
node. -/
inductive Made : Document → Prop
  | empty : Made .empty
  | create {d} (tag : String) (parent : Option NodeId) :
      Made d → (∀ p ∈ parent, (d.node? p).isSome) → Made (d.create tag parent).2
  | modify {d} (id : NodeId) (f : Node → Node) :
      Made d → (∀ n, (f n).parent = n.parent) → Made (d.modify id f)

def above? (d : Document) (id : NodeId) : Option (Option NodeId) := (d.node? id).map Node.parent

inductive Ascends (d : Document) : NodeId → List NodeId → Prop
  | root : d.above? root = some none → Ascends d root [root]
  | step {id parent path} : d.above? id = some (some parent) → Ascends d parent path →
      Ascends d id (id :: path)

/-- Handles are given out in ascending order, so a parent has a smaller one than its child. -/
structure Rooted (d : Document) : Prop where
  root : (d.above? root).isSome
  parent : ∀ id p, d.above? id = some (some p) → p.index < id.index ∧ (d.above? p).isSome
  orphan : ∀ id, d.above? id = some none → id = Document.root

section Telling

variable {α : Type} {tell : Node → α}

/-- A change that leaves what is told of one node leaves what is told of all. -/
theorem map_node?_modify {d : Document} {id : NodeId} {f : Node → Node}
    (hf : ∀ n ∈ d.node? id, tell (f n) = tell n) (other : NodeId) :
    ((d.modify id f).node? other).map tell = (d.node? other).map tell := by
  simp only [node?, modify, List.getElem?_modify]
  cases hn : d.nodes[other.index]? with
  | none => rfl
  | some n =>
    by_cases hother : id.index = other.index
    · have hid : n ∈ d.node? id := by rw [node?, hother, hn, Option.mem_some]
      simp [hother, hf n hid]
    · simp [hother]

theorem map_node?_create (ht : ∀ (n : Node) children, tell { n with children } = tell n)
    (d : Document) (tag : String) (parent : Option NodeId) (id : NodeId) :
    ((d.create tag parent).2.node? id).map tell =
      if id.index = d.nodes.length then
        some (tell (.blank ⟨d.nodes.length⟩ tag (some (parent.getD root))))
      else (d.node? id).map tell := by
  have hmodify : ((d.create tag parent).2.node? id).map tell =
      (node? ⟨d.nodes ++ [.blank ⟨d.nodes.length⟩ tag (some (parent.getD root))]⟩ id).map tell := by
    apply map_node?_modify
    exact fun n _ => ht n _
  rw [hmodify, node?, node?]
  by_cases h : id.index = d.nodes.length
  · simp [h]
  · rw [if_neg h, List.getElem?_append]
    split
    · rfl
    · rw [List.getElem?_eq_none (by simp; omega), List.getElem?_eq_none (by omega)]

end Telling

theorem above?_modify (d : Document) {f : Node → Node} (hf : ∀ n, (f n).parent = n.parent)
    (id other : NodeId) : (d.modify id f).above? other = d.above? other :=
  map_node?_modify (fun n _ => hf n) other

theorem above?_create (d : Document) (tag : String) (parent : Option NodeId) (id : NodeId) :
    (d.create tag parent).2.above? id =
      if id.index = d.nodes.length then some (some (parent.getD root)) else d.above? id :=
  map_node?_create (fun _ _ => rfl) d tag parent id

theorem Rooted.empty : Document.empty.Rooted where
  root := rfl
  parent id p hp := by
    obtain ⟨i⟩ := id
    cases i with
    | zero => cases hp
    | succ i => cases hp
  orphan id ho := by
    obtain ⟨i⟩ := id
    cases i with
    | zero => rfl
    | succ i => cases ho

theorem Rooted.create {d : Document} (hd : d.Rooted) (tag : String) {parent : Option NodeId}
    (hparent : ∀ p ∈ parent, (d.node? p).isSome) : (d.create tag parent).2.Rooted := by
  have hlt : ∀ id, (d.above? id).isSome → id.index < d.nodes.length := by
    intro id hid
    rw [above?, Option.isSome_map, node?] at hid
    simpa using hid
  have hp : (d.above? (parent.getD Document.root)).isSome := by
    cases parent with
    | none => exact hd.root
    | some p => simpa [above?] using hparent p rfl
  have hkeep : ∀ id, (d.above? id).isSome → ((d.create tag parent).2.above? id).isSome := by
    intro id hid
    rw [above?_create]
    split
    · rfl
    · exact hid
  constructor
  · exact hkeep _ hd.root
  · intro id p hid
    rw [above?_create] at hid
    split at hid
    next hnew =>
      cases hid
      exact ⟨hnew ▸ hlt _ hp, hkeep _ hp⟩
    next =>
      obtain ⟨hless, habove⟩ := hd.parent id p hid
      exact ⟨hless, hkeep p habove⟩
  · intro id hid
    rw [above?_create] at hid
    split at hid
    · cases hid
    · exact hd.orphan id hid

theorem Made.rooted {d : Document} (hd : d.Made) : d.Rooted := by
  induction hd with
  | empty => exact .empty
  | create tag parent _ hparent ih => exact ih.create tag hparent
  | @modify d id f _ hf ih =>
    have habove : (d.modify id f).above? = d.above? := funext (above?_modify d hf id)
    exact ⟨habove ▸ ih.root, habove ▸ ih.parent, habove ▸ ih.orphan⟩

/-- As many steps as the handle of the node says are enough to come to the root. -/
theorem pathFrom_ascends {d : Document} (hd : d.Rooted) (fuel : Nat) (id : NodeId)
    (hid : (d.above? id).isSome) (hfuel : id.index < fuel) :
    d.Ascends id (d.pathFrom fuel id) := by
  induction fuel generalizing id with
  | zero => omega
  | succ fuel ih =>
    obtain ⟨parent?, habove⟩ := Option.isSome_iff_exists.mp hid
    have hparent : (d.node? id).bind Node.parent = parent? := by
      obtain ⟨n, hn, hnp⟩ := Option.map_eq_some_iff.mp habove
      rw [hn, Option.bind_some, hnp]
    simp only [pathFrom, hparent]
    cases parent? with
    | none =>
      rw [hd.orphan id habove]
      exact .root (hd.orphan id habove ▸ habove)
    | some parent =>
      obtain ⟨hless, hsome⟩ := hd.parent id parent habove
      exact .step habove (ih parent hsome (by omega))

theorem Rooted.path_ascends {d : Document} (hd : d.Rooted) {id : NodeId}
    (hid : (d.node? id).isSome) : d.Ascends id (d.path id) := by
  have hsome : (d.above? id).isSome := by simpa [above?] using hid
  rw [path, if_pos hid]
  apply pathFrom_ascends hd _ id hsome
  have hlt : id.index < d.nodes.length := by simpa [node?] using hid
  omega

theorem path_ascends {d : Document} (hd : d.Made) {id : NodeId} (hid : (d.node? id).isSome) :
    d.Ascends id (d.path id) :=
  hd.rooted.path_ascends hid

theorem path_of_none {d : Document} {id : NodeId} (hid : d.node? id = none) : d.path id = [] := by
  simp [path, hid]

/-- Every node on the way is nearer to the root than those before it, so none comes twice. -/
theorem Ascends.descending {d : Document} (hd : d.Rooted) {id : NodeId} {path : List NodeId}
    (hp : d.Ascends id path) :
    path.Pairwise (fun a b => b.index < a.index) ∧ ∀ n ∈ path, n.index ≤ id.index := by
  induction hp with
  | root _ => simp
  | @step id parent path habove _ ih =>
    obtain ⟨hpair, hbelow⟩ := ih
    have hless := (hd.parent id parent habove).1
    have hlater : ∀ n ∈ path, n.index < id.index := by
      intro n hn
      have := hbelow n hn
      omega
    constructor
    · exact .cons hlater hpair
    · rintro n (_ | ⟨_, hn⟩)
      · exact Nat.le_refl _
      · exact Nat.le_of_lt (hlater n hn)

theorem Ascends.nodup {d : Document} (hd : d.Rooted) {id : NodeId} {path : List NodeId}
    (hp : d.Ascends id path) : path.Nodup := by
  apply (hp.descending hd).1.imp
  rintro a b hless rfl
  exact Nat.lt_irrefl _ hless

end Document

end AttrChain
