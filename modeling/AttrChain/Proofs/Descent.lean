import AttrChain.Proofs.Ascent
import Mathlib.Logic.Relation

/-!
The way from a node down to all nodes below it, in documents of which every node was created under
a node that was there before: all of them are found, each once, in tree order.
-/

namespace AttrChain

open Relation

namespace Document

/-- Documents as they come about: nodes are created under nodes that exist, and no change touches
the parent of a node or its children. -/
inductive Grown : Document → Prop
  | empty : Grown .empty
  | create {d} (tag : String) (parent : Option NodeId) :
      Grown d → (∀ p ∈ parent, (d.node? p).isSome) → Grown (d.create tag parent).2
  | modify {d} (id : NodeId) (f : Node → Node) :
      Grown d → (∀ n ∈ d.node? id, (f n).parent = n.parent ∧ (f n).children = n.children) →
      Grown (d.modify id f)

/-- The children of a node; a node that does not exist has none. -/
def children (d : Document) (id : NodeId) : List NodeId := ((d.node? id).map Node.children).getD []

def IsParent (d : Document) (p c : NodeId) : Prop := d.above? c = some (some p)

def Below (d : Document) : NodeId → NodeId → Prop := TransGen d.IsParent

def Within (d : Document) : NodeId → NodeId → Prop := ReflTransGen d.IsParent

/-- Tree order: a node comes before those below it, and what is within a child comes before what is
within a later child of the same node. -/
inductive Before (d : Document) : NodeId → NodeId → Prop
  | below {a b} : d.Below a b → Before d a b
  | beside {p x y a b} : [x, y].Sublist (d.children p) → d.Within x a → d.Within y b → Before d a b

/-- Parents and children say the same of the tree, and children stand in the order of their
making. -/
structure Branched (d : Document) : Prop extends d.Rooted where
  mem_children : ∀ p c, c ∈ d.children p ↔ d.IsParent p c
  ascending : ∀ p, (d.children p).Pairwise fun a b => a.index < b.index

section Making

variable {d : Document}

theorem node?_of_isParent (hd : d.Rooted) {p c : NodeId} (h : d.IsParent p c) :
    (d.node? p).isSome ∧ (d.node? c).isSome := by
  have hp := (hd.parent c p h).2
  rw [above?, Option.isSome_map] at hp
  obtain ⟨n, hn, -⟩ := Option.map_eq_some_iff.mp h
  exact ⟨hp, Option.isSome_of_eq_some hn⟩

theorem index_lt_of_node? {id : NodeId} (h : (d.node? id).isSome) : id.index < d.nodes.length := by
  simpa [node?] using h

theorem children_create (hd : d.Rooted) (tag : String) {parent : Option NodeId}
    (hparent : ∀ p ∈ parent, (d.node? p).isSome) (p : NodeId) :
    (d.create tag parent).2.children p =
      if p = parent.getD root then d.children p ++ [⟨d.nodes.length⟩] else d.children p := by
  have hlt : (parent.getD root).index < d.nodes.length := by
    apply index_lt_of_node?
    cases parent with
    | none => simpa [above?] using hd.root
    | some p => exact hparent p rfl
  obtain ⟨i⟩ := p
  obtain ⟨j, hj⟩ : ∃ j, parent.getD root = ⟨j⟩ := ⟨_, rfl⟩
  rw [hj] at hlt
  simp only [children, node?, create, modify, hj, List.getElem?_modify, NodeId.mk.injEq]
  by_cases hi : i < d.nodes.length
  · rw [List.getElem?_append_left hi, List.getElem?_eq_getElem hi]
    by_cases hij : j = i
    · simp [hij]
    · simp [hij, Ne.symm hij]
  · have hij : ¬i = j := fun h => hi (h ▸ hlt)
    rw [List.getElem?_eq_none (Nat.le_of_not_lt hi), if_neg hij]
    by_cases hnew : i = d.nodes.length
    · subst hnew
      simp [Node.blank, Ne.symm hij]
    · rw [List.getElem?_eq_none (by simp; omega)]
      rfl

theorem children_empty (p : NodeId) : Document.empty.children p = [] := by
  obtain ⟨i⟩ := p
  cases i <;> rfl

theorem Branched.empty : Document.empty.Branched where
  toRooted := .empty
  mem_children p c := by
    rw [children_empty]
    constructor
    · intro hc
      cases hc
    · intro hc
      have hless := (Rooted.empty.parent c p hc).1
      obtain ⟨-, hnode⟩ := node?_of_isParent .empty hc
      have hc0 : c.index < 1 := index_lt_of_node? hnode
      omega
  ascending p := by
    rw [children_empty]
    exact .nil

theorem Branched.create (hd : d.Branched) (tag : String) {parent : Option NodeId}
    (hparent : ∀ p ∈ parent, (d.node? p).isSome) : (d.create tag parent).2.Branched where
  toRooted := hd.toRooted.create tag hparent
  mem_children p c := by
    have hold : c ∈ d.children p ↔ d.above? c = some (some p) := hd.mem_children p c
    rw [children_create hd.toRooted tag hparent, IsParent, above?_create]
    by_cases hc : c.index = d.nodes.length
    · -- the new node is a child of its parent alone
      have hfresh : c ∉ d.children p := fun hmem =>
        Nat.ne_of_lt (index_lt_of_node? (node?_of_isParent hd.toRooted (hold.mp hmem)).2) hc
      have hnew : c ∈ [(⟨d.nodes.length⟩ : NodeId)] :=
        List.mem_singleton.mpr (congrArg NodeId.mk hc)
      split
      next hp => simp [hp, hnew]
      next hp => simp [hfresh, Ne.symm hp]
    · have hnew : c ∉ [(⟨d.nodes.length⟩ : NodeId)] := fun hmem =>
        hc (congrArg NodeId.index (List.mem_singleton.mp hmem))
      rw [if_neg hc, ← hold]
      split
      · rw [List.mem_append, or_iff_left hnew]
      · rfl
  ascending p := by
    rw [children_create hd.toRooted tag hparent]
    split
    · rw [List.pairwise_append]
      refine ⟨hd.ascending p, List.pairwise_singleton _ _, ?_⟩
      intro c hc new hnew
      rw [List.mem_singleton.mp hnew]
      exact index_lt_of_node? (node?_of_isParent hd.toRooted ((hd.mem_children p c).mp hc)).2
    · exact hd.ascending p

theorem Branched.modify (hd : d.Branched) {id : NodeId} {f : Node → Node}
    (hf : ∀ n ∈ d.node? id, (f n).parent = n.parent ∧ (f n).children = n.children) :
    (d.modify id f).Branched := by
  have habove : (d.modify id f).above? = d.above? :=
    funext (map_node?_modify fun n hn => (hf n hn).1)
  have hchildren : (d.modify id f).children = d.children :=
    funext fun p => congrArg (Option.getD · []) (map_node?_modify (fun n hn => (hf n hn).2) p)
  have hparents : (d.modify id f).IsParent = d.IsParent := by
    unfold IsParent
    rw [habove]
  exact {
    root := habove ▸ hd.root
    parent := habove ▸ hd.parent
    orphan := habove ▸ hd.orphan
    mem_children := hchildren ▸ hparents ▸ hd.mem_children
    ascending := hchildren ▸ hd.ascending }

theorem Grown.branched (hd : d.Grown) : d.Branched := by
  induction hd with
  | empty => exact .empty
  | create tag parent _ hparent ih => exact ih.create tag hparent
  | modify id f _ hf ih => exact ih.modify hf

end Making

section Order

variable {d : Document} {a b p x y z : NodeId}

theorem IsParent.unique {q c : NodeId} (hp : d.IsParent p c) (hq : d.IsParent q c) : p = q :=
  Option.some.inj (Option.some.inj (hp.symm.trans hq))

theorem Below.index_lt (hd : d.Rooted) (h : d.Below a b) : a.index < b.index := by
  induction h with
  | single h => exact (hd.parent _ _ h).1
  | tail _ h ih => exact Nat.lt_trans ih (hd.parent _ _ h).1

theorem Below.within (h : d.Below a b) : d.Within a b := TransGen.to_reflTransGen h

theorem Within.cases (h : d.Within a b) : a = b ∨ d.Below a b :=
  (reflTransGen_iff_eq_or_transGen.mp h).imp_left Eq.symm

theorem Within.index_le (hd : d.Rooted) (h : d.Within a b) : a.index ≤ b.index := by
  rcases h.cases with rfl | h
  · exact Nat.le_refl _
  · exact Nat.le_of_lt (h.index_lt hd)

theorem Below.within_parent (h : d.Below a b) (hp : d.IsParent p b) : d.Within a p := by
  obtain ⟨q, haq, hqb⟩ := TransGen.tail'_iff.mp h
  rwa [hp.unique hqb]

/-- Two nodes that a third one is within are above one another, as every node has one parent. -/
theorem Within.comparable (ha : d.Within a z) (hb : d.Within b z) :
    d.Within a b ∨ d.Within b a := by
  have hunique : Relator.RightUnique (Function.swap d.IsParent) := fun _ _ _ h h' => h.unique h'
  rcases ReflTransGen.total_of_right_unique hunique ha.swap hb.swap with h | h
  · exact .inr (reflTransGen_swap.mp h)
  · exact .inl (reflTransGen_swap.mp h)

theorem Within.eq_of_siblings (hd : d.Rooted) (hx : d.IsParent p x) (hy : d.IsParent p y)
    (hxz : d.Within x z) (hyz : d.Within y z) : x = y := by
  have hno : ∀ {u v}, d.IsParent p u → d.IsParent p v → d.Below u v → False := by
    intro u v hu hv hbelow
    have hle := (hbelow.within_parent hv).index_le hd
    have hlt := (hd.parent u p hu).1
    omega
  rcases hxz.comparable hyz with h | h
  · exact h.cases.resolve_right (hno hx hy)
  · exact (h.cases.resolve_right (hno hy hx)).symm

theorem Branched.siblings (hd : d.Branched) (h : [x, y].Sublist (d.children p)) :
    d.IsParent p x ∧ d.IsParent p y ∧ x.index < y.index := by
  refine ⟨?_, ?_, ?_⟩
  · exact (hd.mem_children p x).mp (h.subset (by simp))
  · exact (hd.mem_children p y).mp (h.subset (by simp))
  · exact List.pairwise_iff_forall_sublist.mp (hd.ascending p) h

theorem Branched.apart (hd : d.Branched) (hxy : [x, y].Sublist (d.children p))
    (hxz : d.Within x z) : ¬d.Within y z := by
  intro hyz
  obtain ⟨hx, hy, hlt⟩ := hd.siblings hxy
  rw [Within.eq_of_siblings hd.toRooted hx hy hxz hyz] at hlt
  exact Nat.lt_irrefl _ hlt

theorem Before.asymm (hd : d.Branched) (hab : d.Before a b) : ¬d.Before b a := by
  rintro (hba | @⟨q, x', y', _, _, hxy', hxb, hya⟩)
  · cases hab with
    | below h => exact Nat.lt_asymm (h.index_lt hd.toRooted) (hba.index_lt hd.toRooted)
    | beside hxy hxa hyb => exact hd.apart hxy hxa (hyb.trans hba.within)
  · cases hab with
    | below h => exact hd.apart hxy' hxb (hya.trans h.within)
    | @beside p x y _ _ hxy hxa hyb =>
      obtain ⟨hx, hy, hlt⟩ := hd.siblings hxy
      obtain ⟨hx', hy', hlt'⟩ := hd.siblings hxy'
      have hne : x ≠ y' := by
        rintro rfl
        obtain rfl := hx.unique hy'
        rw [Within.eq_of_siblings hd.toRooted hx' hy hxb hyb] at hlt'
        exact Nat.lt_asymm hlt hlt'
      -- of the two branchings one is within a child of the other, and so is what parts there
      rcases hxa.comparable hya with h | h
      · have hdown := (h.cases.resolve_left hne).within_parent hy'
        exact hd.apart hxy (hdown.trans (.head hx' hxb)) hyb
      · have hdown := (h.cases.resolve_left hne.symm).within_parent hx
        exact hd.apart hxy' hxb (hdown.trans (.head hy hyb))

theorem Before.ne (hd : d.Branched) (h : d.Before a b) : a ≠ b := by
  rintro rfl
  exact h.asymm hd h

end Order

section Descent

variable {d : Document}

theorem below_succ (d : Document) (fuel : Nat) (id : NodeId) :
    d.below (fuel + 1) id = (d.children id).flatMap fun c => c :: d.below fuel c := by
  rw [below, children]
  cases d.node? id <;> rfl

/-- Handles grow on the way down, so there is fuel left as long as there are nodes. -/
theorem mem_below (hd : d.Branched) (fuel : Nat) (id : NodeId)
    (hfuel : d.nodes.length ≤ fuel + id.index) (n : NodeId) :
    n ∈ d.below fuel id ↔ d.Below id n := by
  induction fuel generalizing id with
  | zero =>
    constructor
    · intro hn
      cases hn
    · intro hn
      obtain ⟨c, hc, -⟩ := TransGen.head'_iff.mp hn
      have hlt := index_lt_of_node? (node?_of_isParent hd.toRooted hc).1
      omega
  | succ fuel ih =>
    have hchild : ∀ c, d.IsParent id c → (n = c ∨ n ∈ d.below fuel c ↔ d.Within c n) := by
      intro c hc
      have hlt := (hd.parent c id hc).1
      rw [ih c (by omega)]
      exact reflTransGen_iff_eq_or_transGen.symm
    rw [below_succ, List.mem_flatMap, Below, TransGen.head'_iff]
    simp only [hd.mem_children, List.mem_cons]
    exact exists_congr fun c => and_congr_right (hchild c)

theorem below_pairwise (hd : d.Branched) (fuel : Nat) (id : NodeId)
    (hfuel : d.nodes.length ≤ fuel + id.index) : (d.below fuel id).Pairwise d.Before := by
  induction fuel generalizing id with
  | zero => exact .nil
  | succ fuel ih =>
    have henough : ∀ c ∈ d.children id, d.nodes.length ≤ fuel + c.index := by
      intro c hc
      have hlt := (hd.parent c id ((hd.mem_children id c).mp hc)).1
      omega
    have hwithin : ∀ c ∈ d.children id, ∀ n ∈ c :: d.below fuel c, d.Within c n := by
      intro c hc n hn
      rcases List.mem_cons.mp hn with rfl | hn
      · exact .refl
      · exact ((mem_below hd fuel c (henough c hc) n).mp hn).within
    rw [below_succ, List.pairwise_flatMap]
    constructor
    · intro c hc
      refine .cons ?_ (ih c (henough c hc))
      intro n hn
      exact .below ((mem_below hd fuel c (henough c hc) n).mp hn)
    · rw [List.pairwise_iff_forall_sublist]
      intro x y hxy a ha b hb
      have hxa := hwithin x (hxy.subset (by simp)) a ha
      have hyb := hwithin y (hxy.subset (by simp)) b hb
      exact .beside hxy hxa hyb

theorem descendants_spec (hd : d.Grown) (id : NodeId) :
    (∀ n, n ∈ d.descendants id ↔ d.Below id n) ∧ (d.descendants id).Pairwise d.Before ∧
      (d.descendants id).Nodup := by
  have hpairwise := below_pairwise hd.branched d.nodes.length id (Nat.le_add_right _ _)
  exact ⟨mem_below hd.branched d.nodes.length id (Nat.le_add_right _ _), hpairwise,
    hpairwise.imp fun h => h.ne hd.branched⟩

end Descent

end Document

end AttrChain
