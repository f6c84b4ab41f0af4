import AttrChain.Proofs.Descent
import Mathlib.Data.List.Sort

/-!
Walks over a document, one node after another: up from parent to parent, and down with a list of
the nodes that are still to visit. Both come to an end. The walk up lists the path of a node, the
walk down its descendants, which are the nodes that have it on their path, depth first.
-/

namespace AttrChain

open Relation

namespace Document

/-- A walk up from a node, or from nowhere, that ends and lists the given nodes: each node is
listed, and the walk goes on from its parent. -/
inductive Climbs (d : Document) : Option NodeId → List NodeId → Prop
  | done : Climbs d none []
  | next {id listed} : Climbs d ((d.node? id).bind Node.parent) listed →
      Climbs d (some id) (id :: listed)

/-- A walk down over the nodes still to visit that ends and lists the given nodes: the last one is
taken off and listed, and its children are put on in reverse, so that the first of them is next. -/
inductive Visits (d : Document) : List NodeId → List NodeId → Prop
  | done : Visits d [] []
  | next {ahead id listed} : Visits d (ahead ++ (d.children id).reverse) listed →
      Visits d (ahead ++ [id]) (id :: listed)

def handles (d : Document) : List NodeId := (List.range d.nodes.length).map NodeId.mk

section Up

variable {d : Document} {id n : NodeId} {path : List NodeId}

theorem Climbs.unique {at? : Option NodeId} {listed other : List NodeId} (h : d.Climbs at? listed)
    (h' : d.Climbs at? other) : listed = other := by
  induction h generalizing other with
  | done =>
    cases h'
    rfl
  | next _ ih =>
    cases h' with
    | next h' => rw [ih h']

theorem bind_parent (d : Document) (id : NodeId) :
    (d.node? id).bind Node.parent = (d.above? id).join := by
  rw [above?]
  cases d.node? id <;> rfl

theorem Ascends.climbs (h : d.Ascends id path) : d.Climbs (some id) path := by
  induction h with
  | root habove =>
    apply Climbs.next
    rw [bind_parent, habove]
    exact .done
  | step habove _ ih =>
    apply Climbs.next
    rw [bind_parent, habove]
    exact ih

theorem Ascends.head_eq (h : d.Ascends id path) : path.head? = some id := by
  cases h <;> rfl

theorem Ascends.last_eq (h : d.Ascends id path) : path.getLast? = some Document.root := by
  induction h with
  | root _ => rfl
  | step _ htail ih =>
    cases htail with
    | root _ => rfl
    | step _ _ => exact ih

theorem Ascends.parents (h : d.Ascends id path) : path.IsChain fun c p => d.IsParent p c := by
  induction h with
  | root _ => exact .singleton _
  | step habove htail ih =>
    cases htail with
    | root _ => exact .cons_cons habove (.singleton _)
    | step _ _ => exact .cons_cons habove ih

theorem Ascends.mem_iff (hd : d.Rooted) (h : d.Ascends id path) : n ∈ path ↔ d.Within n id := by
  induction h with
  | root _ =>
    rw [List.mem_singleton]
    constructor
    · rintro rfl
      exact .refl
    · intro h
      rcases Within.cases h with rfl | hbelow
      · rfl
      · exact absurd (hbelow.index_lt hd) (Nat.not_lt_zero _)
  | @step id parent path habove _ ih =>
    have hstep : d.Within n id ↔ id = n ∨ ∃ p, d.Within n p ∧ d.IsParent p id :=
      ReflTransGen.cases_tail_iff _ _ _
    rw [List.mem_cons, ih, hstep]
    refine or_congr eq_comm ⟨fun h => ⟨parent, h, habove⟩, ?_⟩
    rintro ⟨p, hp, hparent⟩
    rwa [hparent.unique habove] at hp

theorem mem_path_iff (hd : d.Rooted) :
    id ∈ d.path n ↔ (d.node? n).isSome ∧ d.Within id n := by
  cases hn : d.node? n with
  | none => simp [path_of_none hn]
  | some node =>
    rw [(hd.path_ascends (Option.isSome_of_eq_some hn)).mem_iff hd]
    simp

end Up

section Down

variable {d : Document}

theorem Visits.unique {ahead listed other : List NodeId} (h : d.Visits ahead listed)
    (h' : d.Visits ahead other) : listed = other := by
  induction h generalizing other with
  | done =>
    generalize hnone : ([] : List NodeId) = none at h'
    cases h' with
    | done => rfl
    | next _ => simp at hnone
  | @next ahead id listed _ ih =>
    generalize hsome : ahead ++ [id] = some at h'
    cases h' with
    | done => simp at hsome
    | next h' =>
      obtain ⟨rfl, hid⟩ := List.append_inj' hsome rfl
      cases hid
      rw [ih h']

/-- A walk that has the children of a node on top of its list makes its way through all nodes below
that node before it comes to the others. -/
theorem visits_below (hd : d.Branched) (fuel : Nat) (id : NodeId)
    (hfuel : d.nodes.length ≤ fuel + id.index) {ahead listed : List NodeId}
    (h : d.Visits ahead listed) :
    d.Visits (ahead ++ (d.children id).reverse) (d.below fuel id ++ listed) := by
  induction fuel generalizing id ahead listed with
  | zero =>
    have hnone : d.children id = [] := by
      rw [children, node?, List.getElem?_eq_none (by omega)]
      rfl
    rw [hnone, List.reverse_nil, List.append_nil]
    exact h
  | succ fuel ih =>
    have henough : ∀ c ∈ d.children id, d.nodes.length ≤ fuel + c.index := by
      intro c hc
      have hlt := (hd.parent c id ((hd.mem_children id c).mp hc)).1
      omega
    rw [below_succ]
    generalize d.children id = cs at henough
    -- The children are on the list in reverse, so that the walk comes to the first of them first.
    induction cs with
    | nil => simpa using h
    | cons c cs ihcs =>
      obtain ⟨hc, hcs⟩ := List.forall_mem_cons.mp henough
      have hlisted := ih c hc (ihcs hcs)
      rw [← List.append_assoc] at hlisted
      rw [List.reverse_cons, ← List.append_assoc, List.flatMap_cons]
      exact .next hlisted

theorem visits_descendants (hd : d.Branched) (id : NodeId) :
    d.Visits (d.children id).reverse (d.descendants id) := by
  have h := visits_below hd d.nodes.length id (Nat.le_add_right _ _) .done
  rwa [List.nil_append, List.append_nil] at h

/-- With enough fuel the nodes below a node are all that the walk down lists. -/
theorem below_eq_descendants (hd : d.Branched) (fuel : Nat) (id : NodeId)
    (hfuel : d.nodes.length ≤ fuel + id.index) : d.below fuel id = d.descendants id := by
  have h := visits_below hd fuel id hfuel .done
  rw [List.nil_append, List.append_nil] at h
  exact h.unique (visits_descendants hd id)

theorem descendants_eq_flatMap (hd : d.Branched) (id : NodeId) :
    d.descendants id = (d.children id).flatMap fun c => c :: d.descendants c := by
  rw [← below_eq_descendants hd (d.nodes.length + 1) id (by omega), below_succ]
  rfl

theorem children_eq_filter (hd : d.Branched) (id : NodeId) :
    d.children id = d.handles.filter fun c => d.above? c = some (some id) := by
  have hmaking : d.handles.Pairwise fun a b => a.index < b.index := by
    rw [handles, List.pairwise_map]
    exact List.pairwise_lt_range
  have : Std.Irrefl fun a b : NodeId => a.index < b.index := ⟨fun a => Nat.lt_irrefl a.index⟩
  apply (hd.ascending id).eq_of_mem_iff (hmaking.filter _)
  intro c
  rw [hd.mem_children, List.mem_filter, decide_eq_true_eq, IsParent]
  refine ⟨fun hc => ⟨?_, hc⟩, And.right⟩
  have hlt := index_lt_of_node? (node?_of_isParent hd.toRooted hc).2
  exact List.mem_map.mpr ⟨c.index, List.mem_range.mpr hlt, rfl⟩

theorem pair_sublist_children (hd : d.Branched) {p a b : NodeId} (ha : d.IsParent p a)
    (hb : d.IsParent p b) (hlt : a.index < b.index) : [a, b].Sublist (d.children p) := by
  have hascending := hd.ascending p
  obtain ⟨front, back, hsplit⟩ := List.mem_iff_append.mp ((hd.mem_children p a).mpr ha)
  have hmem := (hd.mem_children p b).mpr hb
  rw [hsplit] at hascending hmem ⊢
  obtain ⟨-, -, hbefore⟩ := List.pairwise_append.mp hascending
  have hback : b ∈ back := by
    rcases List.mem_append.mp hmem with hfront | htail
    · exact absurd (hbefore b hfront a List.mem_cons_self) (Nat.lt_asymm hlt)
    · rcases List.mem_cons.mp htail with rfl | hback
      · exact absurd hlt (Nat.lt_irrefl _)
      · exact hback
  exact ((List.singleton_sublist.mpr hback).cons_cons a).trans (List.sublist_append_right _ _)

theorem Before.index_lt_of_siblings (hd : d.Branched) {p a b : NodeId} (h : d.Before a b)
    (ha : d.IsParent p a) (hb : d.IsParent p b) : a.index < b.index := by
  by_contra hnot
  have hne : a.index ≠ b.index := fun heq => h.ne hd (congrArg NodeId.mk heq)
  have hback : [b, a].Sublist (d.children p) := pair_sublist_children hd hb ha (by omega)
  exact h.asymm hd (.beside hback .refl .refl)

theorem mem_descendants_iff_path (hd : d.Grown) (id n : NodeId) :
    n ∈ d.descendants id ↔ n ≠ id ∧ id ∈ d.path n := by
  have hbranched := hd.branched
  rw [(descendants_spec hd id).1, mem_path_iff hbranched.toRooted]
  constructor
  · intro hbelow
    obtain ⟨p, -, hparent⟩ := TransGen.tail'_iff.mp hbelow
    refine ⟨?_, (node?_of_isParent hbranched.toRooted hparent).2, hbelow.within⟩
    rintro rfl
    exact Nat.lt_irrefl _ (hbelow.index_lt hbranched.toRooted)
  · rintro ⟨hne, -, hwithin⟩
    exact hwithin.cases.resolve_left hne.symm

end Down

/-- Both walks over a document end, and what they list is exact. The path of a node starts with the
node, goes from parent to parent, with handles that grow smaller, and ends with the root. The
descendants of a node are the other nodes that have it on their path, each once and depth first:
every child in the order of making, with its own descendants right behind it. -/
theorem walks_exact {d : Document} (hd : d.Grown) :
    (∀ id, (d.node? id).isSome →
      (∀ listed, d.Climbs (some id) listed ↔ listed = d.path id) ∧
      (d.path id).head? = some id ∧
      (d.path id).IsChain (fun c p => d.IsParent p c) ∧
      (d.path id).Pairwise (fun a b => b.index < a.index) ∧
      (d.path id).getLast? = some root ∧
      (d.path id).Nodup) ∧
    ∀ id,
      (∀ listed, d.Visits (d.children id).reverse listed ↔ listed = d.descendants id) ∧
      (∀ n, n ∈ d.descendants id ↔ n ≠ id ∧ id ∈ d.path n) ∧
      (d.descendants id).Nodup ∧
      -- depth first
      d.descendants id = (d.handles.filter fun c => d.above? c = some (some id)).flatMap
        (fun c => c :: d.descendants c) ∧
      -- no node comes behind one of its descendants, or behind a sibling that was made later
      (d.descendants id).Pairwise fun a b =>
        a ∉ d.descendants b ∧ ∀ p, d.IsParent p a → d.IsParent p b → a.index < b.index := by
  have hbranched := hd.branched
  have hrooted := hbranched.toRooted
  constructor
  · intro id hid
    have hascends := hrooted.path_ascends hid
    refine ⟨fun listed => ⟨fun h => h.unique hascends.climbs, ?_⟩, hascends.head_eq,
      hascends.parents, (hascends.descending hrooted).1, hascends.last_eq, hascends.nodup hrooted⟩
    rintro rfl
    exact hascends.climbs
  · intro id
    obtain ⟨-, hordered, hnodup⟩ := descendants_spec hd id
    refine ⟨fun listed => ⟨fun h => h.unique (visits_descendants hbranched id), ?_⟩,
      mem_descendants_iff_path hd id, hnodup, ?_, hordered.imp fun {a b} hab => ⟨?_, ?_⟩⟩
    · rintro rfl
      exact visits_descendants hbranched id
    · rw [descendants_eq_flatMap hbranched, children_eq_filter hbranched]
    · intro hmem
      exact hab.asymm hbranched (.below (((descendants_spec hd b).1 a).mp hmem))
    · exact fun p ha hb => hab.index_lt_of_siblings hbranched ha hb

/-- Two lists below the root, of which the first one gets its second item when the other one has an
item already. -/
def twoLists : Document :=
  let item (list : Nat) (d : Document) := (d.create "li" (some ⟨list⟩)).2
  item 1 (item 2 (item 1 ((Document.empty.create "ul" none).2.create "ol" none).2))

theorem twoLists_walked :
    twoLists.descendants root = [⟨1⟩, ⟨3⟩, ⟨5⟩, ⟨2⟩, ⟨4⟩] ∧
      twoLists.Visits [⟨2⟩, ⟨1⟩] [⟨1⟩, ⟨3⟩, ⟨5⟩, ⟨2⟩, ⟨4⟩] ∧
      twoLists.Climbs (some ⟨5⟩) [⟨5⟩, ⟨1⟩, root] := by
  have hgrown : twoLists.Grown := by
    refine .create "li" _ (.create "li" _ (.create "li" _
      (.create "ol" none (.create "ul" none .empty ?_) ?_) ?_) ?_) ?_
    · simp
    · simp
    all_goals
      rintro _ ⟨⟩
      rfl
  obtain ⟨hup, hdown⟩ := walks_exact hgrown
  refine ⟨by decide +kernel, ((hdown root).1 _).mpr (by decide +kernel), ?_⟩
  exact ((hup ⟨5⟩ rfl).1 _).mpr (by decide +kernel)

end Document

end AttrChain
