import AttrChain.Proofs.Skeleton
import AttrChain.Scene.Validity

/-!
What the check of a scene makes sure of: every id is given once and before it is used. So the nodes,
which have the handles 1, 2, 3 and so on in the order of the scene, are found by their ids.
-/

namespace AttrChain

namespace Scene

/-- The entries with the handles of their nodes. The root has the handle 0. -/
def numbered (nodes : List NodeEntry) : List (NodeEntry × NodeId) :=
  nodes.mapIdx fun i e => (e, ⟨i + 1⟩)

def handle? (nodes : List NodeEntry) (id : String) : Option NodeId :=
  ((numbered nodes).find? fun c => c.1.id = id).map Prod.snd

/-- What the nodes are made as: under the nodes that they name, else under the root. -/
def places (nodes made : List NodeEntry) : List (NodeId × String × Option NodeId) :=
  (Document.root, "html", none) ::
    (numbered made).map fun c =>
      (c.2, c.1.tag, some ((c.1.parent.bind (handle? nodes)).getD Document.root))

/-- Each id is given once, before a node, an event or a rebinding names it. -/
structure Valid (scene : Scene) : Prop where
  fresh : ∀ done entry rest, scene.nodes = done ++ entry :: rest →
    ∀ e ∈ done, e.id ≠ entry.id
  parent : ∀ done entry rest, scene.nodes = done ++ entry :: rest →
    ∀ id ∈ entry.parent, ∃ e ∈ done, e.id = id
  fires : ∀ f ∈ scene.fires, ∃ e ∈ scene.nodes, e.id = f.node
  rebinds : ∀ r ∈ scene.rebinds,
    (∃ e ∈ scene.nodes, e.id = r.source) ∧ ∃ e ∈ scene.nodes, e.id = r.target

theorem NodeEntry.check_ok {known : List String} {n : NodeEntry} (hn : n.check known = .ok ()) :
    n.id ∉ known ∧ ∀ id ∈ n.parent, id ∈ known := by
  unfold check at hn
  split at hn
  · cases hn
  split at hn
  next id hparent =>
    split at hn
    · cases hn
    next hknown =>
      split at hn
      · cases hn
      next hfresh => simpa [hparent, hfresh] using hknown
  next hparent =>
    split at hn
    · cases hn
    next hfresh => simpa [hparent] using hfresh

theorem checkNodes_at {known : List String} {done rest : List NodeEntry} {entry : NodeEntry}
    (hn : checkNodes known (done ++ entry :: rest) = .ok ()) :
    entry.check ((done.map NodeEntry.id).reverse ++ known) = .ok () := by
  induction done generalizing known with
  | nil =>
    obtain ⟨_, hentry, -⟩ := ok_of_bind hn
    exact hentry
  | cons first done ih =>
    obtain ⟨_, -, hrest⟩ := ok_of_bind hn
    simpa using ih hrest

theorem forM_ok {α ε : Type} {f : α → Except ε Unit} {entries : List α}
    (hf : entries.forM f = .ok ()) : ∀ e ∈ entries, f e = .ok () := by
  induction entries with
  | nil => exact fun _ he => by cases he
  | cons first rest ih =>
    obtain ⟨_, hfirst, hrest⟩ := ok_of_bind hf
    exact List.forall_mem_cons.mpr ⟨hfirst, ih hrest⟩

theorem valid_of_check {scene : Scene} (hscene : scene.check = .ok ()) : scene.Valid := by
  obtain ⟨_, hnodes, hscene⟩ := ok_of_bind hscene
  obtain ⟨_, hfires, hrebinds⟩ := ok_of_bind hscene
  constructor
  · intro done entry rest hsplit e he heq
    rw [hsplit] at hnodes
    apply (NodeEntry.check_ok (checkNodes_at hnodes)).1
    simpa [← heq] using ⟨e, he, rfl⟩
  · intro done entry rest hsplit id hid
    rw [hsplit] at hnodes
    simpa using (NodeEntry.check_ok (checkNodes_at hnodes)).2 id hid
  · intro f hf
    have hcheck := forM_ok hfires f hf
    unfold FireEntry.check at hcheck
    split at hcheck
    · cases hcheck
    next hknown => simpa using hknown
  · intro r hr
    have hcheck := forM_ok hrebinds r hr
    unfold RebindEntry.check at hcheck
    split at hcheck
    · cases hcheck
    next hsource =>
      split at hcheck
      · cases hcheck
      next htarget => exact ⟨by simpa using hsource, by simpa using htarget⟩

theorem take_getElem_drop {nodes : List NodeEntry} {i : Nat} (hi : i < nodes.length) :
    nodes = nodes.take i ++ nodes[i] :: nodes.drop (i + 1) := by
  rw [List.getElem_cons_drop, List.take_append_drop]

theorem mem_numbered {nodes : List NodeEntry} {c : NodeEntry × NodeId} :
    c ∈ numbered nodes ↔ ∃ i, nodes[i]? = some c.1 ∧ c.2 = ⟨i + 1⟩ := by
  obtain ⟨e, id⟩ := c
  rw [numbered, List.mem_mapIdx]
  constructor
  · rintro ⟨i, hi, h⟩
    cases h
    exact ⟨i, List.getElem?_eq_getElem hi, rfl⟩
  · rintro ⟨i, he, rfl⟩
    obtain ⟨hi, rfl⟩ := List.getElem?_eq_some_iff.mp he
    exact ⟨i, hi, rfl⟩

theorem map_fst_numbered (nodes : List NodeEntry) : (numbered nodes).map Prod.fst = nodes := by
  apply List.ext_getElem
  · simp [numbered]
  · intro i hi hi'
    simp [numbered]

theorem numbered_concat (nodes : List NodeEntry) (e : NodeEntry) :
    numbered (nodes ++ [e]) = numbered nodes ++ [(e, ⟨nodes.length + 1⟩)] := by
  simp [numbered]

theorem handle?_concat (nodes : List NodeEntry) (e : NodeEntry) (id : String) :
    handle? (nodes ++ [e]) id =
      (handle? nodes id).or (if e.id = id then some ⟨nodes.length + 1⟩ else none) := by
  unfold handle?
  rw [numbered_concat, List.find?_append, Option.map_or]
  by_cases he : e.id = id
  · simp [he]
  · simp [he]

theorem handle?_append {done : List NodeEntry} {id : String} {node : NodeId}
    (hid : handle? done id = some node) (rest : List NodeEntry) :
    handle? (done ++ rest) id = some node := by
  unfold handle? numbered at hid ⊢
  rw [List.mapIdx_append, List.find?_append, Option.map_or, hid]
  rfl

theorem mem_of_handle? {nodes : List NodeEntry} {id : String} {node : NodeId}
    (h : handle? nodes id = some node) : ∃ e, (e, node) ∈ numbered nodes ∧ e.id = id := by
  obtain ⟨⟨e, _⟩, hc, rfl⟩ := Option.map_eq_some_iff.mp h
  exact ⟨e, List.mem_of_find?_eq_some hc, by simpa using List.find?_some hc⟩

theorem handle?_isSome {nodes : List NodeEntry} {id : String} (hid : ∃ e ∈ nodes, e.id = id) :
    ∃ node, handle? nodes id = some node ∧ node.index ≤ nodes.length := by
  obtain ⟨e, he, rfl⟩ := hid
  obtain ⟨i, hi, rfl⟩ := List.getElem_of_mem he
  have hfound : ((numbered nodes).find? fun c => c.1.id = nodes[i].id).isSome := by
    rw [List.find?_isSome]
    exact ⟨(nodes[i], ⟨i + 1⟩), mem_numbered.mpr ⟨i, List.getElem?_eq_getElem hi, rfl⟩, by simp⟩
  obtain ⟨c, hc⟩ := Option.isSome_iff_exists.mp hfound
  have hnode : handle? nodes nodes[i].id = some c.2 := by rw [handle?, hc, Option.map_some]
  obtain ⟨e, he, -⟩ := mem_of_handle? hnode
  obtain ⟨j, hj, hplace⟩ := mem_numbered.mp he
  refine ⟨c.2, hnode, ?_⟩
  rw [hplace]
  exact (List.getElem?_eq_some_iff.mp hj).1

theorem handle?_eq_none {nodes : List NodeEntry} {id : String} (hid : ∀ e ∈ nodes, e.id ≠ id) :
    handle? nodes id = none := by
  rw [handle?, Option.map_eq_none_iff, List.find?_eq_none]
  intro c hc
  obtain ⟨i, hi, -⟩ := mem_numbered.mp hc
  simpa using hid _ (List.mem_of_getElem? hi)

theorem Valid.handle?_entry {scene : Scene} (hv : scene.Valid) {done rest : List NodeEntry}
    {entry : NodeEntry} (hsplit : scene.nodes = done ++ entry :: rest) :
    handle? scene.nodes entry.id = some ⟨done.length + 1⟩ := by
  have hnone := handle?_eq_none (hv.fresh done entry rest hsplit)
  rw [hsplit, List.append_cons]
  apply handle?_append
  rw [handle?_concat, hnone, if_pos rfl, Option.none_or]

theorem Valid.handle?_numbered {scene : Scene} (hv : scene.Valid) {entry : NodeEntry} {id : NodeId}
    (h : (entry, id) ∈ numbered scene.nodes) : handle? scene.nodes entry.id = some id := by
  obtain ⟨i, hi, rfl⟩ := mem_numbered.mp h
  obtain ⟨hlt, rfl⟩ := List.getElem?_eq_some_iff.mp hi
  have hfound := hv.handle?_entry (take_getElem_drop hlt)
  rwa [List.length_take_of_le (Nat.le_of_lt hlt)] at hfound

theorem Valid.ids_nodup {scene : Scene} (hv : scene.Valid) :
    (scene.nodes.map NodeEntry.id).Nodup := by
  rw [List.Nodup, List.pairwise_map, List.pairwise_iff_getElem]
  intro i j hi hj hij
  refine hv.fresh _ _ _ (take_getElem_drop hj) scene.nodes[i] ?_
  exact List.mem_take_iff_getElem.mpr ⟨i, by omega, rfl⟩

theorem Valid.places_descend {scene : Scene} (hv : scene.Valid) :
    ∀ place ∈ places scene.nodes scene.nodes, ∀ p ∈ place.2.2, p.index < place.1.index := by
  intro place hplace p hp
  obtain rfl | hplace := List.mem_cons.mp hplace
  · cases hp
  obtain ⟨c, hc, rfl⟩ := List.mem_map.mp hplace
  rw [numbered, List.mem_mapIdx] at hc
  obtain ⟨i, hi, rfl⟩ := hc
  have hsplit := take_getElem_drop hi
  cases Option.mem_some_iff.mp hp
  cases hparent : scene.nodes[i].parent with
  | none => exact Nat.succ_pos i
  | some id =>
    obtain ⟨node, hnode, hle⟩ := handle?_isSome (hv.parent _ _ _ hsplit id hparent)
    have hall := handle?_append hnode (scene.nodes[i] :: scene.nodes.drop (i + 1))
    rw [← hsplit] at hall
    simp only [List.length_take, Option.bind_some, hall, Option.getD_some] at hle ⊢
    omega

end Scene

end AttrChain
