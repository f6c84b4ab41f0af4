import AttrChain.Proofs.Attributes
import AttrChain.Proofs.Conjunction
import AttrChain.Proofs.Descent
import AttrChain.Proofs.SceneRuns

/-!
By what the nodes of a scene are known once they are made: their ids, the labels in reports and
their classes. The attributes of an entry are set behind its id and its classes, so an attribute
`id` or `class` stands in place of these.
-/

namespace AttrChain

namespace Scene.NodeEntry

/-- What the attributes of the entry say of a name; of several values the last one counts. -/
def lastAttr? (name : String) (entry : NodeEntry) : Option String :=
  Dict.get? name entry.attrs.reverse

def lastId (entry : NodeEntry) : String := (entry.lastAttr? "id").getD entry.id

/-- The text whose words are the classes of the node. -/
def lastClassText (entry : NodeEntry) : String := (entry.lastAttr? "class").getD entry.classText

/-- No attribute stands in place of the id. -/
def KeepsId (entry : NodeEntry) : Prop := ∀ v ∈ entry.lastAttr? "id", v = entry.id

/-- No attribute takes classes away. -/
def KeepsClasses (entry : NodeEntry) : Prop :=
  ∀ v ∈ entry.lastAttr? "class", Text.wordsOf entry.classText ⊆ Text.wordsOf v

theorem lastId_eq_iff {entry : NodeEntry} : entry.lastId = entry.id ↔ entry.KeepsId := by
  unfold lastId KeepsId
  cases entry.lastAttr? "id" <;> simp

theorem subset_lastClassText_iff {entry : NodeEntry} :
    Text.wordsOf entry.classText ⊆ Text.wordsOf entry.lastClassText ↔ entry.KeepsClasses := by
  unfold lastClassText KeepsClasses
  cases entry.lastAttr? "class" <;> simp

end Scene.NodeEntry

namespace Node

variable {n : Node} {c : String}

theorem name_setAttr (name value : String) (n : Node) :
    (n.setAttr name value).name = if name = "id" then some value else n.name := by
  unfold setAttr
  split
  · rfl
  split
  · obtain ⟨classes, h⟩ := addClasses_eq (Text.wordsOf value) { n with classes := [] }
    rw [h]
  · rfl

theorem hasClass_setAttr (name value : String) : (n.setAttr name value).hasClass c = true ↔
    if name = "class" then c ∈ Text.wordsOf value else n.hasClass c = true := by
  split
  next hname =>
    rw [hname]
    exact hasClass_setAttr_class
  next hname =>
    rw [setAttr, if_neg hname]
    split <;> rfl

theorem name_addClasses (cs : List String) (n : Node) : (n.addClasses cs).name = n.name := by
  obtain ⟨classes, h⟩ := addClasses_eq cs n
  rw [h]

theorem name_setAttrs (attrs : List (String × String)) (n : Node) :
    (attrs.foldl (fun n attr => n.setAttr attr.1 attr.2) n).name =
      (Dict.get? "id" attrs.reverse).or n.name := by
  induction attrs generalizing n with
  | nil => rfl
  | cons attr rest ih =>
    obtain ⟨name, value⟩ := attr
    rw [List.foldl_cons, ih, name_setAttr, List.reverse_cons, Dict.get?_append, Option.or_assoc,
      Dict.get?, Dict.get?_nil]
    by_cases hname : name = "id"
    · rw [if_pos hname, if_pos hname.symm]
      rfl
    · rw [if_neg hname, if_neg (Ne.symm hname)]
      rfl

theorem hasClass_setAttrs (attrs : List (String × String)) :
    (attrs.foldl (fun n attr => n.setAttr attr.1 attr.2) n).hasClass c = true ↔
      (Dict.get? "class" attrs.reverse).elim (n.hasClass c = true) fun v =>
        c ∈ Text.wordsOf v := by
  induction attrs generalizing n with
  | nil => exact Iff.rfl
  | cons attr rest ih =>
    obtain ⟨name, value⟩ := attr
    rw [List.foldl_cons, ih, List.reverse_cons, Dict.get?_append, Dict.get?, Dict.get?_nil,
      hasClass_setAttr]
    cases Dict.get? "class" rest.reverse with
    | some v => exact Iff.rfl
    | none =>
      by_cases hname : name = "class"
      · rw [if_pos hname.symm, Option.elim_none, if_pos hname]
        exact Iff.rfl
      · rw [if_neg (Ne.symm hname), Option.elim_none, if_neg hname]
        exact Iff.rfl

end Node

namespace Session

variable {entry : Scene.NodeEntry} {n : Node}

theorem name_furnish (entry : Scene.NodeEntry) (n : Node) :
    (furnish entry n).name = some entry.lastId := by
  have hattrs := Node.name_setAttrs entry.attrs
    ((n.setAttr "id" entry.id).addClasses (Text.wordsOf entry.classText))
  rw [Node.name_addClasses, Node.name_setAttr, if_pos rfl] at hattrs
  refine hattrs.trans ?_
  unfold Scene.NodeEntry.lastId Scene.NodeEntry.lastAttr?
  cases Dict.get? "id" entry.attrs.reverse <;> rfl

theorem hasClass_furnish (hn : n.classes = []) (entry : Scene.NodeEntry) (c : String) :
    (furnish entry n).hasClass c = true ↔ c ∈ Text.wordsOf entry.lastClassText := by
  have hattrs := Node.hasClass_setAttrs (c := c)
    (n := (n.setAttr "id" entry.id).addClasses (Text.wordsOf entry.classText)) entry.attrs
  have hnone : ¬n.hasClass c = true := by simp [Node.hasClass, hn]
  rw [Node.hasClass_addClasses, Node.hasClass_setAttr, if_neg (by decide), or_iff_left hnone]
    at hattrs
  refine hattrs.trans ?_
  unfold Scene.NodeEntry.lastClassText Scene.NodeEntry.lastAttr?
  cases Dict.get? "class" entry.attrs.reverse <;> exact Iff.rfl

end Session

theorem Selector.exists_read_id {name : String} (h : IsSelectorName name) :
    ∃ s, Selector.read ("#" ++ name) = .ok s ∧
      ∀ e ancestors, s.matchesPath (e :: ancestors) = (e.id == some name) := by
  have hwritten : String.ofList (Simple.id name h).written = "#" ++ name := by
    rw [← String.toList_inj, String.toList_ofList]
    simp [Simple.written]
  rw [← hwritten]
  exact (Simple.id name h).exists_read

namespace Document

variable {d : Document} {id : NodeId} {n : Node} {name : String}

theorem Rooted.within_root (hd : d.Rooted) (hid : (d.above? id).isSome) :
    d.Within Document.root id := by
  obtain ⟨k, hk⟩ : ∃ k, k = id.index := ⟨_, rfl⟩
  induction k using Nat.strongRecOn generalizing id with
  | ind k ih =>
    obtain ⟨parent?, habove⟩ := Option.isSome_iff_exists.mp hid
    cases parent? with
    | none =>
      rw [hd.orphan id habove]
      exact .refl
    | some p =>
      obtain ⟨hless, hp⟩ := hd.parent id p habove
      exact (ih p.index (hk ▸ hless) hp rfl).tail habove

theorem Rooted.below_root_iff (hd : d.Rooted) :
    d.Below Document.root id ↔ id ≠ Document.root ∧ (d.node? id).isSome := by
  constructor
  · intro h
    refine ⟨?_, ?_⟩
    · rintro rfl
      exact Nat.lt_irrefl _ (h.index_lt hd)
    · obtain ⟨p, -, hp⟩ := Relation.TransGen.tail'_iff.mp h
      exact (node?_of_isParent hd hp).2
  · rintro ⟨hne, hid⟩
    have hwithin : d.Within Document.root id := hd.within_root (by simpa [above?] using hid)
    exact hwithin.cases.resolve_left (Ne.symm hne)

theorem matchesSelector_of_element {s : Selector} {b : Bool} (hn : d.node? id = some n)
    (hs : ∀ ancestors, s.matchesPath (n.element :: ancestors) = b) : d.matchesSelector id s = b := by
  have hpath : ∃ rest, d.path id = id :: rest := by
    rw [path, if_pos (by rw [hn]; rfl)]
    exact ⟨_, rfl⟩
  obtain ⟨rest, hrest⟩ := hpath
  rw [matchesSelector, hrest, List.filterMap_cons, hn]
  exact hs _

theorem Grown.select_id (hd : d.Grown) (hname : IsSelectorName name) :
    ∃ found, d.select ("#" ++ name) none = .ok found ∧ found.Nodup ∧
      ∀ id, id ∈ found ↔ id ≠ root ∧ ∃ n, d.node? id = some n ∧ n.name = some name := by
  obtain ⟨s, hread, hmatches⟩ := Selector.exists_read_id hname
  obtain ⟨hmem, -, hnodup⟩ := descendants_spec hd root
  refine ⟨(d.descendants root).filter fun id => d.matchesSelector id s, ?_, hnodup.filter _, ?_⟩
  · rw [select, hread]
    rfl
  intro id
  rw [List.mem_filter, hmem, hd.branched.toRooted.below_root_iff, and_assoc]
  refine and_congr_right fun _ => ?_
  cases hn : d.node? id with
  | none => simp
  | some n =>
    rw [matchesSelector_of_element hn fun ancestors => hmatches _ ancestors]
    simp [Node.element]

theorem label_of_name (hn : d.node? id = some n) (hname : n.name = some name) :
    d.label id = "#" ++ name := by
  rw [label, hn]
  dsimp only
  rw [hname]

end Document

namespace Session

/-- Nodes are known by what was said of them last. -/
structure Marked (made : List Scene.NodeEntry) (d : Document) : Prop where
  grown : d.Grown
  node : ∀ entry id, (entry, id) ∈ Scene.numbered made → ∃ n, d.node? id = some n ∧
    n.name = some entry.lastId ∧
    ∀ c, n.hasClass c = true ↔ c ∈ Text.wordsOf entry.lastClassText

section Marks

variable {scene : Scene} {made done rest : List Scene.NodeEntry} {entry : Scene.NodeEntry}
  {s t : Session} {d : Document}

theorem create_document (h : create entry s = (.ok (), t)) : ∃ parent,
    s.lookupParent entry.parent = .ok parent ∧ t.stage.document =
      (s.stage.document.create entry.tag parent).2.modify ⟨s.stage.document.nodes.length⟩
        (furnish entry) := by
  unfold create at h
  split at h
  · cases h
  next parent hparent =>
    cases h
    exact ⟨parent, hparent, rfl⟩

theorem Holds.isSome_parent (hs : s.Holds scene made) {id? : Option String} {parent : Option NodeId}
    (h : s.lookupParent id? = .ok parent) : ∀ p ∈ parent, (s.stage.document.node? p).isSome := by
  cases id? with
  | none =>
    cases h
    exact fun p hp => nomatch hp
  | some id =>
    cases hid : Scene.handle? made id with
    | none =>
      have hunknown : s.lookup id = .error (.unknownNode id) := by
        rw [Session.lookup, hs.ids, hid]
      rw [lookupParent, hunknown] at h
      cases h
    | some node =>
      rw [lookupParent, hs.lookup hid] at h
      cases h
      rintro _ ⟨⟩
      obtain ⟨e, he, -⟩ := Scene.mem_of_handle? hid
      obtain ⟨i, hi, rfl⟩ := Scene.mem_numbered.mp he
      simpa [Document.node?, hs.length] using (List.getElem?_eq_some_iff.mp hi).1

theorem Marked.create {tag : String} {parent : Option NodeId} (hd : Marked made d)
    (hlength : d.nodes.length = made.length + 1)
    (hparent : ∀ p ∈ parent, (d.node? p).isSome) (entry : Scene.NodeEntry) :
    Marked (made ++ [entry])
      ((d.create tag parent).2.modify ⟨d.nodes.length⟩ (furnish entry)) where
  grown := by
    apply (hd.grown.create tag parent hparent).modify
    intro n _
    obtain ⟨_, _, _, _, _, _, h⟩ := furnish_rewritten entry n
    rw [h]
    exact ⟨rfl, rfl⟩
  node e id he := by
    -- making a node tells the ids and classes of the older ones as before
    have htold : ((d.create tag parent).2.node? id).map (fun n => (n.name, n.classes)) =
        if id.index = d.nodes.length then some (none, [])
        else (d.node? id).map fun n => (n.name, n.classes) :=
      Document.map_node?_create (fun _ _ => rfl) d tag parent id
    rw [Scene.numbered_concat, List.mem_append, List.mem_singleton] at he
    rcases he with he | he
    · obtain ⟨n, hn, hname, hclasses⟩ := hd.node e id he
      have hold : id.index ≠ d.nodes.length :=
        Nat.ne_of_lt (Document.index_lt_of_node? (Option.isSome_of_eq_some hn))
      rw [if_neg hold, hn] at htold
      obtain ⟨m, hm, hsame⟩ := Option.map_eq_some_iff.mp htold
      obtain ⟨hmname, hmclasses⟩ := Prod.mk.inj hsame
      refine ⟨m, ?_, hmname.trans hname, fun c => ?_⟩
      · rw [Document.node?_modify, if_neg fun h => hold (congrArg NodeId.index h), hm]
      · rw [← hclasses, Node.hasClass, hmclasses, Node.hasClass]
    · obtain ⟨rfl, rfl⟩ := Prod.mk.inj he
      rw [if_pos hlength.symm] at htold
      obtain ⟨m, hm, hsame⟩ := Option.map_eq_some_iff.mp htold
      refine ⟨furnish e m, ?_, name_furnish e m, hasClass_furnish (Prod.mk.inj hsame).2 e⟩
      rw [Document.node?_modify, if_pos (by rw [hlength]), hm]
      rfl

theorem creates_marked (hv : scene.Valid) : ∃ s made, start scene.settings = .ok s ∧
    forEach create scene.nodes s = (.ok (), made) ∧ made.Holds scene scene.nodes ∧
    Marked scene.nodes made.stage.document := by
  obtain ⟨s, hstart, hfirst, hempty, -⟩ := start_holds scene
  obtain ⟨made, hmade, hholds, hmarked⟩ := forEach_ok
    (P := fun done t => t.Holds scene done ∧ Marked done t.stage.document)
    (fun done entry rest t hsplit ⟨hholds, hmarked⟩ => by
      obtain ⟨u, hrun, hu, -⟩ := create_next hv hsplit hholds
      obtain ⟨parent, hparent, hdocument⟩ := create_document hrun
      refine ⟨u, hrun, hu, ?_⟩
      rw [hdocument]
      exact hmarked.create hholds.length (hholds.isSome_parent hparent) entry)
    ⟨hfirst, by
      rw [hempty]
      exact ⟨.empty, fun _ _ he => nomatch he⟩⟩
  exact ⟨s, made, hstart, hmade, hholds, hmarked⟩

theorem Marked.select_id (hd : Marked made d) (hlength : d.nodes.length = made.length + 1)
    {name : String} (hname : IsSelectorName name) :
    ∃ found, d.select ("#" ++ name) none = .ok found ∧ found.Nodup ∧ ∀ id,
      id ∈ found ↔ ∃ entry, (entry, id) ∈ Scene.numbered made ∧ entry.lastId = name := by
  obtain ⟨found, hfound, hnodup, hmem⟩ := hd.grown.select_id hname
  refine ⟨found, hfound, hnodup, fun id => (hmem id).trans ?_⟩
  constructor
  · rintro ⟨hne, n, hn, hnamed⟩
    have hlt := Document.index_lt_of_node? (Option.isSome_of_eq_some hn)
    obtain ⟨i, hi⟩ : ∃ i, id.index = i + 1 :=
      Nat.exists_eq_add_one_of_ne_zero fun h => hne (congrArg NodeId.mk h)
    have hi' : i < made.length := by omega
    have hentry : (made[i], id) ∈ Scene.numbered made :=
      Scene.mem_numbered.mpr ⟨i, List.getElem?_eq_getElem hi', congrArg NodeId.mk hi⟩
    obtain ⟨m, hm, hmname, -⟩ := hd.node _ id hentry
    cases hn.symm.trans hm
    exact ⟨made[i], hentry, Option.some.inj (hmname.symm.trans hnamed)⟩
  · rintro ⟨entry, hentry, rfl⟩
    obtain ⟨n, hn, hnamed, -⟩ := hd.node entry id hentry
    refine ⟨?_, n, hn, hnamed⟩
    obtain ⟨i, -, rfl⟩ := Scene.mem_numbered.mp hentry
    exact fun h => nomatch congrArg NodeId.index h

theorem Marked.labels (hd : Marked scene.nodes s.stage.document) (hs : s.Holds scene scene.nodes)
    (generated : Moment) : (Report.ofSession generated s).nodes.map Report.NodeLine.node =
      scene.nodes.map fun entry => "#" ++ entry.lastId := by
  have hlines := congrArg (List.map Prod.fst) (hs.nodeLines generated)
  rw [List.map_map, List.map_map] at hlines
  refine hlines.trans ?_
  have hlabel : ∀ c ∈ Scene.numbered scene.nodes,
      s.stage.document.label c.2 = "#" ++ c.1.lastId := by
    rintro ⟨entry, id⟩ hc
    obtain ⟨n, hn, hname, -⟩ := hd.node entry id hc
    exact Document.label_of_name hn hname
  refine (List.map_congr_left hlabel).trans ?_
  conv_rhs => rw [← Scene.map_fst_numbered scene.nodes, List.map_map]
  rfl

end Marks

/-- Once the nodes of a valid scene are made, each of them has the id and the classes that were set
last. The selector of a name finds the nodes of which it is the last id, each once, and the labels
are these ids too. So the node has the id of its entry if no attribute stands in place of it, and
only then, and all classes of its entry if no attribute takes one away, and only then. Where no
attribute stands in place of an id, the labels are distinct, and the selector of an id finds its node
and no other. -/
theorem known_by_last_attributes {scene : Scene} (hscene : scene.check = .ok ()) :
    ∃ s made, start scene.settings = .ok s ∧ forEach create scene.nodes s = (.ok (), made) ∧
      (∀ entry id, (entry, id) ∈ Scene.numbered scene.nodes →
        ∃ n, made.stage.document.node? id = some n ∧
          n.attr? "id" = some entry.lastId ∧ (n.attr? "id" = some entry.id ↔ entry.KeepsId) ∧
          (∀ c, n.hasClass c = true ↔ c ∈ Text.wordsOf entry.lastClassText) ∧
          ((∀ c ∈ Text.wordsOf entry.classText, n.hasClass c = true) ↔ entry.KeepsClasses)) ∧
      (∀ name, IsSelectorName name → ∃ found,
        made.stage.document.select ("#" ++ name) none = .ok found ∧ found.Nodup ∧
        ∀ id, id ∈ found ↔
          ∃ entry, (entry, id) ∈ Scene.numbered scene.nodes ∧ entry.lastId = name) ∧
      (∀ generated, (Report.ofSession generated made).nodes.map Report.NodeLine.node =
        scene.nodes.map fun entry => "#" ++ entry.lastId) ∧
      ((∀ entry ∈ scene.nodes, entry.KeepsId) →
        (∀ generated,
          ((Report.ofSession generated made).nodes.map Report.NodeLine.node).Nodup) ∧
        ∀ entry id, (entry, id) ∈ Scene.numbered scene.nodes → IsSelectorName entry.id →
          made.stage.document.select ("#" ++ entry.id) none = .ok [id]) := by
  have hv := Scene.valid_of_check hscene
  obtain ⟨s, made, hstart, hmade, hholds, hmarked⟩ := creates_marked hv
  refine ⟨s, made, hstart, hmade, ?_, fun name => hmarked.select_id hholds.length,
    hmarked.labels hholds, fun hkeeps => ⟨fun generated => ?_, ?_⟩⟩
  · intro entry id hentry
    obtain ⟨n, hn, hname, hclasses⟩ := hmarked.node entry id hentry
    have hid : n.attr? "id" = some entry.lastId := hname
    refine ⟨n, hn, hid, ?_, hclasses, ?_⟩
    · rw [hid, Option.some_inj, Scene.NodeEntry.lastId_eq_iff]
    · rw [← Scene.NodeEntry.subset_lastClassText_iff]
      exact forall₂_congr fun c _ => hclasses c
  · have hlast : scene.nodes.map (fun entry => "#" ++ entry.lastId) =
        (scene.nodes.map Scene.NodeEntry.id).map ("#" ++ ·) := by
      rw [List.map_map]
      apply List.map_congr_left
      intro entry hentry
      exact congrArg _ (Scene.NodeEntry.lastId_eq_iff.mpr (hkeeps entry hentry))
    have hinj : Function.Injective fun id : String => "#" ++ id := by
      intro id other h
      have hchars : "#".toList ++ id.toList = "#".toList ++ other.toList := by
        simpa using congrArg String.toList h
      exact String.toList_inj.mp (List.append_cancel_left hchars)
    rw [hmarked.labels hholds, hlast]
    exact hv.ids_nodup.map hinj
  · intro entry id hentry hname
    obtain ⟨found, hfound, hnodup, hmem⟩ := hmarked.select_id hholds.length hname
    have hlast : ∀ entry id, (entry, id) ∈ Scene.numbered scene.nodes →
        entry.lastId = entry.id := by
      intro entry id hentry
      have hentry := List.mem_map_of_mem (f := Prod.fst) hentry
      rw [Scene.map_fst_numbered] at hentry
      exact Scene.NodeEntry.lastId_eq_iff.mpr (hkeeps entry hentry)
    have hsole : ∀ other, other ∈ found ↔ other ∈ [id] := by
      intro other
      rw [hmem, List.mem_singleton]
      constructor
      · rintro ⟨e, he, hid⟩
        rw [hlast e other he] at hid
        have hother := hv.handle?_numbered he
        rw [hid, hv.handle?_numbered hentry] at hother
        exact (Option.some.inj hother).symm
      · rintro rfl
        exact ⟨entry, hentry, hlast entry other hentry⟩
    rw [hfound, List.perm_singleton.mp
      ((List.perm_ext_iff_of_nodup hnodup (List.nodup_singleton id)).mpr hsole)]

def family : Scene :=
  { Scene.empty with
    nodes := [{ Scene.NodeEntry.plain "top" with classText := "on", attrs := [("data-i", "1")] },
      { Scene.NodeEntry.plain "inner" with
        parent := some "top"
        classText := "on"
        attrs := [("class", "on last")] }] }

theorem family_known : ∃ s made, start family.settings = .ok s ∧
    forEach create family.nodes s = (.ok (), made) ∧
    made.stage.document.select "#inner" none = .ok [⟨2⟩] ∧
    (∃ n, made.stage.document.node? ⟨2⟩ = some n ∧ n.attr? "id" = some "inner" ∧
      n.hasClass "last" = true) := by
  have hvalid : family.check = .ok () := by decide +kernel
  obtain ⟨s, made, hstart, hmade, hnode, -, -, hkept⟩ := known_by_last_attributes hvalid
  have hkeeps : ∀ entry ∈ family.nodes, entry.KeepsId := by
    simp [family, Scene.NodeEntry.KeepsId, Scene.NodeEntry.lastAttr?, Dict.get?]
  have hinner : ({ Scene.NodeEntry.plain "inner" with
      parent := some "top"
      classText := "on"
      attrs := [("class", "on last")] }, ⟨2⟩) ∈ Scene.numbered family.nodes := by
    decide +kernel
  obtain ⟨n, hn, -, hid, hclasses, -⟩ := hnode _ _ hinner
  refine ⟨s, made, hstart, hmade, ?_, n, hn, ?_, ?_⟩
  · exact (hkept hkeeps).2 _ _ hinner (by decide +kernel)
  · exact hid.mpr (hkeeps _ (by decide +kernel))
  · exact (hclasses "last").mpr (by decide +kernel)

def renamed : Scene :=
  { Scene.empty with
    nodes := [{ Scene.NodeEntry.plain "a" with attrs := [("id", "b")] },
      { Scene.NodeEntry.plain "b" with classText := "x y", attrs := [("class", "z")] }] }

/-- The first node goes by the id of the second one, which has lost its classes. -/
theorem renamed_known : renamed.check = .ok () ∧
    ((run renamed).1.map fun s =>
      s.stage.document.nodes.map fun n => (n.name, n.classes)) =
        .ok [(none, []), (some "b", []), (some "b", ["z"])] ∧
    ((run renamed).1.map fun s => (s.stage.document.select "#a" none).toOption) = .ok (some []) ∧
    ((run renamed).1.map fun s => (s.stage.document.select "#b" none).toOption) =
      .ok (some [⟨1⟩, ⟨2⟩]) ∧
    ((run renamed).1.map fun s => s.stage.document.nodes.map fun n =>
      s.stage.document.label n.id) = .ok ["html@0", "#b", "#b"] := by
  decide +kernel

end Session

end AttrChain
