import AttrChain.Proofs.Revisions
import AttrChain.Proofs.ValidScenes
import AttrChain.Scene.Report

/-!
Valid scenes run to their end, unless a strict build comes to a group that fails or there is nothing
to bind again. Four passes look ids up, and each keeps what makes them find their nodes.
-/

namespace AttrChain

variable {ι ε : Type}

namespace Session

/-- Some nodes of the scene are made, in their places, and their ids lead to them. -/
structure Holds (scene : Scene) (made : List Scene.NodeEntry) (s : Session) : Prop where
  settings : s.builder.settings = scene.settings
  ids : ∀ id, Dict.get? id s.ids = Scene.handle? made id
  places : s.stage.document.skeleton = Scene.places scene.nodes made

/-- Building the node comes to a group that cannot be compiled or bound. -/
def GroupFails (entry : Scene.NodeEntry) (e : Error) (s : Session) : Prop :=
  ∃ node done g rest built t u,
    s.lookup entry.id = .ok node ∧
    Group.ofTexts entry.onText entry.byText entry.toText = done ++ g :: rest ∧
    s.stage.buildGroups s.builder node 0 done ⟨node, 0, 0, 0, []⟩ = (.ok built, t) ∧
    t.buildGroup s.builder node g = (.error e, u)

/-- No chain is kept for the source, or none for an event that the entry names. -/
def NothingKept (entry : Scene.RebindEntry) (s : Session) : Prop :=
  ∃ source, s.lookup entry.source = .ok source ∧
    ((entry.events = [] ∧ ∀ kept ∈ s.stage.stored, kept.node ≠ source) ∨
      ∃ event ∈ entry.events, s.stage.stored? source event = none)

section Steps

variable {scene : Scene} {made done rest : List Scene.NodeEntry} {entry : Scene.NodeEntry}
  {s t : Session}

theorem Holds.lookup (hs : s.Holds scene made) {id : String} {node : NodeId}
    (hid : Scene.handle? made id = some node) : s.lookup id = .ok node := by
  rw [Session.lookup, hs.ids, hid]

theorem Holds.of_stage (hs : s.Holds scene made) (hbuilder : t.builder = s.builder)
    (hids : t.ids = s.ids)
    (hplaces : t.stage.document.skeleton = s.stage.document.skeleton) : t.Holds scene made where
  settings := hbuilder ▸ hs.settings
  ids := hids ▸ hs.ids
  places := hplaces.trans hs.places

theorem Holds.length (hs : s.Holds scene made) :
    s.stage.document.nodes.length = made.length + 1 := by
  have hplaces := congrArg List.length hs.places
  simpa [Document.skeleton, Scene.places, Scene.numbered] using hplaces

theorem furnish_rewritten (entry : Scene.NodeEntry) (n : Node) :
    n.Rewritten (furnish entry n) := by
  have hclasses : n.Rewritten ((n.setAttr "id" entry.id).addClasses (Text.wordsOf entry.classText)) :=
    (n.setAttr_rewritten _ _).trans (Node.addClasses_rewritten _ _)
  have hattrs := List.foldlRecOn entry.attrs (fun n attr => n.setAttr attr.1 attr.2) hclasses
    fun m hm attr _ => hm.trans (m.setAttr_rewritten attr.1 attr.2)
  exact hattrs.trans ⟨_, _, _, _, _, _, rfl⟩

theorem create_next (hv : scene.Valid) (hsplit : scene.nodes = done ++ entry :: rest)
    (hs : s.Holds scene done) :
    ∃ t, create entry s = (.ok (), t) ∧ t.Holds scene (done ++ [entry]) ∧
      t.stage.stored = s.stage.stored ∧ t.builds = s.builds := by
  have hparent : s.lookupParent entry.parent =
      .ok (entry.parent.bind (Scene.handle? scene.nodes)) := by
    cases hid : entry.parent with
    | none => rfl
    | some id =>
      obtain ⟨node, hnode, -⟩ := Scene.handle?_isSome (hv.parent _ _ _ hsplit id hid)
      have hall := Scene.handle?_append hnode (entry :: rest)
      rw [← hsplit] at hall
      rw [lookupParent, hs.lookup hnode, Option.bind_some, hall]
      rfl
  have hlength := hs.length
  unfold create
  rw [hparent]
  refine ⟨_, rfl, ?_, rfl, rfl⟩
  constructor
  · exact hs.settings
  · intro id
    change Dict.get? id (Dict.insert entry.id _ s.ids) = _
    rw [Dict.get?_insert, hs.ids, Scene.handle?_concat, ← hlength]
    by_cases hid : entry.id = id
    · subst hid
      have hnone := Scene.handle?_eq_none (hv.fresh _ _ _ hsplit)
      rw [if_pos rfl, if_pos rfl, hnone]
      rfl
    · rw [if_neg (Ne.symm hid), if_neg hid, Option.or_none]
  · apply (Document.skeleton_modify_of fun n _ => (furnish_rewritten entry n).place).trans
    apply (Document.skeleton_create _ _ _).trans
    rw [hs.places, Scene.places, Scene.places, Scene.numbered_concat, hlength]
    simp

theorem build_sound (hs : s.stage.Sound) (node : NodeId) (onText byText toText : String) :
    (s.stage.build s.host s.builder node onText byText toText).2.Sound := by
  apply Stage.build_keeps
  · exact fun _ => Stage.buildGroups_sound _ _ _ _ _ hs
  · exact fun _ _ _ ht => ht
  · exact fun event _ ht => Stage.dispatch_sound (Stage.host_leaves _ fun _ _ _ => rfl)
      (Stage.host_leaves _ fun _ _ _ => rfl) event false ht

theorem build_skeleton (s : Session) (node : NodeId) (onText byText toText : String) :
    (s.stage.build s.host s.builder node onText byText toText).2.document.skeleton =
      s.stage.document.skeleton := by
  apply Stage.build_keeps_document (Q := fun d => d.skeleton = s.stage.document.skeleton) ?_ _ _ _ _
    _ rfl
  intro c args ctx d hd
  exact (c.toNodes_skeleton _ _ _ _).trans hd

theorem build_cases (hs : s.Holds scene made) (hsound : s.stage.Sound) {node : NodeId}
    (hnode : s.lookup entry.id = .ok node) (hchains : Text.trimmed entry.onText ≠ "") :
    (∃ t summary, build entry s = (.ok (), t) ∧ t.Holds scene made ∧ t.stage.Sound ∧
        t.builds = s.builds ++ [summary] ∧ summary.node = node) ∨
      ∃ t e, build entry s = (.error (.build entry.id e), t) ∧ t.Holds scene made ∧
        scene.settings.strict = true ∧ GroupFails entry e s := by
  have hkept := build_sound hsound node entry.onText entry.byText entry.toText
  have hplaces := s.build_skeleton node entry.onText entry.byText entry.toText
  cases hgroups : s.stage.buildGroups s.builder node 0
      (Group.ofTexts entry.onText entry.byText entry.toText) ⟨node, 0, 0, 0, []⟩ with
  | mk result t =>
    unfold build
    rw [if_neg hchains, hnode]
    cases result with
    | ok summary =>
      obtain ⟨message, hrun⟩ := Stage.build_of_ok (h := s.host) hgroups
      rw [hrun] at hplaces hkept
      simp only [hrun]
      refine .inl ⟨_, summary, rfl, ?_, hkept, rfl, Stage.buildGroups_node hgroups⟩
      exact hs.of_stage rfl rfl hplaces
    | error e =>
      have hrun := Stage.build_of_error (h := s.host) hgroups
      rw [hrun] at hplaces
      obtain ⟨hstrict, done, g, rest, built, u, hsplit, hdone, hfails⟩ :=
        Stage.buildGroups_error hgroups
      simp only [hrun]
      refine .inr ⟨_, e, rfl, ?_, hs.settings ▸ hstrict, ?_⟩
      · exact hs.of_stage rfl rfl hplaces
      · exact ⟨node, done, g, rest, built, u, t, hnode, hsplit, hdone, hfails⟩

theorem rebind_cases {entry : Scene.RebindEntry} (hs : s.Holds scene made) (hsound : s.stage.Sound)
    {source target : NodeId} (hsource : s.lookup entry.source = .ok source)
    (htarget : s.lookup entry.target = .ok target) :
    (∃ t, rebind entry s = (.ok (), t) ∧ t.Holds scene made ∧ t.stage.Sound ∧
        t.builds = s.builds) ∨
      ∃ t, rebind entry s =
          (.error (.rebind entry.source entry.target (.nothingStored source)), t) ∧
        t.Holds scene made ∧ NothingKept entry s := by
  let r : Rebinding := ⟨entry.events, entry.selector, entry.once, entry.initial⟩
  have hplaces := congrArg Document.skeleton
    (s.stage.rebind_leaves Stage.document_ignoresBinding source target r)
  have hkept := Stage.rebind_sound source target r hsound
  unfold rebind
  rw [hsource, htarget]
  dsimp only
  cases hrun : s.stage.rebind source target r with
  | mk result t =>
    rw [hrun] at hplaces hkept
    cases result with
    | ok count => exact .inl ⟨_, rfl, hs.of_stage rfl rfl hplaces, hkept, rfl⟩
    | error e =>
      obtain ⟨rfl, hnothing⟩ := Stage.rebind_error hsound hrun
      exact .inr ⟨_, rfl, hs.of_stage rfl rfl hplaces, source, hsource, hnothing⟩

theorem settle_holds (hs : s.Holds scene made) : s.settle.Holds scene made := by
  apply hs.of_stage
  · rfl
  · rfl
  · exact Stage.settle_leaves (Stage.host_leaves_skeleton s.builder.settings)
      (fun _ _ _ _ _ _ => rfl) s.stage

theorem fire_ok {entry : Scene.FireEntry} (hs : s.Holds scene made) {target : NodeId}
    (htarget : s.lookup entry.node = .ok target) :
    ∃ t, fire entry s = (.ok (), t) ∧ t.Holds scene made ∧ t.builds = s.builds := by
  have hleft := Stage.dispatch_leaves (Stage.host_leaves_skeleton s.builder.settings)
    (fun _ _ _ _ _ _ => rfl) (.fresh (Text.trimmed entry.event) target entry.detail)
    entry.bubbles s.stage
  unfold fire
  rw [htarget]
  dsimp only
  split
  · exact ⟨_, rfl, settle_holds (hs.of_stage rfl rfl hleft), rfl⟩
  · exact ⟨_, rfl, settle_holds (hs.of_stage rfl rfl hleft), rfl⟩

end Steps

section Passes

variable {α : Type} {step : α → Session → Except Fault Unit × Session}

theorem forEach_append (before after : List α) (s : Session) :
    forEach step (before ++ after) s = andThen (forEach step after) (forEach step before s) := by
  induction before generalizing s with
  | nil => rfl
  | cons entry rest ih =>
    rw [List.cons_append, forEach, forEach]
    generalize step entry s = r
    obtain ⟨fault | _, t⟩ := r
    · rfl
    · exact ih t

theorem forEach_cases {entries : List α} {P : List α → Session → Prop}
    {F : α → Session → Fault → Session → Prop}
    (hstep : ∀ done entry rest s, entries = done ++ entry :: rest → P done s →
      (∃ t, step entry s = (.ok (), t) ∧ P (done ++ [entry]) t) ∨
        ∃ fault t, step entry s = (.error fault, t) ∧ F entry s fault t)
    {s : Session} (hs : P [] s) :
    (∃ t, forEach step entries s = (.ok (), t) ∧ P entries t) ∨
      ∃ done entry rest t fault u, entries = done ++ entry :: rest ∧
        forEach step done s = (.ok (), t) ∧ forEach step entries s = (.error fault, u) ∧
        F entry t fault u := by
  have hfrom : ∀ rest done t, entries = done ++ rest → forEach step done s = (.ok (), t) →
      P done t → (∃ t, forEach step entries s = (.ok (), t) ∧ P entries t) ∨
        ∃ done entry rest t fault u, entries = done ++ entry :: rest ∧
          forEach step done s = (.ok (), t) ∧ forEach step entries s = (.error fault, u) ∧
          F entry t fault u := by
    intro rest
    induction rest with
    | nil =>
      intro done t hsplit hdone ht
      rw [List.append_nil] at hsplit
      subst hsplit
      exact .inl ⟨t, hdone, ht⟩
    | cons entry rest ih =>
      intro done t hsplit hdone ht
      obtain ⟨u, hu, hnext⟩ | ⟨fault, u, hu, hfails⟩ := hstep done entry rest t hsplit ht
      · apply ih (done ++ [entry]) u
        · rw [hsplit, List.append_cons]
        · rw [forEach_append, hdone, andThen, forEach, hu]
          rfl
        · exact hnext
      · refine .inr ⟨done, entry, rest, t, fault, u, hsplit, hdone, ?_, hfails⟩
        rw [hsplit, forEach_append, hdone, andThen, forEach, hu]
  exact hfrom entries [] s rfl rfl hs

theorem forEach_ok {entries : List α} {P : List α → Session → Prop}
    (hstep : ∀ done entry rest s, entries = done ++ entry :: rest → P done s →
      ∃ t, step entry s = (.ok (), t) ∧ P (done ++ [entry]) t)
    {s : Session} (hs : P [] s) : ∃ t, forEach step entries s = (.ok (), t) ∧ P entries t := by
  obtain hend | ⟨_, _, _, _, _, _, _, _, _, ⟨⟩⟩ := forEach_cases (F := fun _ _ _ _ => False)
    (fun done entry rest s hsplit hdone => .inl (hstep done entry rest s hsplit hdone)) hs
  exact hend

end Passes

section Runs

variable {scene : Scene}

def toBuild (nodes : List Scene.NodeEntry) : List NodeId :=
  ((Scene.numbered nodes).filter fun c => Text.trimmed c.1.onText ≠ "").map Prod.snd

theorem start_total (settings : Settings) : ∃ s, start settings = .ok s ∧ s.stage = .empty () ∧
    s.builder.settings = settings ∧ s.ids = [] ∧ s.builds = [] := by
  have htables : Kit.tables.toOption.isSome = true := by decide +kernel
  unfold start
  cases ht : Kit.tables with
  | error e =>
    rw [ht] at htables
    cases htables
  | ok tables => exact ⟨_, rfl, rfl, rfl, rfl, rfl⟩

theorem start_holds (scene : Scene) : ∃ s, start scene.settings = .ok s ∧ s.Holds scene [] ∧
    s.stage = .empty () ∧ s.builds = [] := by
  obtain ⟨s, hstart, hempty, hsettings, hids, hbuilds⟩ := start_total scene.settings
  refine ⟨s, hstart, ⟨hsettings, ?_, ?_⟩, hempty, hbuilds⟩
  · intro id
    rw [hids]
    rfl
  · rw [hempty]
    rfl

theorem creates (hv : scene.Valid) : ∃ s made, start scene.settings = .ok s ∧
    forEach create scene.nodes s = (.ok (), made) ∧ made.Holds scene scene.nodes ∧
    made.stage.Sound ∧ made.builds = [] := by
  obtain ⟨s, hstart, hfirst, hempty, hbuilds⟩ := start_holds scene
  obtain ⟨made, hmade, hholds, hstored, hnone⟩ := forEach_ok
    (P := fun done t => t.Holds scene done ∧ t.stage.stored = s.stage.stored ∧ t.builds = s.builds)
    (fun done entry rest t hsplit ⟨hholds, hstored, hbuilds⟩ => by
      obtain ⟨u, hrun, hu, hustored, hubuilds⟩ := create_next hv hsplit hholds
      exact ⟨u, hrun, hu, hustored.trans hstored, hubuilds.trans hbuilds⟩) ⟨hfirst, rfl, rfl⟩
  refine ⟨s, made, hstart, hmade, hholds, ?_, hnone.trans hbuilds⟩
  intro e he
  rw [hstored, hempty] at he
  cases he

theorem toBuild_concat (nodes : List Scene.NodeEntry) (entry : Scene.NodeEntry) :
    toBuild (nodes ++ [entry]) =
      toBuild nodes ++ if Text.trimmed entry.onText = "" then [] else [⟨nodes.length + 1⟩] := by
  unfold toBuild
  rw [Scene.numbered_concat, List.filter_append, List.map_append]
  split
  next hblank => simp [hblank]
  next hchains => simp [hchains]

/-- All nodes with chains are built, up to the first one at which a strict build fails. -/
theorem builds_cases (hv : scene.Valid) {made : Session} (hs : made.Holds scene scene.nodes)
    (hsound : made.stage.Sound) (hnone : made.builds = []) :
    (∃ t, forEach build scene.nodes made = (.ok (), t) ∧ t.Holds scene scene.nodes ∧
        t.stage.Sound ∧ t.builds.map Summary.node = toBuild scene.nodes) ∨
      ∃ done entry rest t e u, scene.nodes = done ++ entry :: rest ∧
        forEach build done made = (.ok (), t) ∧
        forEach build scene.nodes made = (.error (.build entry.id e), u) ∧
        u.Holds scene scene.nodes ∧ scene.settings.strict = true ∧ GroupFails entry e t := by
  let P (done : List Scene.NodeEntry) (t : Session) : Prop := t.Holds scene scene.nodes ∧
    t.stage.Sound ∧ t.builds.map Summary.node = toBuild done
  let F (entry : Scene.NodeEntry) (t : Session) (fault : Fault) (u : Session) : Prop :=
    ∃ e, fault = .build entry.id e ∧ u.Holds scene scene.nodes ∧ scene.settings.strict = true ∧
      GroupFails entry e t
  have hstep : ∀ done entry rest s, scene.nodes = done ++ entry :: rest → P done s →
      (∃ t, build entry s = (.ok (), t) ∧ P (done ++ [entry]) t) ∨
        ∃ fault t, build entry s = (.error fault, t) ∧ F entry s fault t := by
    intro done entry rest s hsplit ⟨hholds, hsound, hbuilds⟩
    by_cases hblank : Text.trimmed entry.onText = ""
    · refine .inl ⟨s, by rw [build, if_pos hblank], hholds, hsound, ?_⟩
      rw [hbuilds, toBuild_concat, if_pos hblank, List.append_nil]
    · have hnode := hholds.lookup (hv.handle?_entry hsplit)
      obtain ⟨t, summary, hrun, ht, htsound, hadded, hsummary⟩ |
          ⟨t, e, hrun, ht, hstrict, hfails⟩ := build_cases hholds hsound hnode hblank
      · refine .inl ⟨t, hrun, ht, htsound, ?_⟩
        rw [hadded, List.map_append, hbuilds, toBuild_concat, if_neg hblank]
        simp [hsummary]
      · exact .inr ⟨_, t, hrun, e, rfl, ht, hstrict, hfails⟩
  obtain hend | ⟨done, entry, rest, t, fault, u, hsplit, hdone, hrun, e, rfl, hfails⟩ :=
    forEach_cases hstep ⟨hs, hsound, by rw [hnone]; rfl⟩
  · exact .inl hend
  · exact .inr ⟨done, entry, rest, t, e, u, hsplit, hdone, hrun, hfails⟩

/-- All chains that are kept are bound again, up to the first entry for which there are none. -/
theorem rebinds_cases (hv : scene.Valid) {built : Session} (hs : built.Holds scene scene.nodes)
    (hsound : built.stage.Sound) :
    (∃ t, forEach rebind scene.rebinds built = (.ok (), t) ∧ t.Holds scene scene.nodes ∧
        t.builds = built.builds) ∨
      ∃ done entry rest t source u, scene.rebinds = done ++ entry :: rest ∧
        forEach rebind done built = (.ok (), t) ∧
        forEach rebind scene.rebinds built =
          (.error (.rebind entry.source entry.target (.nothingStored source)), u) ∧
        u.Holds scene scene.nodes ∧ NothingKept entry t := by
  let P (_ : List Scene.RebindEntry) (t : Session) : Prop := t.Holds scene scene.nodes ∧
    t.stage.Sound ∧ t.builds = built.builds
  let F (entry : Scene.RebindEntry) (t : Session) (fault : Fault) (u : Session) : Prop :=
    ∃ source, fault = .rebind entry.source entry.target (.nothingStored source) ∧
      u.Holds scene scene.nodes ∧ NothingKept entry t
  have hstep : ∀ done entry rest s, scene.rebinds = done ++ entry :: rest → P done s →
      (∃ t, rebind entry s = (.ok (), t) ∧ P (done ++ [entry]) t) ∨
        ∃ fault t, rebind entry s = (.error fault, t) ∧ F entry s fault t := by
    intro done entry rest s hsplit ⟨hholds, hsound, hbuilds⟩
    obtain ⟨hsource, htarget⟩ := hv.rebinds entry (by simp [hsplit])
    obtain ⟨source, hsource, -⟩ := Scene.handle?_isSome hsource
    obtain ⟨target, htarget, -⟩ := Scene.handle?_isSome htarget
    obtain ⟨t, hrun, ht, htsound, htbuilds⟩ | ⟨t, hrun, ht, hnothing⟩ :=
      rebind_cases hholds hsound (hholds.lookup hsource) (hholds.lookup htarget)
    · exact .inl ⟨t, hrun, ht, htsound, htbuilds.trans hbuilds⟩
    · exact .inr ⟨_, t, hrun, source, rfl, ht, hnothing⟩
  obtain ⟨t, hrun, ht, -, hbuilds⟩ |
      ⟨done, entry, rest, t, fault, u, hsplit, hdone, hrun, source, rfl, hfails⟩ :=
    forEach_cases hstep ⟨hs, hsound, rfl⟩
  · exact .inl ⟨t, hrun, ht, hbuilds⟩
  · exact .inr ⟨done, entry, rest, t, source, u, hsplit, hdone, hrun, hfails⟩

theorem fires_ok (hv : scene.Valid) {s : Session} (hs : s.Holds scene scene.nodes) :
    ∃ t, forEach fire scene.fires s = (.ok (), t) ∧ t.Holds scene scene.nodes ∧
      t.builds = s.builds := by
  apply forEach_ok (P := fun _ t => t.Holds scene scene.nodes ∧ t.builds = s.builds)
  · intro done entry rest t hsplit ⟨hholds, hbuilds⟩
    obtain ⟨target, htarget, -⟩ := Scene.handle?_isSome (hv.fires entry (by simp [hsplit]))
    obtain ⟨u, hrun, hu, hubuilds⟩ := fire_ok hholds (hholds.lookup htarget)
    exact ⟨u, hrun, hu, hubuilds.trans hbuilds⟩
  · exact ⟨hs, rfl⟩

/-- Every node that has chains was built once, and the report has a line for each of them and a line
for each node, all in the order of the scene. -/
structure Complete (scene : Scene) (s : Session) : Prop where
  built : s.builds.map Summary.node = toBuild scene.nodes
  buildLines : ∀ generated, (Report.ofSession generated s).builds.map Report.BuildLine.node =
    (toBuild scene.nodes).map s.stage.document.label
  nodeLines : ∀ generated, ((Report.ofSession generated s).nodes.map fun l => (l.node, l.tag)) =
    (Scene.numbered scene.nodes).map fun c => (s.stage.document.label c.2, c.1.tag)

theorem Holds.nodeLines {s : Session} (hs : s.Holds scene scene.nodes) (generated : Moment) :
    ((Report.ofSession generated s).nodes.map fun l => (l.node, l.tag)) =
      (Scene.numbered scene.nodes).map fun c => (s.stage.document.label c.2, c.1.tag) := by
  have hlines : ((Report.ofSession generated s).nodes.map fun l => (l.node, l.tag)) =
      (s.stage.document.skeleton.filter fun place => place.1 ≠ Document.root).map
        fun place => (s.stage.document.label place.1, place.2.1) := by
    rw [Document.skeleton, List.filter_map, List.map_map, Report.ofSession, List.map_map]
    rfl
  have hnodes : ((Scene.places scene.nodes scene.nodes).filter
      fun place => place.1 ≠ Document.root) = (Scene.places scene.nodes scene.nodes).tail := by
    rw [Scene.places, List.filter_cons_of_neg (by simp), List.tail_cons, List.filter_eq_self]
    intro place hplace
    obtain ⟨c, hc, rfl⟩ := List.mem_map.mp hplace
    obtain ⟨i, -, hid⟩ := Scene.mem_numbered.mp hc
    simp [hid, Document.root]
  rw [hlines, hs.places, hnodes, Scene.places, List.tail_cons, List.map_map]
  rfl

theorem Holds.complete {s : Session} (hs : s.Holds scene scene.nodes)
    (hbuilds : s.builds.map Summary.node = toBuild scene.nodes) : Complete scene s := by
  constructor
  · exact hbuilds
  · intro generated
    rw [← hbuilds]
    simp [Report.ofSession]
  · exact hs.nodeLines

theorem Holds.descending {s : Session} (hv : scene.Valid) (hs : s.Holds scene scene.nodes) :
    ∀ n ∈ s.stage.document.nodes, ∀ p ∈ n.parent, p.index < n.id.index := by
  intro n hn
  apply hv.places_descend n.place
  rw [← hs.places]
  exact List.mem_map_of_mem hn

theorem play_of_made {s made : Session} (hmade : forEach create scene.nodes s = (.ok (), made)) :
    play scene s =
      andThen (fun t => (.ok (), t.settle)) (andThen (forEach fire scene.fires)
        (andThen (fun t => (.ok (),
            t.note .debug (t.stage.listeners.length.repr ++ " listeners registered")))
          (andThen (forEach rebind scene.rebinds) (forEach build scene.nodes made)))) := by
  unfold play
  rw [hmade]
  rfl

theorem run_of_play {s t : Session} {result : Except Fault Unit}
    (hs : start scene.settings = .ok s) (hplay : play scene s = (result, t)) :
    (run scene).1 = result.map fun _ => t := by
  unfold run
  rw [hs]
  dsimp only
  rw [hplay]

theorem play_ends (hv : scene.Valid) {s made : Session}
    (hmade : forEach create scene.nodes s = (.ok (), made)) (hholds : made.Holds scene scene.nodes)
    (hsound : made.stage.Sound) (hnone : made.builds = []) :
    ∃ result last, play scene s = (result, last) ∧ last.Holds scene scene.nodes ∧
      ((result = .ok () ∧ Complete scene last) ∨
        (scene.settings.strict = true ∧ ∃ done entry rest t e,
          scene.nodes = done ++ entry :: rest ∧ forEach build done made = (.ok (), t) ∧
          GroupFails entry e t ∧ result = .error (.build entry.id e)) ∨
        ∃ built done entry rest t source,
          forEach build scene.nodes made = (.ok (), built) ∧
          scene.rebinds = done ++ entry :: rest ∧ forEach rebind done built = (.ok (), t) ∧
          NothingKept entry t ∧
          result = .error (.rebind entry.source entry.target (.nothingStored source))) := by
  rw [play_of_made hmade]
  obtain ⟨built, hbuild, hbuilt, hbuiltSound, hbuilds⟩ |
      ⟨done, entry, rest, t, e, u, hsplit, hdone, hbuild, hu, hstrict, hfails⟩ :=
    builds_cases hv hholds hsound hnone
  · rw [hbuild, andThen]
    obtain ⟨bound, hrebind, hbound, hboundBuilds⟩ |
        ⟨done, entry, rest, t, source, u, hsplit, hdone, hrebind, hu, hnothing⟩ :=
      rebinds_cases hv hbuilt hbuiltSound
    · rw [hrebind, andThen, andThen]
      have hcounted : (bound.note .debug
          (bound.stage.listeners.length.repr ++ " listeners registered")).Holds scene scene.nodes :=
        hbound.of_stage rfl rfl rfl
      obtain ⟨fired, hfire, hfired, hfiredBuilds⟩ := fires_ok hv hcounted
      rw [hfire, andThen]
      have hend := settle_holds hfired
      refine ⟨_, _, rfl, hend, .inl ⟨rfl, hend.complete ?_⟩⟩
      exact (congrArg _ (hfiredBuilds.trans hboundBuilds)).trans hbuilds
    · rw [hrebind]
      exact ⟨_, u, rfl, hu, .inr (.inr ⟨built, done, entry, rest, t, source, rfl, hsplit, hdone,
        hnothing, rfl⟩)⟩
  · rw [hbuild]
    exact ⟨_, u, rfl, hu, .inr (.inl ⟨hstrict, done, entry, rest, t, e, hsplit, hdone, hfails,
      rfl⟩)⟩

/-- A valid scene comes to its end, unless a strict build comes to a group that fails or no chain is
kept for a rebinding. -/
theorem valid_runs {scene : Scene} (hscene : scene.check = .ok ()) :
    -- a node is there once it is made
    (∀ (d : Document) (tag : String) (parent : Option NodeId),
      ((d.create tag parent).2.node? (d.create tag parent).1).isSome) ∧
    ∃ s made, start scene.settings = .ok s ∧ forEach create scene.nodes s = (.ok (), made) ∧
      -- however it ends, the nodes stand where they were made, below older ones
      (play scene s).2.stage.document.skeleton = Scene.places scene.nodes scene.nodes ∧
      (∀ n ∈ (play scene s).2.stage.document.nodes, ∀ p ∈ n.parent, p.index < n.id.index) ∧
      -- it ends well, or for one of two reasons
      ((∃ t, (run scene).1 = .ok t ∧ Complete scene t) ∨
        (scene.settings.strict = true ∧ ∃ done entry rest t e,
          scene.nodes = done ++ entry :: rest ∧ forEach build done made = (.ok (), t) ∧
          GroupFails entry e t ∧ (run scene).1 = .error (.build entry.id e)) ∨
        ∃ built done entry rest t source,
          forEach build scene.nodes made = (.ok (), built) ∧
          scene.rebinds = done ++ entry :: rest ∧ forEach rebind done built = (.ok (), t) ∧
          NothingKept entry t ∧
          (run scene).1 = .error (.rebind entry.source entry.target (.nothingStored source))) ∧
      (scene.settings.strict = false → scene.rebinds = [] →
        ∃ t, (run scene).1 = .ok t ∧ Complete scene t) := by
  refine ⟨Document.node?_create, ?_⟩
  have hv := Scene.valid_of_check hscene
  obtain ⟨s, made, hstart, hmade, hholds, hsound, hnone⟩ := creates hv
  obtain ⟨result, t, hplay, ht, hends⟩ := play_ends hv hmade hholds hsound hnone
  refine ⟨s, made, hstart, hmade, ?_⟩
  rw [hplay, run_of_play hstart hplay]
  refine ⟨ht.places, ht.descending hv, ?_⟩
  obtain ⟨rfl, hcomplete⟩ | ⟨hstrict, done, entry, rest, u, e, hsplit, hdone, hfails, rfl⟩ |
    ⟨built, done, entry, rest, u, source, hbuild, hsplit, hdone, hnothing, rfl⟩ := hends
  · exact ⟨.inl ⟨t, rfl, hcomplete⟩, fun _ _ => ⟨t, rfl, hcomplete⟩⟩
  · constructor
    · exact .inr (.inl ⟨hstrict, done, entry, rest, u, e, hsplit, hdone, hfails, rfl⟩)
    · intro hlenient
      rw [hlenient] at hstrict
      cases hstrict
  · constructor
    · exact .inr (.inr ⟨built, done, entry, rest, u, source, hbuild, hsplit, hdone, hnothing, rfl⟩)
    · intro _ hrebinds
      simp [hrebinds] at hsplit

end Runs

/-- A node inside another one. One of its chains is kept, and the other one cannot be compiled. -/
def nested (strict : Bool) (rebinds : List Scene.RebindEntry) : Scene :=
  { Scene.empty with
    settings := { Settings.standard with strict }
    nodes := [.plain "a", { Scene.NodeEntry.plain "b" with
      parent := some "a"
      onText := "@later;focus|nope()" }]
    rebinds }

theorem nested_ends :
    (∃ t, (run (nested false [])).1 = .ok t ∧ Complete (nested false []) t) ∧
    ((run (nested true [])).1.map fun _ => ()) =
      .error (.build "b" (.unknownInstruction .on "nope")) ∧
    ((run (nested false [⟨"b", "a", [], false, none, none⟩])).1.map fun _ => ()) = .ok () ∧
    ((run (nested false [⟨"a", "b", [], false, none, none⟩])).1.map fun _ => ()) =
      .error (.rebind "a" "b" (.nothingStored ⟨1⟩)) := by
  have hvalid : (nested false []).check = .ok () := by decide +kernel
  obtain ⟨-, s, made, -, -, -, -, -, hlenient⟩ := valid_runs hvalid
  refine ⟨hlenient rfl rfl, ?_, ?_, ?_⟩
  · decide +kernel
  · decide +kernel
  · decide +kernel

end Session

end AttrChain
