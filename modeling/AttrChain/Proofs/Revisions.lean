import AttrChain.Proofs.Overlap
import AttrChain.Proofs.Stored

/-!
What a session does to its document once the nodes are made: it runs changing instructions, and
nothing else.
-/

namespace AttrChain

/-- A run of a changing instruction. -/
structure Revision where
  change : Change
  args : List Value
  ctx : Context

def Revision.on (r : Revision) (d : Document) : Document := (r.change.perform r.args r.ctx d).2.2

def Document.revised (d : Document) (rs : List Revision) : Document :=
  rs.foldl (fun d r => r.on d) d

namespace Document

theorem revised_append (d : Document) (rs rs' : List Revision) :
    d.revised (rs ++ rs') = (d.revised rs).revised rs' :=
  List.foldl_append

theorem skeleton_revised (d : Document) (rs : List Revision) :
    (d.revised rs).skeleton = d.skeleton := by
  induction rs generalizing d with
  | nil => rfl
  | cons r rest ih => exact (ih (r.on d)).trans (r.change.toNodes_skeleton _ _ _ _)

theorem isSome_node?_revised (d : Document) (rs : List Revision) (id : NodeId) :
    ((d.revised rs).node? id).isSome = (d.node? id).isSome := by
  have hplace (d : Document) : (d.node? id).isSome = (d.skeleton[id.index]?).isSome := by
    rw [skeleton, List.getElem?_map, Option.isSome_map, node?]
  rw [hplace, skeleton_revised, ← hplace]

end Document

namespace Stage

variable {ε : Type} {Q : Document → Prop} {s : Stage Kit ε}

theorem document_ignoresBinding {ι : Type} :
    IgnoresBinding (Stage.document : Stage ι ε → Document) :=
  fun _ _ _ _ _ _ => rfl

theorem dispatch_keeps_document (hq : Change.Keep Q) (settings : Settings) (event : Event)
    (bubbles : Bool) (hs : Q s.document) :
    Q (s.dispatch (host settings) event bubbles).2.document := by
  apply dispatch_keeps (P := fun s => Q s.document) ?_ ?_ event bubbles hs
  · intro current event s chosen hs
    exact deliver_keeps (R := fun s => Q s.document) (host_keeps_document settings hq)
      (fun _ _ _ _ _ _ hs => hs) current event chosen hs
  · exact fun _ _ _ hs => hs

theorem build_keeps_document (hq : Change.Keep Q) (b : Builder Kit) (node : NodeId)
    (onText byText toText : String) (hs : Q s.document) :
    Q (s.build (host b.settings) b node onText byText toText).2.document := by
  apply build_keeps (P := fun s => Q s.document)
  · intro groups
    have hleft := s.buildGroups_leaves document_ignoresBinding b node groups 0 ⟨node, 0, 0, 0, []⟩
    exact hleft ▸ hs
  · exact fun _ _ _ hs => hs
  · exact fun event _ hs => dispatch_keeps_document hq b.settings event false hs

end Stage

namespace Session

section Steps

variable {α : Type} {step : α → Session → Except Fault Unit × Session}
  {next : Session → Except Fault Unit × Session} {P : Session → Prop} {s : Session}

theorem forEach_keeps (hstep : ∀ entry s, P s → P (step entry s).2) (entries : List α) (hs : P s) :
    P (forEach step entries s).2 := by
  induction entries generalizing s with
  | nil => exact hs
  | cons entry rest ih =>
    have hfirst := hstep entry s hs
    rw [forEach]
    generalize step entry s = r at hfirst
    obtain ⟨e | _, t⟩ := r
    · exact hfirst
    · exact ih hfirst

theorem andThen_keeps (hnext : ∀ s, P s → P (next s).2) {r : Except Fault Unit × Session}
    (hr : P r.2) : P (andThen next r).2 := by
  obtain ⟨e | _, s⟩ := r
  · exact hr
  · exact hnext s hr

end Steps

section Documents

variable {Q : Document → Prop} {s : Session}

theorem build_keeps_document (hq : Change.Keep Q) (entry : Scene.NodeEntry)
    (hs : Q s.stage.document) : Q (build entry s).2.stage.document := by
  unfold build
  split
  · exact hs
  split
  · exact hs
  next node hnode =>
    have hbuilt := Stage.build_keeps_document hq s.builder node entry.onText entry.byText
      entry.toText hs
    dsimp only [host]
    generalize s.stage.build (Stage.host s.builder.settings) s.builder node entry.onText
      entry.byText entry.toText = r at hbuilt
    obtain ⟨e | summary, t⟩ := r <;> exact hbuilt

theorem rebind_keeps_document (entry : Scene.RebindEntry) (hs : Q s.stage.document) :
    Q (rebind entry s).2.stage.document := by
  unfold rebind
  split
  · exact hs
  · exact hs
  next source target _ _ =>
    have hleft := s.stage.rebind_leaves Stage.document_ignoresBinding source target
      ⟨entry.events, entry.selector, entry.once, entry.initial⟩
    have hbound := hleft ▸ hs
    dsimp only
    split <;> exact hbound

theorem settle_keeps_document (hq : Change.Keep Q) (hs : Q s.stage.document) :
    Q s.settle.stage.document :=
  Stage.settle_keeps (R := fun t => Q t.document) (Stage.host_keeps_document _ hq)
    (fun _ _ _ _ _ _ ht => ht) hs

theorem fire_keeps_document (hq : Change.Keep Q) (entry : Scene.FireEntry)
    (hs : Q s.stage.document) : Q (fire entry s).2.stage.document := by
  unfold fire
  split
  · exact hs
  next target _ =>
    have hfired := Stage.dispatch_keeps_document hq s.builder.settings
      (.fresh (Text.trimmed entry.event) target entry.detail) entry.bubbles hs
    dsimp only
    split
    · exact settle_keeps_document hq hfired
    · exact settle_keeps_document hq hfired

/-- What the changing instructions keep of the document holds at the end of a session, if it holds
once the nodes are made. -/
theorem play_keeps_document (hq : Change.Keep Q) (scene : Scene)
    (hs : Q (forEach create scene.nodes s).2.stage.document) :
    Q (play scene s).2.stage.document := by
  let P (s : Session) : Prop := Q s.stage.document
  have hbuild : ∀ s, P s → P (forEach build scene.nodes s).2 := fun s =>
    forEach_keeps (P := P) (fun entry s => build_keeps_document hq entry) scene.nodes
  have hrebind : ∀ s, P s → P (forEach rebind scene.rebinds s).2 := fun s =>
    forEach_keeps (P := P) (fun entry s => rebind_keeps_document entry) scene.rebinds
  have hfire : ∀ s, P s → P (forEach fire scene.fires s).2 := fun s =>
    forEach_keeps (P := P) (fun entry s => fire_keeps_document hq entry) scene.fires
  have hbound : P (andThen (forEach rebind scene.rebinds)
      (andThen (forEach build scene.nodes) (forEach create scene.nodes s))).2 :=
    andThen_keeps hrebind (andThen_keeps hbuild hs)
  exact andThen_keeps (P := P) (fun s => settle_keeps_document hq)
    (andThen_keeps hfire (andThen_keeps (P := P) (fun s hs => hs) hbound))

/-- A session revises the document once the nodes are made. -/
theorem play_revises (scene : Scene) (s : Session) : ∃ rs,
    (play scene s).2.stage.document =
      (forEach create scene.nodes s).2.stage.document.revised rs := by
  apply play_keeps_document (Q := fun d => ∃ rs, d = Document.revised _ rs) ?_ scene ⟨[], rfl⟩
  rintro c args ctx _ ⟨rs, rfl⟩
  refine ⟨rs ++ [⟨c, args, ctx⟩], ?_⟩
  rw [Document.revised_append]
  rfl

end Documents

end Session

end AttrChain
