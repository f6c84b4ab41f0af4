import AttrChain.Proofs.SceneRuns
import AttrChain.Proofs.Updating

/-!
The classes of nodes. No class stands twice in a list. What the nodes are made with is cut into
words, and so is what is written later, except for the arguments of `addClass`: each of them is one
class as it stands.
-/

namespace AttrChain

namespace Text

/-- A text that can be told apart from others by blanks: it is not empty and has none. -/
def IsWord (s : String) : Prop := s ≠ "" ∧ ∀ c ∈ s.toList, isBlank c = false

instance (s : String) : Decidable (IsWord s) :=
  decidable_of_iff (s ≠ "" ∧ s.toList.all (fun c => !isBlank c) = true) (by simp [IsWord])

theorem isWord_of_mem_wordsOf {w s : String} (h : w ∈ wordsOf s) : IsWord w := by
  obtain ⟨cs, hcs, rfl⟩ := List.mem_map.mp h
  obtain ⟨hne, hall⟩ := of_mem_words hcs
  rw [IsWord, String.toList_ofList]
  refine ⟨fun hempty => hne ?_, fun c hc => (hall c hc).1⟩
  rw [← String.toList_ofList (l := cs), hempty]
  rfl

theorem IsWord.wordsOf_eq {s : String} (h : IsWord s) : wordsOf s = [s] := by
  have hwords : words ([' '].intercalate [s.toList]) = [s.toList] :=
    words_intercalate (List.forall_mem_singleton.mpr
      ⟨fun hnil => h.1 (String.toList_inj.mp hnil), h.2⟩)
  rw [List.intercalate_singleton] at hwords
  rw [wordsOf, hwords, List.map_singleton, String.ofList_toList]

end Text

namespace Node

structure Tidy (n : Node) : Prop where
  nodup : n.classes.Nodup
  words : ∀ c ∈ n.classes, Text.IsWord c

/-- The second node has the classes of the first one, words and some of the `given` texts as its
classes, and none of them twice if the first node has none twice. -/
structure Reclassed (given : List String) (n m : Node) : Prop where
  nodup : n.classes.Nodup → m.classes.Nodup
  mem : ∀ c ∈ m.classes, c ∈ n.classes ∨ Text.IsWord c ∨ c ∈ given

namespace Reclassed

variable {given more : List String} {n m k : Node}

theorem of_eq (h : m.classes = n.classes) : n.Reclassed given m :=
  ⟨fun hn => h ▸ hn, fun _ hc => .inl (h ▸ hc)⟩

theorem refl (n : Node) : n.Reclassed given n := of_eq rfl

theorem mono (h : n.Reclassed given m) (hsub : given ⊆ more) : n.Reclassed more m :=
  ⟨h.nodup, fun c hc => (h.mem c hc).imp_right (.imp_right (hsub ·))⟩

theorem trans (hnm : n.Reclassed given m) (hmk : m.Reclassed given k) : n.Reclassed given k := by
  refine ⟨fun hn => hmk.nodup (hnm.nodup hn), fun c hc => ?_⟩
  rcases hmk.mem c hc with hm | hnew
  · exact hnm.mem c hm
  · exact .inr hnew

theorem iterate {f : Node → Node} (hf : ∀ n : Node, n.Reclassed given (f n)) (k : Nat) (n : Node) :
    n.Reclassed given (f^[k] n) := by
  induction k generalizing n with
  | zero => exact refl n
  | succ k ih => exact (hf n).trans (ih (f n))

theorem tidy (h : n.Reclassed given m) (hgiven : ∀ c ∈ given, Text.IsWord c) (hn : n.Tidy) :
    m.Tidy := by
  refine ⟨h.nodup hn.nodup, fun c hc => ?_⟩
  rcases h.mem c hc with hc | hc | hc
  · exact hn.words c hc
  · exact hc
  · exact hgiven c hc

end Reclassed

variable {given : List String}

theorem addClass_reclassed {c : String} (h : Text.IsWord c ∨ c ∈ given) (n : Node) :
    n.Reclassed given (n.addClass c) := by
  unfold addClass
  split
  · exact .refl n
  next hnew =>
    have hfresh : c ∉ n.classes := by simpa [hasClass] using hnew
    constructor
    · exact fun hn => List.concat_eq_append ▸ hn.concat hfresh
    · intro d hd
      rcases List.mem_append.mp hd with hd | hd
      · exact .inl hd
      · rw [List.mem_singleton.mp hd]
        exact .inr h

theorem addClasses_reclassed {cs : List String} (h : ∀ c ∈ cs, Text.IsWord c ∨ c ∈ given)
    (n : Node) : n.Reclassed given (n.addClasses cs) := by
  unfold addClasses
  induction cs generalizing n with
  | nil => exact .refl n
  | cons c rest ih =>
    obtain ⟨hc, hrest⟩ := List.forall_mem_cons.mp h
    exact (addClass_reclassed hc n).trans (ih hrest _)

theorem cleared_reclassed (n : Node) : n.Reclassed given { n with classes := [] } :=
  ⟨fun _ => List.nodup_nil, fun _ hc => nomatch hc⟩

theorem setAttr_reclassed (name value : String) (n : Node) :
    n.Reclassed given (n.setAttr name value) := by
  unfold setAttr
  split
  · exact .of_eq rfl
  split
  · exact (cleared_reclassed n).trans
      (addClasses_reclassed (fun _ hc => .inl (Text.isWord_of_mem_wordsOf hc)) _)
  · exact .of_eq rfl

theorem removeAttr_reclassed (name : String) (n : Node) :
    n.Reclassed given (n.removeAttr name) := by
  unfold removeAttr
  split
  · exact .of_eq rfl
  split
  · exact cleared_reclassed n
  · exact .of_eq rfl

theorem Changed.reclassed {n m : Node} (h : n.Changed given m) : n.Reclassed given m := by
  cases h with
  | set name value => exact setAttr_reclassed name value n
  | remove name => exact removeAttr_reclassed name n
  | words s => exact addClasses_reclassed (fun _ hc => .inl (Text.isWord_of_mem_wordsOf hc)) n
  | given => exact addClasses_reclassed (fun _ hc => .inr hc) n
  | elsewhere => exact .of_eq rfl

end Node

namespace Change

variable {c : Change} {args : List Value} {value : Option Value}

theorem node?_addClass {names : List String}
    (h : ∀ n, addClass.toNode args value n = .ok (n.addClasses names)) (targets : List NodeId)
    (d : Document) (id : NodeId) : (addClass.toNodes args value targets d).2.node? id =
      if id ∈ targets then (d.node? id).map (Node.addClasses names) else d.node? id := by
  rw [(node?_toNodes h targets d).2 id]
  split
  next hid =>
    obtain ⟨k, hk⟩ := Nat.exists_eq_add_one_of_ne_zero (List.count_pos_iff.mpr hid).ne'
    have honce : (Node.addClasses names)^[k + 1] = Node.addClasses names := by
      funext n
      rw [Function.iterate_succ_apply, Function.iterate_fixed (Node.addClasses_addClasses names n)]
    rw [hk, honce]
  next hid =>
    rw [List.count_eq_zero_of_not_mem hid]
    exact congrFun Option.map_id (d.node? id)

end Change

namespace Revision

variable {d : Document} {id : NodeId}

/-- The texts that are given to a node as classes by themselves. -/
def given (id : NodeId) (r : Revision) : List String :=
  if r.change = .addClass ∧ id ∈ r.ctx.updatedNodes then r.args.map Value.shown else []

theorem on_reclassed {r : Revision} {n' : Node} (h : (r.on d).node? id = some n') :
    ∃ n, d.node? id = some n ∧ n.Reclassed (r.given id) n' := by
  change (r.change.toNodes r.args r.ctx.data r.ctx.updatedNodes d).2.node? id = some n' at h
  by_cases hid : id ∈ r.ctx.updatedNodes
  · rcases r.change.toNode_cases r.args r.ctx.data with ⟨f, hf⟩ | ⟨e, he⟩
    · rw [(Change.node?_toNodes hf _ d).2] at h
      obtain ⟨n, hn, rfl⟩ := Option.map_eq_some_iff.mp h
      refine ⟨n, hn, .iterate (fun m => ?_) _ n⟩
      have hm := (Change.toNode_changed (hf m)).reclassed
      simpa only [given, and_iff_left hid] using hm
    · rw [Change.toNodes_of_error he] at h
      exact ⟨n', h, .refl n'⟩
  · rw [Change.toNodes_elsewhere hid] at h
    exact ⟨n', h, .refl n'⟩

theorem mem_classes_on {r : Revision} {c : String} (hc : c ∈ r.given id)
    (hn : (d.node? id).isSome) : ∃ n', (r.on d).node? id = some n' ∧ c ∈ n'.classes := by
  unfold given at hc
  split at hc
  next h =>
    obtain ⟨hchange, hid⟩ := h
    have hargs : r.args.isEmpty = false := by
      cases hargs : r.args with
      | nil => simp [hargs] at hc
      | cons v rest => rfl
    have hstep (n : Node) : Change.addClass.toNode r.args r.ctx.data n =
        .ok (n.addClasses (r.args.map Value.shown)) := by
      simp only [Change.toNode, hargs, Bool.false_eq_true, if_false]
    obtain ⟨n, hn⟩ := Option.isSome_iff_exists.mp hn
    have hafter := Change.node?_addClass hstep r.ctx.updatedNodes d id
    rw [if_pos hid, hn, Option.map_some, ← hchange] at hafter
    have hthere : (n.addClasses (r.args.map Value.shown)).hasClass c = true :=
      Node.hasClass_addClasses.mpr (.inl hc)
    exact ⟨_, hafter, List.contains_iff_mem.mp hthere⟩
  · cases hc

end Revision

namespace Document

variable {d : Document} {rs : List Revision} {id : NodeId}

theorem revised_reclassed {n' : Node} (h : (d.revised rs).node? id = some n') :
    ∃ n, d.node? id = some n ∧ n.Reclassed (rs.flatMap (Revision.given id)) n' := by
  induction rs generalizing d with
  | nil => exact ⟨n', h, .refl n'⟩
  | cons r rest ih =>
    obtain ⟨m, hm, hlater⟩ := ih (d := r.on d) h
    obtain ⟨n, hn, hfirst⟩ := Revision.on_reclassed hm
    rw [List.flatMap_cons]
    exact ⟨n, hn, (hfirst.mono (List.subset_append_left _ _)).trans
      (hlater.mono (List.subset_append_right _ _))⟩

/-- Where the nodes are tidy at first, those of a node stay so as long as nothing but words is given
to it, and no longer. -/
theorem words_iff (hd : ∀ n ∈ d.node? id, n.Tidy) (hid : (d.node? id).isSome) :
    (∀ done, done <+: rs → ∀ n ∈ (d.revised done).node? id, ∀ c ∈ n.classes, Text.IsWord c) ↔
      ∀ c ∈ rs.flatMap (Revision.given id), Text.IsWord c := by
  constructor
  · -- a text that is given to the node is a class of it right after the run that gives it
    intro h c hc
    obtain ⟨r, hr, hgiven⟩ := List.mem_flatMap.mp hc
    obtain ⟨before, after, rfl⟩ := List.append_of_mem hr
    have hsome : ((d.revised before).node? id).isSome := by rwa [isSome_node?_revised]
    obtain ⟨n, hn, hmem⟩ := Revision.mem_classes_on hgiven hsome
    refine h (before ++ [r]) ⟨after, ?_⟩ n ?_ c hmem
    · rw [List.append_assoc, List.singleton_append]
    · rw [revised_append]
      exact hn
  · rintro h done ⟨later, rfl⟩ n' hn'
    obtain ⟨n, hn, hre⟩ := revised_reclassed hn'
    refine (hre.tidy (fun c hc => h c ?_) (hd n hn)).words
    rw [List.flatMap_append]
    exact List.mem_append_left _ hc

end Document

theorem Document.tidy_modify {d : Document} {id : NodeId} {f : Node → Node}
    (hf : ∀ n : Node, n.Reclassed [] (f n)) (hd : ∀ n ∈ d.nodes, n.Tidy) :
    ∀ n ∈ (d.modify id f).nodes, n.Tidy := by
  intro n' hn'
  obtain ⟨i, hi⟩ := List.mem_iff_getElem?.mp hn'
  have hnode : (d.modify id f).node? ⟨i⟩ = some n' := hi
  rw [node?_modify] at hnode
  split at hnode
  · obtain ⟨n, hn, rfl⟩ := Option.map_eq_some_iff.mp hnode
    exact (hf n).tidy (fun c hc => nomatch hc) (hd n (List.mem_of_getElem? hn))
  · exact hd n' (List.mem_of_getElem? hnode)

namespace Session

variable {given : List String} {s : Session}

theorem furnish_reclassed (entry : Scene.NodeEntry) (n : Node) :
    n.Reclassed given (furnish entry n) := by
  have hclasses : n.Reclassed given
      ((n.setAttr "id" entry.id).addClasses (Text.wordsOf entry.classText)) :=
    (n.setAttr_reclassed _ _).trans
      (Node.addClasses_reclassed (fun _ hc => .inl (Text.isWord_of_mem_wordsOf hc)) _)
  have hattrs := List.foldlRecOn entry.attrs (fun n attr => n.setAttr attr.1 attr.2) hclasses
    fun m hm attr _ => hm.trans (m.setAttr_reclassed attr.1 attr.2)
  exact hattrs.trans (.of_eq rfl)

theorem create_tidy (entry : Scene.NodeEntry) (hs : ∀ n ∈ s.stage.document.nodes, n.Tidy) :
    ∀ n ∈ (create entry s).2.stage.document.nodes, n.Tidy := by
  unfold create
  split
  · exact hs
  next parent _ =>
    apply Document.tidy_modify (furnish_reclassed entry)
    apply Document.tidy_modify
    · exact fun n => .of_eq rfl
    intro n hn
    rcases List.mem_append.mp hn with hn | hn
    · exact hs n hn
    · rw [List.mem_singleton.mp hn]
      exact ⟨List.nodup_nil, fun c hc => nomatch hc⟩

theorem creates_tidy (scene : Scene) {s : Session} (hs : start scene.settings = .ok s) :
    ∀ n ∈ (forEach create scene.nodes s).2.stage.document.nodes, n.Tidy := by
  obtain ⟨t, ht, hempty, -⟩ := start_total scene.settings
  cases hs.symm.trans ht
  apply forEach_keeps (P := fun s => ∀ n ∈ s.stage.document.nodes, n.Tidy)
  · exact fun entry s => create_tidy entry
  · rw [hempty]
    exact List.forall_mem_singleton.mpr ⟨List.nodup_nil, fun c hc => nomatch hc⟩

end Session

/-- A text is added in the same way as an argument and as a value if it is a word, and only then. -/
theorem Change.addClass_argument_iff {d : Document} {ctx : Context} {id : NodeId} {n : Node}
    (hid : id ∈ ctx.updatedNodes) (hn : d.node? id = some n) (hwords : ∀ c ∈ n.classes, Text.IsWord c)
    (t : String) : addClass.perform [.text t] ctx d =
      addClass.perform [] { ctx with data := some (.text t) } d ↔ Text.IsWord t := by
  have hargument (id : NodeId) :
      (addClass.toNodes [.text t] ctx.data ctx.updatedNodes d).2.node? id =
        if id ∈ ctx.updatedNodes then (d.node? id).map (Node.addClasses [t]) else d.node? id :=
    node?_addClass (fun _ => rfl) ctx.updatedNodes d id
  have hvalue (id : NodeId) :
      (addClass.toNodes [] (some (.text t)) ctx.updatedNodes d).2.node? id =
        if id ∈ ctx.updatedNodes then (d.node? id).map (Node.addClasses (Text.wordsOf t))
        else d.node? id :=
    node?_addClass (fun _ => rfl) ctx.updatedNodes d id
  constructor
  · intro h
    have hsame : (n.addClasses [t]) = n.addClasses (Text.wordsOf t) := by
      have hnodes := congrArg (fun r => r.2.2.node? id) h
      have hleft := hargument id
      have hright := hvalue id
      rw [if_pos hid, hn] at hleft hright
      exact Option.some.inj (hleft.symm.trans (hnodes.trans hright))
    have hthere : (n.addClasses (Text.wordsOf t)).hasClass t = true := by
      rw [← hsame]
      exact Node.hasClass_addClasses.mpr (.inl List.mem_cons_self)
    rcases Node.hasClass_addClasses.mp hthere with hword | hold
    · exact Text.isWord_of_mem_wordsOf hword
    · exact hwords t (List.contains_iff_mem.mp hold)
  · intro h
    rw [h.wordsOf_eq] at hvalue
    have hsame : (addClass.toNodes [.text t] ctx.data ctx.updatedNodes d).2 =
        (addClass.toNodes [] (some (.text t)) ctx.updatedNodes d).2 :=
      Document.ext_node? fun id => (hargument id).trans (hvalue id).symm
    have hfirst : addClass.perform [.text t] ctx d = (.ok .nothing, { ctx with data := none },
        (addClass.toNodes [.text t] ctx.data ctx.updatedNodes d).2) :=
      perform_ok (node?_toNodes (f := Node.addClasses [t]) (fun _ => rfl) _ d).1
    have hsecond : addClass.perform [] { ctx with data := some (.text t) } d =
        (.ok .nothing, { ctx with data := none },
          (addClass.toNodes [] (some (.text t)) ctx.updatedNodes d).2) :=
      perform_ok (node?_toNodes (f := Node.addClasses (Text.wordsOf t)) (fun _ => rfl) _ d).1
    rw [hfirst, hsecond, hsame]

namespace Session

/-- In a session the document is revised once the nodes are made. Whatever the revisions are, no
class stands twice in a list. What a node has as its classes are words and the texts that were given
to it by `addClass` as arguments, so its classes are words all the time if these texts are, and only
then. Where they are, a text is added in the same way as an argument and as a value if it is a word,
and only then. -/
theorem classes_words_but_arguments (scene : Scene) : ∃ s made, start scene.settings = .ok s ∧
    (forEach create scene.nodes s).2.stage.document = made ∧
    (∃ rs, (play scene s).2.stage.document = made.revised rs) ∧
    ∀ (rs : List Revision) (id : NodeId),
      (∀ n ∈ (made.revised rs).node? id, n.classes.Nodup ∧
        ∀ c ∈ n.classes, Text.IsWord c ∨ c ∈ rs.flatMap (Revision.given id)) ∧
      ((made.node? id).isSome →
        ((∀ done, done <+: rs → ∀ n ∈ (made.revised done).node? id, ∀ c ∈ n.classes,
            Text.IsWord c) ↔ ∀ c ∈ rs.flatMap (Revision.given id), Text.IsWord c)) ∧
      ∀ n ∈ (made.revised rs).node? id, (∀ c ∈ n.classes, Text.IsWord c) →
        ∀ (ctx : Context) (t : String), id ∈ ctx.updatedNodes →
          (Change.addClass.perform [.text t] ctx (made.revised rs) =
            Change.addClass.perform [] { ctx with data := some (.text t) } (made.revised rs) ↔
              Text.IsWord t) := by
  obtain ⟨s, hstart, -⟩ := start_total scene.settings
  have htidy := creates_tidy scene hstart
  refine ⟨s, _, hstart, rfl, play_revises scene s, fun rs id => ⟨?_, ?_, ?_⟩⟩
  · intro n' hn'
    obtain ⟨n, hn, hre⟩ := Document.revised_reclassed hn'
    have hfirst := htidy n (List.mem_of_getElem? hn)
    refine ⟨hre.nodup hfirst.nodup, fun c hc => ?_⟩
    rcases hre.mem c hc with hc | hc
    · exact .inl (hfirst.words c hc)
    · exact hc
  · exact Document.words_iff fun n hn => htidy n (List.mem_of_getElem? hn)
  · exact fun n hn hwords ctx t hid => Change.addClass_argument_iff hid hn hwords t

def clicked (onText toText : String) : Scene :=
  { Scene.empty with
    nodes := [{ Scene.NodeEntry.plain "a" with onText, toText }]
    fires := [⟨"a", "click", none, true⟩] }

/-- Two words that are an argument become one class with a blank, and the same text as a value two
classes. -/
theorem clicked_classes :
    ((run (clicked "click" "-|addClass('a b')")).1.map fun s =>
      s.stage.document.nodes.map Node.classes) = .ok [[], ["a b"]] ∧
    ((run (clicked "click|push('a b')" "-|addClass")).1.map fun s =>
      s.stage.document.nodes.map Node.classes) = .ok [[], ["a", "b"]] ∧
    ¬Text.IsWord "a b" := by
  decide +kernel

end Session

end AttrChain
