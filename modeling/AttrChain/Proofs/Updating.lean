import AttrChain.Kit.Basic
import AttrChain.Proofs.Attributes
import AttrChain.Proofs.Paths
import AttrChain.Proofs.Skeleton

/-!
What the instructions of the update table do to a document. Whether one of them fails has nothing to
do with the nodes, so it fails before it changes any. What it does to a node has nothing to do with
the other nodes, and apart from toggling it is done once it is done the first time.
-/

namespace AttrChain

namespace Node

variable {n : Node} {name value : String} {cs : List String}

theorem addClasses_of_hasClass (h : ∀ c ∈ cs, n.hasClass c = true) : n.addClasses cs = n := by
  unfold addClasses
  induction cs with
  | nil => rfl
  | cons c rest ih =>
    obtain ⟨hc, hrest⟩ := List.forall_mem_cons.mp h
    rw [List.foldl_cons, addClass, if_pos hc]
    exact ih hrest

theorem addClasses_addClasses (cs : List String) (n : Node) :
    (n.addClasses cs).addClasses cs = n.addClasses cs :=
  addClasses_of_hasClass fun _ hc => hasClass_addClasses.mpr (.inl hc)

theorem setAttr_setAttr (name value : String) (n : Node) :
    (n.setAttr name value).setAttr name value = n.setAttr name value := by
  by_cases hid : name = "id"
  · rw [setAttr, if_pos hid, setAttr, if_pos hid]
  by_cases hclass : name = "class"
  · obtain ⟨classes, h⟩ := addClasses_eq (Text.wordsOf value) { n with classes := [] }
    have hset (m : Node) : m.setAttr name value =
        { m with classes := [] }.addClasses (Text.wordsOf value) := by
      rw [setAttr, if_neg hid, if_pos hclass]
    rw [hset n, hset, h]
    exact h
  · rw [setAttr, if_neg hid, if_neg hclass, setAttr, if_neg hid, if_neg hclass]
    simp only [Dict.insert_insert]

theorem removeAttr_removeAttr (name : String) (n : Node) :
    (n.removeAttr name).removeAttr name = n.removeAttr name := by
  by_cases hid : name = "id"
  · rw [removeAttr, if_pos hid, removeAttr, if_pos hid]
  by_cases hclass : name = "class"
  · rw [removeAttr, if_neg hid, if_pos hclass, removeAttr, if_neg hid, if_pos hclass]
  · rw [removeAttr, if_neg hid, if_neg hclass, removeAttr, if_neg hid, if_neg hclass]
    simp only [Dict.erase_erase]

end Node

theorem Document.ext_node? {d d' : Document} (h : ∀ id, d.node? id = d'.node? id) : d = d' :=
  congrArg Document.mk (List.ext_getElem? fun i => h ⟨i⟩)

namespace Change

variable {c : Change} {args : List Value} {value : Option Value} {n n' : Node} {f : Node → Node}
  {e : Error} {d : Document} {ctx : Context}

theorem toNode_cases (c : Change) (args : List Value) (value : Option Value) :
    (∃ f : Node → Node, ∀ n, c.toNode args value n = .ok (f n)) ∨
      ∃ e, ∀ n, c.toNode args value n = .error e := by
  have hnamed (instruction : String) (f : String → Node → Node) :
      (∃ g : Node → Node, ∀ n, (do
        let name ← Compute.nameArg args instruction
        return f name n) = (.ok (g n) : Except Error Node)) ∨
      ∃ e, ∀ n, (do
        let name ← Compute.nameArg args instruction
        return f name n) = (.error e : Except Error Node) := by
    cases Compute.nameArg args instruction with
    | ok name => exact .inl ⟨f name, fun n => rfl⟩
    | error e => exact .inr ⟨e, fun n => rfl⟩
  cases c with
  | text => exact .inl ⟨_, fun n => rfl⟩
  | addClass => exact .inl ⟨_, fun n => rfl⟩
  | attr => exact hnamed "attr" _
  | prop => exact hnamed "prop" _
  | css => exact hnamed "css" _
  | toggleAttr => exact hnamed "toggleAttr" _

/-- Apart from toggling without a value, what is done to a node is done once it is done the first
time. -/
theorem toNode_again (hc : c ≠ .toggleAttr ∨ value ≠ none) (h : c.toNode args value n = .ok n') :
    c.toNode args value n' = .ok n' := by
  cases c with
  | text =>
    cases h
    rfl
  | addClass =>
    cases h
    exact congrArg Except.ok (Node.addClasses_addClasses _ n)
  | attr =>
    obtain ⟨name, hname, h⟩ := ok_of_bind h
    cases h
    rw [toNode, hname]
    cases written? value with
    | some v => exact congrArg Except.ok (Node.setAttr_setAttr name v.shown n)
    | none => exact congrArg Except.ok (Node.removeAttr_removeAttr name n)
  | prop =>
    obtain ⟨name, hname, h⟩ := ok_of_bind h
    cases h
    rw [toNode, hname]
    cases value with
    | some v => exact congrArg (fun props => Except.ok { n with props }) (Dict.insert_insert name v _)
    | none => exact congrArg (fun props => Except.ok { n with props }) (Dict.erase_erase name _)
  | css =>
    obtain ⟨name, hname, h⟩ := ok_of_bind h
    cases h
    rw [toNode, hname]
    cases written? value with
    | some v =>
      exact congrArg (fun styles => Except.ok { n with styles }) (Dict.insert_insert name v.shown _)
    | none => exact congrArg (fun styles => Except.ok { n with styles }) (Dict.erase_erase name _)
  | toggleAttr =>
    cases value with
    | none => exact absurd rfl (hc.resolve_left fun hne => hne rfl)
    | some force =>
      obtain ⟨name, hname, -⟩ := ok_of_bind h
      have hstep (m : Node) : toggleAttr.toNode args (some force) m =
          .ok (if force.isTruthy then m.setAttr name "" else m.removeAttr name) := by
        rw [toNode, hname]
        rfl
      rw [hstep] at h
      cases h
      rw [hstep]
      cases force.isTruthy with
      | true => exact congrArg Except.ok (Node.setAttr_setAttr name "" n)
      | false => exact congrArg Except.ok (Node.removeAttr_removeAttr name n)

theorem toNodes_of_error (he : ∀ n, c.toNode args value n = .error e) (targets : List NodeId)
    (d : Document) : c.toNodes args value targets d =
      (if targets.any fun id => (d.node? id).isSome then some e else none, d) := by
  induction targets with
  | nil => rfl
  | cons id rest ih =>
    rw [toNodes, List.any_cons]
    cases hn : d.node? id with
    | none => simpa only [Option.isSome_none, Bool.false_or] using ih
    | some n => simp only [he, Option.isSome_some, Bool.true_or, if_pos]

theorem iterate_again (hf : ∀ n, f (f n) = f n) (k : Nat) (n : Node) :
    f^[k] (f^[k] n) = f^[k] n := by
  cases k with
  | zero => rfl
  | succ k =>
    -- a node that is listed more than once is at rest after the first time
    have honce (n : Node) : f^[k + 1] n = f n := by
      rw [Function.iterate_succ_apply, Function.iterate_fixed (hf n)]
    rw [honce, honce, hf]

theorem toNodes_perm {targets targets' : List NodeId} (h : targets.Perm targets') (c : Change)
    (args : List Value) (value : Option Value) (d : Document) :
    c.toNodes args value targets d = c.toNodes args value targets' d := by
  rcases c.toNode_cases args value with ⟨f, hf⟩ | ⟨e, he⟩
  · obtain ⟨hnone, hnodes⟩ := node?_toNodes hf targets d
    obtain ⟨hnone', hnodes'⟩ := node?_toNodes hf targets' d
    refine Prod.ext (hnone.trans hnone'.symm) (Document.ext_node? fun id => ?_)
    rw [hnodes, hnodes', h.count_eq]
  · rw [toNodes_of_error he, toNodes_of_error he, h.any_eq]

theorem toNodes_again (hc : c ≠ .toggleAttr ∨ value ≠ none) (targets : List NodeId)
    (d : Document) : c.toNodes args value targets (c.toNodes args value targets d).2 =
      c.toNodes args value targets d := by
  rcases c.toNode_cases args value with ⟨f, hf⟩ | ⟨e, he⟩
  · obtain ⟨hnone, hnodes⟩ := node?_toNodes hf targets d
    obtain ⟨hnone', hnodes'⟩ := node?_toNodes hf targets (c.toNodes args value targets d).2
    have hagain (n : Node) : f (f n) = f n :=
      Except.ok.inj ((hf (f n)).symm.trans (toNode_again hc (hf n)))
    refine Prod.ext (hnone'.trans hnone.symm) (Document.ext_node? fun id => ?_)
    rw [hnodes', hnodes, Option.map_map]
    exact congrArg (Option.map · _) (funext (iterate_again hagain _))
  · rw [toNodes_of_error he, toNodes_of_error he]

theorem toNodes_elsewhere {targets : List NodeId} {id : NodeId} (hid : id ∉ targets) (c : Change)
    (args : List Value) (value : Option Value) (d : Document) :
    (c.toNodes args value targets d).2.node? id = d.node? id := by
  rcases c.toNode_cases args value with ⟨f, hf⟩ | ⟨e, he⟩
  · rw [(node?_toNodes hf targets d).2, List.count_eq_zero_of_not_mem hid]
    exact congrFun Option.map_id (d.node? id)
  · rw [toNodes_of_error he]

theorem toNodes_target {targets : List NodeId} {id : NodeId} (hid : targets.count id = 1)
    (hn : d.node? id = some n) (h : (c.toNodes args value targets d).1 = none) :
    ∃ n', c.toNode args value n = .ok n' ∧
      (c.toNodes args value targets d).2.node? id = some n' := by
  rcases c.toNode_cases args value with ⟨f, hf⟩ | ⟨e, he⟩
  · refine ⟨f n, hf n, ?_⟩
    rw [(node?_toNodes hf targets d).2, hid, hn]
    rfl
  · have hany : (targets.any fun id => (d.node? id).isSome) = true :=
      List.any_eq_true.mpr ⟨id, List.count_pos_iff.mp (hid ▸ Nat.one_pos), by rw [hn]; rfl⟩
    rw [toNodes_of_error he, if_pos hany] at h
    cases h

end Change

namespace Table

variable {ι κ : Type}

theorem mem_ofList {instructions : List (String × Instruction ι)} {entry : String × Entry ι}
    (h : entry ∈ (ofList instructions).entries) :
    ∃ p ∈ instructions, entry = (p.1, .leaf p.2) := by
  have hfold (t : Table ι) (h : entry ∈ (instructions.foldl (fun t p => t.set p.1 p.2) t).entries) :
      entry ∈ t.entries ∨ ∃ p ∈ instructions, entry = (p.1, .leaf p.2) := by
    clear * - h
    induction instructions generalizing t with
    | nil => exact .inl h
    | cons first rest ih =>
      rcases ih (t.set first.1 first.2) h with h | ⟨p, hp, h⟩
      · rcases Dict.mem_insert h with h | h
        · exact .inr ⟨first, List.mem_cons_self, h⟩
        · exact .inl h
      · exact .inr ⟨p, List.mem_cons_of_mem _ hp, h⟩
  exact (hfold empty h).resolve_left List.not_mem_nil

theorem mem_mapEntries {f : ι → κ} {entries : List (String × Entry ι)} {entry : String × Entry κ}
    (h : entry ∈ mapEntries f entries) : ∃ e ∈ entries, entry = (e.1, mapEntry f e.2) := by
  induction entries with
  | nil => cases h
  | cons first rest ih =>
    rw [mapEntries] at h
    rcases List.mem_cons.mp h with rfl | h
    · exact ⟨first, List.mem_cons_self, rfl⟩
    · obtain ⟨e, he, h⟩ := ih h
      exact ⟨e, List.mem_cons_of_mem _ he, h⟩

theorem mem_of_find? {entries : List (String × Entry ι)} {path : List String}
    {i : Instruction ι} (hflat : ∀ entry ∈ entries, ∃ i, entry.2 = .leaf i)
    (h : find? path entries = some i) : ∃ name, (name, .leaf i) ∈ entries := by
  cases path with
  | nil => cases h
  | cons name rest =>
    by_cases hrest : rest = []
    · rw [hrest, find?_singleton] at h
      split at h
      next i' hentry =>
        cases h
        exact ⟨name, Dict.mem_of_get? hentry⟩
      · cases h
    · rw [find?_cons name hrest] at h
      split at h
      next inner hentry =>
        obtain ⟨_, hleaf⟩ := hflat _ (Dict.mem_of_get? hentry)
        cases hleaf
      · cases h

end Table

/-- The changing instructions see no stack and ask for no values. -/
theorem Change.table_plain :
    ∀ entry ∈ table.entries, ∃ c : Change, entry.2 = .leaf (.plain c none) := by
  intro entry hentry
  obtain ⟨p, hp, rfl⟩ := Table.mem_ofList hentry
  have hlisted : ∀ p ∈ [("attr", Instruction.plain attr none), ("prop", .plain prop none),
      ("css", .plain css none), ("toggleAttr", .plain toggleAttr none), ("text", .plain text none),
      ("addClass", .plain addClass none)], ∃ c : Change, p.2 = .plain c none := by
    simp only [List.forall_mem_cons]
    exact ⟨⟨_, rfl⟩, ⟨_, rfl⟩, ⟨_, rfl⟩, ⟨_, rfl⟩, ⟨_, rfl⟩, ⟨_, rfl⟩, List.forall_mem_nil _⟩
  obtain ⟨c, hc⟩ := hlisted p hp
  exact ⟨c, congrArg Entry.leaf hc⟩

theorem Kit.exists_change {tables : Tables Kit} (htables : Kit.tables = .ok tables) {name : String}
    {i : Instruction Kit} (hi : tables.resolve .update name = .ok i) :
    ∃ c : Change, i = .plain (.change c) none := by
  have hupdate : tables.update = Change.table.map Kit.change := by
    unfold Kit.tables at htables
    split at htables
    · cases htables
    · cases htables
      rfl
  have hentries : ∀ entry ∈ tables.update.entries, ∃ c : Change,
      entry.2 = .leaf (.plain (.change c) none) := by
    rw [hupdate]
    intro entry hentry
    obtain ⟨p, hp, rfl⟩ := Table.mem_mapEntries hentry
    obtain ⟨c, hc⟩ := Change.table_plain p hp
    exact ⟨c, by rw [hc]; rfl⟩
  have hfound : Table.find? (Table.pathOf name) tables.update.entries = some i := by
    unfold Tables.resolve at hi
    split at hi
    next hget =>
      cases hi
      exact hget
    · cases hi
  obtain ⟨found, hmem⟩ := Table.mem_of_find?
    (fun entry hentry => (hentries entry hentry).imp' _ fun _ hc => hc) hfound
  obtain ⟨c, hc⟩ := hentries _ hmem
  exact ⟨c, Entry.leaf.inj hc⟩

/-- What no instruction changes of a node: its handle, its tag and its place in the tree. -/
def Node.standing (n : Node) : NodeId × String × Option NodeId × List NodeId :=
  (n.id, n.tag, n.parent, n.children)

theorem Node.Rewritten.standing {n m : Node} (h : n.Rewritten m) : m.standing = n.standing := by
  obtain ⟨_, _, _, _, _, _, rfl⟩ := h
  rfl

theorem Kit.perform_change (c : Change) (args : List Value) (ctx : Context) (s : Stack)
    (d : Document) : perform (.change c) args ctx s d =
      ((match (c.toNodes args ctx.data ctx.updatedNodes d).1 with
        | some e => .error e
        | none => .ok .nothing), { ctx with data := none }, s,
        (c.toNodes args ctx.data ctx.updatedNodes d).2, []) := rfl

/-- An instruction of the update table fails and changes nothing, or it replies nothing. It keeps
the stack and all of the context but the data that it takes. It changes nodes among those it is to
update alone, those that are listed once in the way it changes a node, and none of them in its
standing. Apart from toggling without a value, it does nothing more if it is run again, and the
order of the nodes to update does not matter. -/
theorem Kit.updates_atomic_local_repeatable {tables : Tables Kit} (htables : Kit.tables = .ok tables)
    {name : String} {i : Instruction Kit} (hi : tables.resolve .update name = .ok i) :
    ∃ c : Change, i = .plain (.change c) none ∧
      ∀ (args : List Value) (ctx : Context) (s : Stack) (d : Document), ∃ reply d',
        perform (.change c) args ctx s d = (reply, { ctx with data := none }, s, d', []) ∧
        ((∃ e, reply = .error e ∧ d' = d) ∨ reply = .ok .nothing ∧
          ∀ id n, d.node? id = some n → ctx.updatedNodes.count id = 1 →
            ∃ n', c.toNode args ctx.data n = .ok n' ∧ d'.node? id = some n') ∧
        (∀ id, id ∉ ctx.updatedNodes → d'.node? id = d.node? id) ∧
        d'.nodes.map Node.standing = d.nodes.map Node.standing ∧
        (c ≠ .toggleAttr ∨ ctx.data ≠ none →
          perform (.change c) args ctx s d' = (reply, { ctx with data := none }, s, d', [])) ∧
        ∀ ctx' : Context, ctx'.data = ctx.data → ctx'.updatedNodes.Perm ctx.updatedNodes →
          perform (.change c) args ctx' s d = (reply, { ctx' with data := none }, s, d', []) := by
  obtain ⟨c, rfl⟩ := exists_change htables hi
  refine ⟨c, rfl, fun args ctx s d => ⟨_, _, perform_change c args ctx s d, ?_, ?_, ?_, ?_, ?_⟩⟩
  · cases hend : (c.toNodes args ctx.data ctx.updatedNodes d).1 with
    | some e =>
      refine .inl ⟨e, rfl, ?_⟩
      rcases c.toNode_cases args ctx.data with ⟨f, hf⟩ | ⟨e', he⟩
      · rw [(Change.node?_toNodes hf _ d).1] at hend
        cases hend
      · rw [Change.toNodes_of_error he]
    | none => exact .inr ⟨rfl, fun id n hn hid => Change.toNodes_target hid hn hend⟩
  · exact fun id hid => Change.toNodes_elsewhere hid c args ctx.data d
  · exact Change.toNodes_leaves (fun _ _ h => h.standing) c args ctx.data _ d
  · intro hc
    rw [perform_change, Change.toNodes_again hc]
  · intro ctx' hdata hperm
    rw [perform_change, hdata, Change.toNodes_perm hperm]

/-- A node listed twice, a node that does not exist, and a value that is no node. -/
def mixedTargets : Context :=
  { Context.blank with
    data := some (.text "on top")
    updated := some (.list [.node ⟨1⟩, .node ⟨7⟩, .text "x", .node ⟨1⟩]) }

theorem mixedTargets_updated : ∃ tables, Kit.tables = .ok tables ∧
    tables.resolve .update "addClass" = .ok (.plain (.change .addClass) none) ∧
    ∃ d', Kit.perform (.change .addClass) [] mixedTargets .empty (Document.empty.create "p" none).2 =
        (.ok .nothing, { mixedTargets with data := none }, .empty, d', []) ∧
      Kit.perform (.change .addClass) [] mixedTargets .empty d' =
        (.ok .nothing, { mixedTargets with data := none }, .empty, d', []) := by
  have hresolved : Kit.tables.toOption.bind (fun tables =>
      (tables.resolve .update "addClass").toOption) = some (.plain (.change .addClass) none) := by
    decide +kernel
  obtain ⟨tables, htables, hi⟩ := Option.bind_eq_some_iff.mp hresolved
  have htables := ok_of_toOption htables
  have hi := ok_of_toOption hi
  refine ⟨tables, htables, hi, ?_⟩
  obtain ⟨c, hc, hall⟩ := Kit.updates_atomic_local_repeatable htables hi
  cases hc
  obtain ⟨reply, d', hrun, -, -, -, hagain, -⟩ :=
    hall [] mixedTargets .empty (Document.empty.create "p" none).2
  have hreply : reply = .ok .nothing := (congrArg Prod.fst hrun).symm
  subst hreply
  exact ⟨d', hrun, hagain (.inl (by decide))⟩

end AttrChain
