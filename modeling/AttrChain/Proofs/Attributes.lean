import AttrChain.Kit.Change
import AttrChain.Proofs.Conjunction
import Mathlib.Data.List.Nodup
import Mathlib.Logic.Function.Iterate

/-!
What is read of an attribute that was set or removed. Every attribute but the classes is read back
as it was written; the classes are not read as an attribute at all.
-/

namespace AttrChain

namespace Node

variable {n : Node} {name other value c d : String}

theorem attr?_addClass (c : String) (n : Node) : (n.addClass c).attr? = n.attr? := by
  unfold addClass
  split <;> rfl

theorem attr?_addClasses (cs : List String) (n : Node) : (n.addClasses cs).attr? = n.attr? := by
  unfold addClasses
  induction cs generalizing n with
  | nil => rfl
  | cons c rest ih => exact (ih _).trans (attr?_addClass c n)

theorem hasClass_addClass : (n.addClass c).hasClass d = true ↔ d = c ∨ n.hasClass d = true := by
  unfold addClass
  split
  · next h =>
    refine (or_iff_right_of_imp ?_).symm
    rintro rfl
    exact h
  · simp [hasClass, or_comm]

theorem hasClass_addClasses {cs : List String} :
    (n.addClasses cs).hasClass d = true ↔ d ∈ cs ∨ n.hasClass d = true := by
  unfold addClasses
  induction cs generalizing n with
  | nil => exact (or_iff_right List.not_mem_nil).symm
  | cons c cs ih =>
    rw [List.foldl_cons, ih, hasClass_addClass, List.mem_cons, or_left_comm, or_assoc]

theorem hasClass_setAttr_class :
    (n.setAttr "class" value).hasClass d = true ↔ d ∈ Text.wordsOf value := by
  rw [setAttr, if_neg (by decide), if_pos rfl, hasClass_addClasses]
  exact or_iff_left Bool.false_ne_true

def write (name : String) : Option String → Node → Node
  | some value => setAttr name value
  | none => removeAttr name

theorem attr?_write (hname : name ≠ "class") (v : Option String) (n : Node) :
    (n.write name v).attr? other = if other = name then v else n.attr? other := by
  by_cases hid : name = "id"
  · -- the identifier has a place of its own and is no entry of the dictionary
    subst hid
    have hwrite : n.write "id" v = { n with name := v } := by cases v <;> rfl
    rw [hwrite, attr?, attr?]
    by_cases ho : other = "id"
    · rw [if_pos ho, if_pos ho]
    · rw [if_neg ho, if_neg ho, if_neg ho]
  · have hwrite : (n.write name v).name = n.name ∧ Dict.get? other (n.write name v).attrs =
        if other = name then v else Dict.get? other n.attrs := by
      cases v with
      | some value =>
        rw [write, setAttr, if_neg hid, if_neg hname]
        exact ⟨rfl, Dict.get?_insert name other value n.attrs⟩
      | none =>
        rw [write, removeAttr, if_neg hid, if_neg hname]
        exact ⟨rfl, Dict.get?_erase name other n.attrs⟩
    rw [attr?, attr?, hwrite.1, hwrite.2]
    by_cases ho : other = "id"
    · rw [if_pos ho, if_pos ho, if_neg (ho ▸ Ne.symm hid)]
    · rw [if_neg ho, if_neg ho]

theorem attr?_write_class (v : Option String) (n : Node) : (n.write "class" v).attr? = n.attr? := by
  cases v with
  | some value => exact attr?_addClasses _ _
  | none => rfl

theorem attr?_write_of_ne (h : other ≠ name) (v : Option String) (n : Node) :
    (n.write name v).attr? other = n.attr? other := by
  by_cases hname : name = "class"
  · rw [hname, attr?_write_class]
  · rw [attr?_write hname, if_neg h]

theorem attr?_class_write (v : Option String) (n : Node) :
    (n.write name v).attr? "class" = n.attr? "class" := by
  by_cases hname : name = "class"
  · rw [hname, attr?_write_class]
  · exact attr?_write_of_ne (Ne.symm hname) v n

/-- The nodes that are made and then changed, by setting and removing attributes, by adding classes
and elsewhere than in these. -/
inductive Edited : Node → Prop
  | blank (id : NodeId) (tag : String) (parent : Option NodeId) : Edited (.blank id tag parent)
  | set {n : Node} (name value : String) : Edited n → Edited (n.setAttr name value)
  | remove {n : Node} (name : String) : Edited n → Edited (n.removeAttr name)
  | addClass {n : Node} (c : String) : Edited n → Edited (n.addClass c)
  | elsewhere {n m : Node} : Edited n → m.name = n.name → m.classes = n.classes →
      m.attrs = n.attrs → Edited m

theorem Edited.attr?_class_eq_none (h : n.Edited) : n.attr? "class" = none := by
  induction h with
  | blank => rfl
  | set name value _ ih => exact (attr?_class_write (some value) _).trans ih
  | remove name _ ih => exact (attr?_class_write none _).trans ih
  | addClass c _ ih => rw [attr?_addClass, ih]
  | elsewhere _ hsame _ hattrs ih =>
    rw [attr?, hattrs, hsame]
    exact ih

theorem Edited.attr?_write_self (h : n.Edited) (v : Option String) :
    (n.write name v).attr? name = if name = "class" then none else v := by
  by_cases hname : name = "class"
  · rw [if_pos hname, hname, attr?_write_class, h.attr?_class_eq_none]
  · rw [if_neg hname, attr?_write hname, if_pos rfl]

def toggled (name : String) (n : Node) : Node :=
  n.write name (if (n.attr? name).isNone then some "" else none)

theorem Edited.write (h : n.Edited) (name : String) (v : Option String) :
    (n.write name v).Edited := by
  cases v with
  | some value => exact h.set name value
  | none => exact h.remove name

theorem Edited.isSome_toggled (h : n.Edited) : ((n.toggled name).attr? name).isSome = true ↔
    name ≠ "class" ∧ n.attr? name = none := by
  rw [toggled, h.attr?_write_self]
  by_cases hname : name = "class"
  · simp [hname]
  · cases hvalue : n.attr? name <;> simp [hname]

theorem Edited.isSome_toggled_twice (h : n.Edited) :
    (((n.toggled name).toggled name).attr? name).isSome = (n.attr? name).isSome := by
  have htoggled : (n.toggled name).Edited := h.write name _
  rw [Bool.eq_iff_iff, htoggled.isSome_toggled]
  by_cases hname : name = "class"
  · rw [hname, h.attr?_class_eq_none]
    exact iff_of_false (fun hne => hne.1 rfl) Bool.false_ne_true
  · rw [← Option.not_isSome_iff_eq_none, h.isSome_toggled, ← Option.ne_none_iff_isSome]
    constructor
    · rintro ⟨-, hnot⟩ hnone
      exact hnot ⟨hname, hnone⟩
    · intro hsome
      exact ⟨hname, fun hnone => hsome hnone.2⟩

end Node

def Context.updatedNodes (ctx : Context) : List NodeId := (ctx.updated.map Value.nodes).getD []

theorem Document.node?_modify (d : Document) (id other : NodeId) (f : Node → Node) :
    (d.modify id f).node? other =
      if other = id then (d.node? other).map f else d.node? other := by
  obtain ⟨i⟩ := id
  obtain ⟨j⟩ := other
  simp only [node?, modify, List.getElem?_modify, NodeId.mk.injEq, eq_comm (a := j)]
  by_cases hij : i = j <;> simp [hij]

namespace Change

variable {c : Change} {args : List Value} {ctx : Context} {f : Node → Node}

/-- What no node fails is done to each node as often as it is listed. -/
theorem node?_toNodes {value : Option Value} (hf : ∀ n, c.toNode args value n = .ok (f n))
    (targets : List NodeId) (d : Document) :
    (c.toNodes args value targets d).1 = none ∧ ∀ id,
      (c.toNodes args value targets d).2.node? id = (d.node? id).map f^[targets.count id] := by
  induction targets generalizing d with
  | nil => exact ⟨rfl, fun id => (congrFun Option.map_id (d.node? id)).symm⟩
  | cons id rest ih =>
    rw [toNodes]
    cases hn : d.node? id with
    | none =>
      obtain ⟨herror, hnodes⟩ := ih d
      refine ⟨herror, fun other => (hnodes other).trans ?_⟩
      by_cases ho : id = other
      · rw [← ho, hn]
        rfl
      · rw [List.count_cons_of_ne ho]
    | some n =>
      simp only [hf]
      obtain ⟨herror, hnodes⟩ := ih (d.modify id fun _ => f n)
      refine ⟨herror, fun other => (hnodes other).trans ?_⟩
      rw [Document.node?_modify]
      by_cases ho : id = other
      · rw [← ho, if_pos rfl, hn, List.count_cons_self]
        rfl
      · rw [if_neg (Ne.symm ho), List.count_cons_of_ne ho]

theorem perform_ok {d : Document}
    (h : (c.toNodes args ctx.data ctx.updatedNodes d).1 = none) : c.perform args ctx d =
      (.ok .nothing, { ctx with data := none },
        (c.toNodes args ctx.data ctx.updatedNodes d).2) := by
  unfold Context.updatedNodes at h ⊢
  unfold perform
  dsimp only
  rw [h]

theorem toNode_toggleAttr (name : String) (more : List Value) (n : Node) :
    toggleAttr.toNode (.text name :: more) none n = .ok (n.toggled name) := by
  have hstep : toggleAttr.toNode (.text name :: more) none n =
      .ok (if (n.attr? name).isNone then n.setAttr name "" else n.removeAttr name) := rfl
  rw [hstep, Node.toggled]
  cases n.attr? name <;> rfl

theorem perform_toggleAttr (name : String) (more : List Value) (hdata : ctx.data = none)
    (hnodup : ctx.updatedNodes.Nodup) (d : Document) :
    ∃ d', toggleAttr.perform (.text name :: more) ctx d = (.ok .nothing, ctx, d') ∧
      ∀ id, d'.node? id =
        if id ∈ ctx.updatedNodes then (d.node? id).map (Node.toggled name) else d.node? id := by
  obtain ⟨herror, hnodes⟩ := node?_toNodes (toNode_toggleAttr name more) ctx.updatedNodes d
  rw [← hdata] at herror hnodes
  have hsame : { ctx with data := none } = ctx := by
    rw [← hdata]
  refine ⟨_, (perform_ok herror).trans (by rw [hsame]), fun id => ?_⟩
  rw [hnodes, hnodup.count]
  split
  · rfl
  · exact congrFun Option.map_id (d.node? id)

end Change

theorem Selector.exists_read_presence {name : String} (h : (AttrTest.mk name none).Spelled) :
    ∃ s, Selector.read ("[" ++ name ++ "]") = .ok s ∧
      ∀ e ancestors, s.matchesPath (e :: ancestors) = (e.attr name).isSome := by
  have hwritten : String.ofList (Simple.attr ⟨name, none⟩ h).written = "[" ++ name ++ "]" := by
    rw [← String.toList_inj, String.toList_ofList]
    simp [Simple.written, AttrTest.written, AttrTest.body]
  rw [← hwritten]
  exact (Simple.attr ⟨name, none⟩ h).exists_read

/-- Of an edited node every attribute but `class` is read as it was written, and what is written to
`class` is read as classes only. No writing is seen under other names. So the selector `[name]`
matches after the attribute was set, and toggling it puts it there and away in turn, if it is not
`class`: this one is never there. -/
theorem Node.Edited.read_back_but_class {n : Node} (h : n.Edited) (name value : String) :
    ((n.setAttr name value).attr? name = if name = "class" then none else some value) ∧
    (∀ c, (n.setAttr "class" value).hasClass c = true ↔ c ∈ Text.wordsOf value) ∧
    (n.removeAttr name).attr? name = none ∧
    (∀ other, other ≠ name → (n.setAttr name value).attr? other = n.attr? other ∧
      (n.removeAttr name).attr? other = n.attr? other) ∧
    ((AttrTest.mk name none).Spelled → ∃ s, Selector.read ("[" ++ name ++ "]") = .ok s ∧
      ∀ ancestors, (s.matchesPath ((n.setAttr name value).element :: ancestors) = true ↔
          name ≠ "class") ∧
        s.matchesPath ((n.removeAttr name).element :: ancestors) = false) ∧
    ∀ (d : Document) (ctx : Context) (id : NodeId) (more : List Value), d.node? id = some n →
      ctx.data = none → ctx.updatedNodes.Nodup → id ∈ ctx.updatedNodes →
      ∃ once twice n₁ n₂,
        Change.toggleAttr.perform (.text name :: more) ctx d = (.ok .nothing, ctx, once) ∧
        Change.toggleAttr.perform (.text name :: more) ctx once = (.ok .nothing, ctx, twice) ∧
        once.node? id = some n₁ ∧ twice.node? id = some n₂ ∧
        ((n₁.attr? name).isSome = true ↔ name ≠ "class" ∧ n.attr? name = none) ∧
        (n₂.attr? name).isSome = (n.attr? name).isSome := by
  have hset : (n.setAttr name value).attr? name = if name = "class" then none else some value :=
    h.attr?_write_self (some value)
  have hremove : (n.removeAttr name).attr? name = none :=
    (h.attr?_write_self none).trans (ite_self none)
  refine ⟨hset, fun c => Node.hasClass_setAttr_class, hremove, fun other ho =>
    ⟨Node.attr?_write_of_ne ho (some value) n, Node.attr?_write_of_ne ho none n⟩, ?_, ?_⟩
  · intro hspelled
    obtain ⟨s, hread, hmatches⟩ := Selector.exists_read_presence hspelled
    refine ⟨s, hread, fun ancestors => ?_⟩
    have hattr (m : Node) : m.element.attr = m.attr? := rfl
    rw [hmatches, hmatches, hattr, hattr, hset, hremove]
    refine ⟨?_, Option.isSome_none⟩
    by_cases hname : name = "class" <;> simp [hname]
  · intro d ctx id more hn hdata hnodup hid
    obtain ⟨once, honce, hnodes⟩ := Change.perform_toggleAttr name more hdata hnodup d
    obtain ⟨twice, htwice, hnodes'⟩ := Change.perform_toggleAttr name more hdata hnodup once
    have hfirst := hnodes id
    rw [if_pos hid, hn, Option.map_some] at hfirst
    have hsecond := hnodes' id
    rw [if_pos hid, hfirst, Option.map_some] at hsecond
    exact ⟨once, twice, _, _, honce, htwice, hfirst, hsecond, h.isSome_toggled,
      h.isSome_toggled_twice⟩

def Node.listed : Node :=
  (((Node.blank ⟨1⟩ "li" (some ⟨0⟩)).setAttr "id" "first").setAttr "data-i" "1").addClass "on"

theorem Node.listed_edited : Node.listed.Edited :=
  (((Edited.blank ⟨1⟩ "li" (some ⟨0⟩)).set "id" "first").set "data-i" "1").addClass "on"

theorem Node.listed_read_back : (Node.listed.setAttr "data-i" "2").attr? "data-i" = some "2" ∧
    (Node.listed.removeAttr "data-i").attr? "data-i" = none ∧
    (Node.listed.setAttr "data-i" "2").attr? "id" = some "first" ∧
    (∃ s, Selector.read "[data-i]" = .ok s ∧
      s.matchesPath [(Node.listed.setAttr "data-i" "2").element] = true ∧
      s.matchesPath [(Node.listed.removeAttr "data-i").element] = false) ∧
    ∃ once n₁, Change.toggleAttr.perform [.text "data-i"]
        { Context.blank with updated := some (.node ⟨1⟩) }
        ⟨[Node.blank ⟨0⟩ "html" none, Node.listed]⟩ =
          (.ok .nothing, { Context.blank with updated := some (.node ⟨1⟩) }, once) ∧
      once.node? ⟨1⟩ = some n₁ ∧ (n₁.attr? "data-i").isSome = false := by
  obtain ⟨hset, -, hremove, hother, hselector, htoggle⟩ :=
    Node.listed_edited.read_back_but_class "data-i" "2"
  obtain ⟨s, hread, hmatches⟩ := hselector (by decide +kernel)
  obtain ⟨once, twice, n₁, n₂, honce, -, hn₁, -, hflip, -⟩ :=
    htoggle ⟨[Node.blank ⟨0⟩ "html" none, Node.listed]⟩
      { Context.blank with updated := some (.node ⟨1⟩) } ⟨1⟩ [] rfl rfl
      (List.pairwise_singleton _ _) List.mem_cons_self
  refine ⟨hset, hremove, (hother "id" (by decide)).1,
    ⟨s, hread, (hmatches []).1.mpr (by decide), (hmatches []).2⟩, once, n₁, honce, hn₁, ?_⟩
  have hthere : Node.listed.attr? "data-i" = some "1" := by decide +kernel
  rw [← Bool.not_eq_true, hflip, hthere]
  exact fun h => nomatch h.2

/-- A class that was written as an attribute is not read as one. -/
theorem Node.listed_class_not_read : (Node.listed.setAttr "class" "on").attr? "class" = none ∧
    (Node.listed.setAttr "class" "on").hasClass "on" = true := by
  decide +kernel

end AttrChain
