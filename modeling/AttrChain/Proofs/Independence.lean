import AttrChain.Proofs.Order

/-!
Independence of chains: what shows of a chain does not depend on what is done with any other chain
of its stage, be it one of its own copies. Each firing has an event of its own, with flags that no
other firing sees, so nothing passes between chains by way of events.
-/

namespace AttrChain

variable {ι ε ω : Type}

/-- What shows of a chain: its firings with their results, its buffer and its labels. -/
structure View where
  firings : List Firing
  buffer : List Value
  labels : Option (List String)

def Act.runs (id : ChainId) : Act → Bool
  | .fire a _ _ => a = id
  | .poll a _ => a = id
  | .rebind _ _ => false

namespace Course

def view (p : Course ι ε) (id : ChainId) : View :=
  ⟨p.firings id, p.stage.buffer id, (p.stage.chain? id).map Chain.labels⟩

structure Alike (id : ChainId) (c : Chain ι) (p q : Course ι ε) : Prop where
  left : p.Rests id c
  right : q.Rests id c
  firings : p.firings id = q.firings id

theorem Alike.view {id : ChainId} {c : Chain ι} {p q : Course ι ε} (hpq : Alike id c p q) :
    p.view id = q.view id := by
  have hslots : p.stage.slots[id.index]? = q.stage.slots[id.index]? :=
    hpq.left.trans hpq.right.symm
  simp only [Course.view, hpq.firings, Stage.buffer, Stage.chain?, hslots]

variable {h : Host ι ε} {p q : Course ι ε}

theorem record_rests_of_ne {id a : ChainId} (ha : a ≠ id) {c : Chain ι} (hc : p.Rests a c)
    (d : Chain ι) (state : ε) (rejections : List Rejection) (firings : List Firing) :
    (p.record id d state rejections firings).Rests a c :=
  (record_slot_of_ne p ha d state rejections firings).trans hc

theorem act_of_not_runs (hp : p.Holds Orderly) {a : ChainId} {c : Chain ι} (hc : p.Rests a c)
    {act : Act} (hact : act.runs a = false) :
    (p.act h act).Rests a c ∧ (p.act h act).firings a = p.firings a := by
  cases act with
  | fire id event ctx =>
    have ha : a ≠ id := by
      rintro rfl
      simp [Act.runs] at hact
    rcases hp id with ⟨d, hd, -⟩ | ⟨hn, -⟩
    · rw [Course.act, fire_eq h hd]
      exact ⟨record_rests_of_ne ha hc .., record_firings_of_ne p ha ..⟩
    · have hchain : p.stage.chain? id = none := by simp [Stage.chain?, hn]
      rw [Course.act, fire, hchain]
      exact ⟨hc, rfl⟩
  | poll id n =>
    have ha : a ≠ id := by
      rintro rfl
      simp [Act.runs] at hact
    rcases hp id with ⟨d, hd, hfs⟩ | ⟨-, hnone⟩
    · cases hf : (p.firings id)[n]? with
      | none =>
        rw [Course.act, poll, hf]
        exact ⟨hc, rfl⟩
      | some f =>
        cases hr : f.rest? with
        | none =>
          rw [Course.act, poll, hf, hd.chain]
          simp only [hr]
          exact ⟨hc, trivial⟩
        | some rest =>
          have hid := (hfs f (List.mem_of_getElem? hf)).home rest hr
          rw [Course.act, poll_eq h hd hf hr hid]
          exact ⟨record_rests_of_ne ha hc .., record_firings_of_ne p ha ..⟩
    · rw [Course.act, poll, hnone]
      exact ⟨hc, rfl⟩
  | rebind id initial =>
    have ha := (List.getElem?_eq_some_iff.mp hc).1
    rw [Course.act, rebind]
    split
    · exact ⟨hc, rfl⟩
    · refine ⟨?_, rfl⟩
      simpa only [Rests, Stage.addChain, List.getElem?_append_left ha] using hc

end Course
end AttrChain
