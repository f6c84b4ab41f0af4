import AttrChain.Proofs.Backstage
import AttrChain.Proofs.Behaviour

/-!
Values of updates: one that is there at once becomes the target of further updates and flows no
further, but one that has to be waited for flows on as the value of a call does, and leaves the
target as it is.
-/

namespace AttrChain

variable {ι σ : Type}

def Frame.retarget (v : Value) (f : Frame σ) : Frame σ :=
  { f with ctx := { f.ctx with updated := some v } }

namespace Cell

/-- What the instruction of a cell returns, and the frame that it leaves. -/
def reply (h : Host ι σ) (i : Nat) (c : Cell ι) (incoming : Option Value) (f : Frame σ) :
    Except Error Reply × Frame σ :=
  c.perform h i (c.prepare incoming f).1 (c.prepare incoming f).2

variable {h : Host ι σ} {i : Nat} {c : Cell ι} {incoming : Option Value} {f g : Frame σ}

theorem invoke_update_at_once (hu : c.isUpdate = true) {v : Value}
    (hr : c.reply h i incoming f = (.ok (.done (some v)), g)) :
    c.invoke h i incoming f = (.ok .nothing, g.retarget v) := by
  rw [invoke_eq, show c.perform h i _ _ = _ from hr]
  simp only [result, hu]
  rfl

theorem invoke_pending {p : Promise} (hr : c.reply h i incoming f = (.ok (.pending p), g)) :
    c.invoke h i incoming f = (.ok (.pending p), g) := by
  rw [invoke_eq, show c.perform h i _ _ = _ from hr]
  rfl

end Cell

namespace Chain

def goOn (h : Host ι σ) (look : Promise → σ → Option Settlement) (c : Chain ι) (i : Nat)
    (value : Option Value) (f : Frame σ) : Halt × Frame σ :=
  match (c.leave f).next? i with
  | some j => (c.follow h look j value f).2
  | none => (.done value, f)

variable {h : Host ι σ} {look : Promise → σ → Option Settlement} {c : Chain ι} {i : Nat}
  {cell : Cell ι} {incoming : Option Value} {f g : Frame σ}

theorem follow_passes {value : Option Value} (hc : c.cells[i]? = some cell)
    (ht : c.turn h look i cell incoming f = ⟨.passes value, (c.leave g).next? i, g⟩) :
    (c.follow h look i incoming f).2 = c.goOn h look i value g := by
  unfold goOn
  cases hn : (c.leave g).next? i with
  | none =>
    rw [hn] at ht
    rw [follow_of_halt hc ht rfl]
    rfl
  | some j =>
    rw [hn] at ht
    rw [follow_of_onward hc ht rfl]

/-- Where the value of an update goes. If it is returned at once, it becomes the target of updates
and the run goes on without a value. If it is returned late, the run goes on with it, whether the
promise is looked at in the same run or after the firing was suspended, and the target of updates
is the one that the instruction has left. -/
theorem update_value (h : Host ι σ) (look : Promise → σ → Option Settlement) (c : Chain ι) (i : Nat)
    (cell : Cell ι) (incoming : Option Value) (f : Frame σ) (v : Value)
    (hc : c.cells[i]? = some cell) (hu : cell.isUpdate = true) :
    let r := cell.reply h i incoming f
    let next := (c.leave r.2).next? i
    (r.1 = .ok (.done (some v)) →
      (c.follow h look i incoming f).2 = c.goOn h look i none (r.2.retarget v)) ∧
    (∀ p, r.1 = .ok (.pending p) → look p r.2.host = some (.fulfilled (some v)) →
      (c.follow h look i incoming f).2 = c.goOn h look i (some v) r.2) ∧
    (∀ p, r.1 = .ok (.pending p) → look p r.2.host = none →
      (c.follow h look i incoming f).2 = (.waiting p next, r.2) ∧
      ∀ id state, h.settlement? p state = some (.fulfilled (some v)) →
        ∃ visits, (c.leave r.2).proceed h ⟨id, p, next, r.2.ctx⟩ state =
          .of h id (c.leave r.2) (visits,
            c.goOn h h.settlement? i (some v) ⟨r.2.ctx, r.2.stack, r.2.cuts, state⟩)) := by
  intro r next
  cases hr : r with
  | mk reply g =>
    have hr' : cell.reply h i incoming f = (reply, g) := hr
    refine ⟨?_, ?_, ?_⟩
    · rintro rfl
      refine follow_passes hc ?_
      unfold turn
      rw [Cell.invoke_update_at_once hu hr']
      rfl
    · rintro p rfl hp
      refine follow_passes hc ?_
      unfold turn
      rw [Cell.invoke_pending hr']
      simp only [Verdict.of, show look p g.host = _ from hp]
    · rintro p rfl hp
      have ht : c.turn h look i cell incoming f = ⟨.waits p, (c.leave g).next? i, g⟩ := by
        unfold turn
        rw [Cell.invoke_pending hr']
        simp only [Verdict.of, show look p g.host = _ from hp]
      subst next
      rw [hr]
      refine ⟨?_, ?_⟩
      · rw [follow_of_halt hc ht rfl]
        rfl
      · intro id state hs
        unfold proceed goOn
        simp only [hs, follow_leave]
        have hnext : (c.leave (⟨g.ctx, g.stack, g.cuts, state⟩ : Frame σ)).next? i =
            (c.leave g).next? i := rfl
        rw [hnext]
        cases (c.leave g).next? i with
        | none => exact ⟨[], rfl⟩
        | some j => exact ⟨_, rfl⟩

def soleUpdate (reply : Reply) : Chain (Except Error Reply) :=
  .ofCells [] [.update (.plain (.ok reply) none) ⟨"ret", []⟩]

theorem soleUpdate_at_once :
    ((soleUpdate (.value (.bool true))).follow Behaviour.echo.host (fun _ _ => none) 1 none
      ⟨.blank, .empty, [], fun _ => none⟩).2 =
      (.done none, ⟨{ Context.blank with updated := some (.bool true) }, .empty, [],
        fun _ => none⟩) :=
  (update_value Behaviour.echo.host (fun _ _ => none) (soleUpdate (.value (.bool true))) 1 _ none
    ⟨.blank, .empty, [], fun _ => none⟩ (.bool true) rfl rfl).1 rfl

/-- The late value of an update is the last value of its firing, and no target of updates. -/
theorem soleUpdate_late :
    ∃ f s o t,
      (Stage.ofChains [soleUpdate (.pending (.settled (.fulfilled (some (.bool true)))))]
        fun _ => none).fire Behaviour.echo.host.onStage ⟨0⟩ (.fresh "click" ⟨0⟩ none) .blank =
          (.suspended f, s) ∧
      s.poll Behaviour.echo.host.onStage f = (.done o, t) ∧
      o.value = some (.bool true) ∧ o.ctx.updated = none :=
  ⟨_, _, _, _, rfl, rfl, rfl, rfl⟩

end Chain
end AttrChain
