import AttrChain.Proofs.Overlap
import AttrChain.Scene.Report

/-!
What becomes of records while a scene runs: each is opened pending, and closed when its firing ends.
A firing that is suspended has the place of its record, so no two of them close the same one, and
when nothing is outstanding no record is pending.
-/

namespace AttrChain

variable {ι ε : Type}

/-- The record at a later time: it says the same of its call, and is closed at most once. -/
def Record.Later (r r' : Record) : Prop :=
  r'.call = r.call ∧ (r' = r ∨ r.status = .pending ∧ r'.status ≠ .pending)

def Grown (rs rs' : List Record) : Prop :=
  ∀ (i : Nat) (r : Record), rs[i]? = some r → ∃ r', rs'[i]? = some r' ∧ r.Later r'

/-- One entry at most: a record is opened, or a pending one is closed. -/
inductive Entered : List Record → List Record → Prop
  | nothing (rs) : Entered rs rs
  | opened (rs) {r : Record} : r.status = .pending → Entered rs (rs ++ [r])
  | closed {rs} {i : Nat} {r : Record} {status : Status} (value : Option Value) :
      rs[i]? = some r → r.status = .pending → status ≠ .pending →
      Entered rs (rs.set i { r with status, value })

theorem Record.Later.refl (r : Record) : r.Later r := ⟨rfl, .inl rfl⟩

theorem Record.Later.trans {r r' r'' : Record} (h : r.Later r') (h' : r'.Later r'') :
    r.Later r'' := by
  refine ⟨h'.1.trans h.1, ?_⟩
  rcases h.2 with rfl | ⟨hpending, hclosed⟩
  · exact h'.2
  · rcases h'.2 with rfl | ⟨hpending', -⟩
    · exact .inr ⟨hpending, hclosed⟩
    · exact absurd hpending' hclosed

instance : Trans Grown Grown Grown where
  trans := by
    intro rs rs' rs'' h h' i r hr
    obtain ⟨r', hr', hlater⟩ := h i r hr
    obtain ⟨r'', hr'', hlater'⟩ := h' i r' hr'
    exact ⟨r'', hr'', hlater.trans hlater'⟩

theorem Entered.grown {rs rs' : List Record} (h : Entered rs rs') : Grown rs rs' := by
  intro i r hr
  cases h with
  | nothing => exact ⟨r, hr, .refl r⟩
  | opened _ =>
    refine ⟨r, ?_, .refl r⟩
    rw [List.getElem?_append_left (List.getElem?_eq_some_iff.mp hr).1]
    exact hr
  | @closed j r' status value hr' hpending hstatus =>
    by_cases hij : j = i
    · subst hij
      cases hr'.symm.trans hr
      refine ⟨{ r with status, value }, ?_, rfl, .inr ⟨hpending, hstatus⟩⟩
      exact List.getElem?_set_self (List.getElem?_eq_some_iff.mp hr).1
    · refine ⟨r, ?_, .refl r⟩
      rw [List.getElem?_set_ne hij]
      exact hr

namespace Stage

def tasks (s : Stage ι ε) : List Task := s.waiting ++ s.ready ++ s.fresh

/-- The places of the pending records are those of the suspended firings, and of those that are
being run. -/
structure Accounted (s : Stage ι ε) (running : List Nat) : Prop where
  distinct : (running ++ s.tasks.map Task.record).Nodup
  pending : ∀ i, (∃ r, s.records[i]? = some r ∧ r.status = .pending) ↔
    i ∈ running ++ s.tasks.map Task.record

variable {s t : Stage ι ε} {running : List Nat} {slot : Nat}

theorem tasks_of_account (ht : t.account = s.account) : t.tasks = s.tasks := by
  simp only [account, queues, Prod.mk.injEq] at ht
  simp only [tasks, ht]

theorem Accounted.of_account (hs : s.Accounted running) (ht : t.account = s.account) :
    t.Accounted running := by
  have hrecords : t.records = s.records := (Prod.mk.inj ht).2
  constructor
  · rw [tasks_of_account ht]
    exact hs.distinct
  · rw [tasks_of_account ht, hrecords]
    exact hs.pending

theorem Accounted.open (hs : s.Accounted running) {r : Record} (hr : r.status = .pending) :
    Accounted { s with records := s.records ++ [r] } (s.records.length :: running) := by
  have hbound : ∀ i ∈ running ++ s.tasks.map Task.record, i < s.records.length := by
    intro i hi
    obtain ⟨r', hr', -⟩ := (hs.pending i).mpr hi
    exact (List.getElem?_eq_some_iff.mp hr').1
  constructor
  · refine List.nodup_cons.mpr ⟨?_, hs.distinct⟩
    intro hmem
    exact Nat.lt_irrefl _ (hbound _ hmem)
  · intro i
    rw [List.cons_append, List.mem_cons]
    change _ ↔ i = s.records.length ∨ i ∈ running ++ s.tasks.map Task.record
    by_cases hi : i = s.records.length
    · subst hi
      simp [hr]
    · rw [← hs.pending i, or_iff_right hi]
      rcases Nat.lt_or_gt_of_ne hi with hlt | hgt
      · rw [List.getElem?_append_left hlt]
      · have hnone : s.records[i]? = none := List.getElem?_eq_none_iff.mpr (Nat.le_of_lt hgt)
        have hnone' : (s.records ++ [r])[i]? = none := by
          apply List.getElem?_eq_none_iff.mpr
          simpa using Nat.succ_le_of_lt hgt
        simp only [hnone, hnone']

theorem Accounted.close (hs : s.Accounted (slot :: running)) {status : Status}
    (hstatus : status ≠ .pending) (value : Option Value) :
    Entered s.records (s.setRecord slot status value).records ∧
      (s.setRecord slot status value).Accounted running := by
  obtain ⟨r, hr, hpending⟩ := (hs.pending slot).mpr (List.mem_cons_self ..)
  have hset : (s.setRecord slot status value).records =
      s.records.set slot { r with status, value } := by
    simp [setRecord, List.modify_eq_set_getElem?, hr]
  obtain ⟨hslot, hdistinct⟩ := List.nodup_cons.mp hs.distinct
  refine ⟨hset ▸ .closed value hr hpending hstatus, hdistinct, ?_⟩
  intro i
  rw [hset]
  change _ ↔ i ∈ running ++ s.tasks.map Task.record
  have hrest := hs.pending i
  rw [List.cons_append, List.mem_cons] at hrest
  by_cases hi : slot = i
  · subst hi
    rw [List.getElem?_set_self (List.getElem?_eq_some_iff.mp hr).1]
    refine iff_of_false ?_ hslot
    rintro ⟨r', ⟨⟩, hstill⟩
    exact hstatus hstill
  · rw [List.getElem?_set_ne hi, hrest, or_iff_right (Ne.symm hi)]

theorem Accounted.suspend (hs : s.Accounted (slot :: running)) (f : Suspended) :
    Accounted { s with fresh := s.fresh ++ [⟨slot, f⟩] } running := by
  have hperm : (slot :: running ++ s.tasks.map Task.record).Perm
      (running ++ (tasks { s with fresh := s.fresh ++ [⟨slot, f⟩] }).map Task.record) := by
    simp only [tasks, ← List.append_assoc, List.map_append, List.map_cons, List.map_nil]
    exact (List.perm_append_singleton _ _).symm
  constructor
  · exact hperm.nodup_iff.mp hs.distinct
  · intro i
    rw [← hperm.mem_iff]
    exact hs.pending i

theorem Accounted.none_pending (hs : s.Accounted []) (hqueues : s.queues = ([], [], [])) :
    ∀ r ∈ s.records, r.status ≠ .pending := by
  intro r hr hpending
  obtain ⟨i, hi⟩ := List.getElem?_of_mem hr
  have hmem := (hs.pending i).mp ⟨r, hi, hpending⟩
  simp only [queues, Prod.mk.injEq] at hqueues
  simp [tasks, hqueues] at hmem

end Stage

/-- The stages come one after the other, with one entry at most from one to the next. -/
inductive Stretch : Stage ι ε → List (Stage ι ε) → Stage ι ε → Prop
  | nil {s t} : t.records = s.records → Stretch s [] t
  | cons {s t u} {rest : List (Stage ι ε)} : Entered s.records t.records → Stretch t rest u →
      Stretch s (t :: rest) u

namespace Stretch

variable {s t u : Stage ι ε} {stages more : List (Stage ι ε)}

theorem of_records (hr : t.records = s.records) (hst : Stretch t stages u) :
    Stretch s stages u := by
  cases hst with
  | nil hend => exact .nil (hend.trans hr)
  | cons hfirst hrest => exact .cons (hr ▸ hfirst) hrest

theorem append (hst : Stretch s stages t) (hm : Stretch t more u) :
    Stretch s (stages ++ more) u := by
  induction hst with
  | nil hr => exact hm.of_records hr
  | cons hfirst _ ih => exact .cons hfirst (ih hm)

theorem isChain (hst : Stretch s stages t) :
    (s :: stages).IsChain fun x y => Entered x.records y.records := by
  induction hst with
  | nil => exact .singleton _
  | cons hfirst _ ih => exact .cons_cons hfirst ih

theorem last (hst : Stretch s stages t) :
    (s :: stages).getLast?.map Stage.records = some t.records := by
  induction hst with
  | nil hr => simp [hr]
  | cons _ _ ih => rwa [List.getLast?_cons_cons]

end Stretch

namespace Invocation

/-- The stages at which a call enters something: its record is there, and closed unless the firing
is suspended. -/
def moments (h : Host ι (Stage ι ε)) (c : Invocation ι ε) : List (Stage ι ε) :=
  [c.opening, (c.after h).2]

variable {h : Host ι (Stage ι ε)}

theorem moments_stretch (hl : h.Leaves Stage.account) {c : Invocation ι ε}
    (hc : c.stage.Accounted []) :
    Stretch c.stage (c.moments h) (c.after h).2 ∧ (c.after h).2.Accounted [] := by
  have hopen : c.opening.Accounted [c.stage.records.length] := hc.open rfl
  have hfired := Stage.fire_leaves hl (fun _ _ => rfl) c.listener.chain c.event
    (.listener c.current c.delegate) c.opening
  have hafter : Entered c.opening.records (c.after h).2.records ∧ (c.after h).2.Accounted [] := by
    unfold after Stage.deliver
    unfold opening at hfired hopen ⊢
    dsimp only
    generalize Stage.fire h c.listener.chain c.event _ _ = r at hfired ⊢
    obtain ⟨fired, t⟩ := r
    have hran : t.Accounted [c.stage.records.length] := hopen.of_account hfired
    have hrecords : t.records = c.stage.records ++
        [⟨c.event.name, c.event.target, c.current, c.delegate, .pending, none⟩] :=
      (Prod.mk.inj hfired).2
    dsimp only
    rw [← hrecords]
    cases fired with
    | done o => exact hran.close (by simp) o.value
    | suspended f => exact ⟨.nothing _, hran.suspend f⟩
    | failed e ctx =>
      have hfailed : Status.failed e.message ≠ .pending := by simp
      have hnoted : (t.note .error .dispatcher
          ("Chain on " ++ c.current.text ++ " failed: " ++ e.message)).Accounted
            [c.stage.records.length] := hran.of_account rfl
      exact hnoted.close hfailed none
  exact ⟨.cons (.opened _ rfl) (.cons hafter.1 (.nil rfl)), hafter.2⟩

end Invocation

namespace Stage

variable {h : Host ι (Stage ι ε)}

theorem Accounted.books (hl : h.Leaves account) {s t : Stage ι ε} (hs : s.Accounted [])
    {calls : List (Invocation ι ε)} (hc : Books h s calls t) :
    Stretch s (calls.flatMap (Invocation.moments h)) t ∧ t.Accounted [] := by
  induction hc with
  | nil ha => exact ⟨.nil (Prod.mk.inj ha).2, hs.of_account ha⟩
  | cons hfirst _ ih =>
    obtain ⟨hmoments, hafter⟩ := Invocation.moments_stretch hl (hs.of_account hfirst)
    obtain ⟨hrest, hend⟩ := ih hafter
    exact ⟨(hmoments.append hrest).of_records (Prod.mk.inj hfirst).2, hend⟩

def attending (h : Host ι (Stage ι ε)) : List Task → Stage ι ε → List (Stage ι ε)
  | [], _ => []
  | t :: rest, s => s.attend h t :: attending h rest (s.attend h t)

def settling (h : Host ι (Stage ι ε)) (s : Stage ι ε) : List (Stage ι ε) :=
  attending h (s.ready ++ s.fresh) { s with ready := [], fresh := [] }

theorem attend_accounted (hp : h.Prompt) (hl : h.Leaves account) {s : Stage ι ε} {t : Task}
    {running : List Nat} (ht : ∃ x, t.firing.promise = .settled x)
    (hs : s.Accounted (t.record :: running)) :
    Entered s.records (s.attend h t).records ∧ (s.attend h t).Accounted running := by
  have hleft := poll_leaves hl (fun _ _ => rfl) t.firing s
  unfold attend
  split
  next o u hpoll =>
    rw [hpoll] at hleft
    rw [← show u.records = s.records from (Prod.mk.inj hleft).2]
    exact (hs.of_account hleft).close (by simp) o.value
  next u hpoll =>
    rw [hpoll] at hleft
    rw [← show u.records = s.records from (Prod.mk.inj hleft).2]
    exact (hs.of_account hleft).close (by simp) none
  next hpoll => exact absurd (congrArg Prod.fst hpoll) (poll_not_waiting hp ht)

theorem attending_accounted (hp : h.Prompt) (hl : h.Leaves account) (tasks : List Task)
    {s : Stage ι ε} (ht : ∀ t ∈ tasks, ∃ x, t.firing.promise = .settled x)
    (hs : s.Accounted (tasks.map Task.record)) :
    Stretch s (s.attending h tasks) (tasks.foldl (attend h) s) ∧
      (tasks.foldl (attend h) s).Accounted [] := by
  induction tasks generalizing s with
  | nil => exact ⟨.nil rfl, hs⟩
  | cons t rest ih =>
    obtain ⟨hentered, hafter⟩ := attend_accounted hp hl (ht t (.head _)) hs
    obtain ⟨hrest, hend⟩ := ih (fun u hu => ht u (.tail _ hu)) hafter
    exact ⟨.cons hentered hrest, hend⟩

theorem Accounted.settle (hp : h.Prompt) (hl : h.Leaves account) {s : Stage ι ε}
    (hs : s.Accounted []) (hm : s.Movable) :
    Stretch s (s.settling h) (s.settle h) ∧ (s.settle h).Accounted [] := by
  have htasks : s.tasks = s.ready ++ s.fresh := by rw [tasks, hm.waiting, List.nil_append]
  have hrunning : Accounted { s with ready := [], fresh := [] }
      ((s.ready ++ s.fresh).map Task.record) := by
    have hnone : tasks { s with ready := [], fresh := [] } = [] := by simp [tasks, hm.waiting]
    constructor
    · rw [hnone, List.map_nil, List.append_nil, ← htasks]
      exact hs.distinct
    · rw [hnone, List.map_nil, List.append_nil, ← htasks]
      exact hs.pending
  obtain ⟨hstretch, hend⟩ := attending_accounted hp hl _ hm.settled hrunning
  have hsame : ({ s with ready := [], fresh := [] } : Stage ι ε).records = s.records := rfl
  exact ⟨hstretch.of_records hsame, hend⟩

end Stage

theorem Stage.host_leaves_account (settings : Settings) :
    (Stage.host settings : Host Kit (Stage Kit ε)).Leaves Stage.account :=
  host_leaves settings fun _ _ _ => rfl

namespace Session

def delivered (entry : Scene.FireEntry) (target : NodeId) (s : Session) : Session :=
  let (event, stage) := s.stage.dispatch s.host
    (.fresh (Text.trimmed entry.event) target entry.detail) entry.bubbles
  let s := { s with stage }
  if event.prevented then
    s.note .debug ("Default action of `" ++ entry.event ++ "` on `" ++ entry.node ++ "` prevented")
  else s

theorem fire_of_lookup {entry : Scene.FireEntry} {s : Session} {target : NodeId}
    (ht : s.lookup entry.node = .ok target) :
    fire entry s = (.ok (), (s.delivered entry target).settle) := by
  unfold fire
  rw [ht]
  rfl

def buildMoments (entry : Scene.NodeEntry) (s : Session) : List (Stage Kit Unit) :=
  (buildCalls entry s).flatMap (Invocation.moments s.host)

/-- The stages at which firing an event enters something: for its calls, and then while all firings
go on. -/
def fireMoments (entry : Scene.FireEntry) (s : Session) : List (Stage Kit Unit) :=
  match s.lookup entry.node with
  | .error _ => []
  | .ok target =>
    (fireCalls entry s).flatMap (Invocation.moments s.host) ++
      (s.delivered entry target).stage.settling s.host

def forEachMoments {α : Type} (step : α → Session → Except Fault Unit × Session)
    (moments : α → Session → List (Stage Kit Unit)) : List α → Session → List (Stage Kit Unit)
  | [], _ => []
  | entry :: rest, s =>
    moments entry s ++ match step entry s with
      | (.error _, _) => []
      | (.ok (), t) => forEachMoments step moments rest t

/-- What a session has come to, with the stages at which it has entered something. -/
structure Told where
  moments : List (Stage Kit Unit)
  result : Except Fault Unit × Session

def Told.andThen (step : Session → Except Fault Unit × Session)
    (moments : Session → List (Stage Kit Unit)) (told : Told) : Told where
  moments := told.moments ++ match told.result with
    | (.error _, _) => []
    | (.ok (), s) => moments s
  result := Session.andThen step told.result

def tell (scene : Scene) (s : Session) : Told :=
  let count (s : Session) : Except Fault Unit × Session :=
    (.ok (), s.note .debug (s.stage.listeners.length.repr ++ " listeners registered"))
  let finish (s : Session) : Except Fault Unit × Session := (.ok (), s.settle)
  ⟨[], forEach create scene.nodes s⟩
    |> Told.andThen (forEach build scene.nodes) (forEachMoments build buildMoments scene.nodes)
    |> Told.andThen (forEach rebind scene.rebinds) (fun _ => [])
    |> Told.andThen count (fun _ => [])
    |> Told.andThen (forEach fire scene.fires) (forEachMoments fire fireMoments scene.fires)
    |> Told.andThen finish fun s => s.stage.settling s.host

theorem tell_result (scene : Scene) (s : Session) : (tell scene s).result = play scene s := rfl

/-- The stages at which a running scene enters something in its records, behind the empty stage. -/
def timeline (scene : Scene) : List (Stage Kit Unit) :=
  match start scene.settings with
  | .error _ => []
  | .ok s => s.stage :: (tell scene s).moments

section Steps

variable {settings : Settings} {α : Type}

/-- The session between two steps: the firings have their records, and can go on. -/
structure InOrder (settings : Settings) (s : Session) : Prop where
  settings : s.builder.settings = settings
  accounted : s.stage.Accounted []
  movable : s.stage.Movable

def Enters (settings : Settings) (step : α → Session → Except Fault Unit × Session)
    (moments : α → Session → List (Stage Kit Unit)) : Prop :=
  ∀ entry s, InOrder settings s →
    Stretch s.stage (moments entry s) (step entry s).2.stage ∧ InOrder settings (step entry s).2

theorem InOrder.of_account {s t : Session} (hs : InOrder settings s)
    (hsettings : t.builder.settings = s.builder.settings)
    (ha : t.stage.account = s.stage.account) : InOrder settings t := by
  have hqueues : t.stage.queues = s.stage.queues := (Prod.mk.inj ha).1
  simp only [Stage.queues, Prod.mk.injEq] at hqueues
  refine ⟨hsettings.trans hs.settings, hs.accounted.of_account ha, ?_, ?_⟩
  · rw [hqueues.1]
    exact hs.movable.waiting
  · rw [hqueues.2.1, hqueues.2.2]
    exact hs.movable.settled

theorem InOrder.books {s t : Session} (hs : InOrder settings s)
    (hsettings : t.builder.settings = s.builder.settings) {calls : List (Invocation Kit Unit)}
    (hc : Books s.host s.stage calls t.stage) :
    Stretch s.stage (calls.flatMap (Invocation.moments s.host)) t.stage ∧ InOrder settings t := by
  obtain ⟨hstretch, haccounted⟩ := hs.accounted.books (Stage.host_leaves_account _) hc
  have hmovable := hc.leads.movable (Stage.host_prompt _) (Stage.host_leaves_queues _) hs.movable
  exact ⟨hstretch, hsettings.trans hs.settings, haccounted, hmovable⟩

theorem InOrder.settle {s : Session} (hs : InOrder settings s) :
    Stretch s.stage (s.stage.settling s.host) s.settle.stage ∧ InOrder settings s.settle := by
  have hqueues := Stage.settle_queues (Stage.host_prompt s.builder.settings)
    (Stage.host_leaves_queues s.builder.settings) hs.movable
  simp only [Stage.queues, Prod.mk.injEq] at hqueues
  obtain ⟨hstretch, haccounted⟩ := hs.accounted.settle (Stage.host_prompt s.builder.settings)
    (Stage.host_leaves_account s.builder.settings) hs.movable
  refine ⟨hstretch, hs.settings, haccounted, hqueues.1, ?_⟩
  intro t ht
  change t ∈ (s.stage.settle s.host).ready ++ (s.stage.settle s.host).fresh at ht
  rw [host, hqueues.2.1, hqueues.2.2] at ht
  cases ht

theorem create_enters : Enters settings create fun _ _ => [] := by
  intro entry s hs
  unfold create
  split
  · exact ⟨.nil rfl, hs⟩
  · exact ⟨.nil rfl, hs.of_account rfl rfl⟩

theorem build_enters : Enters settings build buildMoments := by
  intro entry s hs
  unfold build buildMoments buildCalls
  split
  · exact ⟨.nil rfl, hs⟩
  · cases s.lookup entry.id with
    | error fault => exact ⟨.nil rfl, hs⟩
    | ok node =>
      have hbuild := s.stage.build_books s.host s.builder node entry.onText entry.byText
        entry.toText
      dsimp only
      generalize s.stage.build s.host s.builder node entry.onText entry.byText entry.toText = r
        at hbuild
      obtain ⟨result, t⟩ := r
      cases result with
      | error e =>
        apply hs.books
        · rfl
        · exact hbuild
      | ok summary =>
        apply hs.books
        · rfl
        · exact hbuild.to_account rfl

theorem rebind_enters : Enters settings rebind fun _ _ => [] := by
  intro entry s hs
  unfold rebind
  split
  · exact ⟨.nil rfl, hs⟩
  · exact ⟨.nil rfl, hs⟩
  next source target _ _ =>
    have hrebind := s.stage.rebind_account source target
      ⟨entry.events, entry.selector, entry.once, entry.initial⟩
    dsimp only
    generalize s.stage.rebind source target
      ⟨entry.events, entry.selector, entry.once, entry.initial⟩ = r at hrebind
    obtain ⟨result, t⟩ := r
    cases result with
    | error e => exact ⟨.nil (Prod.mk.inj hrebind).2, hs.of_account rfl hrebind⟩
    | ok count => exact ⟨.nil (Prod.mk.inj hrebind).2, hs.of_account rfl hrebind⟩

theorem delivered_books (entry : Scene.FireEntry) {s : Session} {target : NodeId}
    (ht : s.lookup entry.node = .ok target) :
    Books s.host s.stage (fireCalls entry s) (s.delivered entry target).stage ∧
      (s.delivered entry target).builder = s.builder := by
  have hbooks := s.stage.dispatch_books (h := s.host)
    (.fresh (Text.trimmed entry.event) target entry.detail) entry.bubbles
  unfold fireCalls delivered
  rw [ht]
  dsimp only
  split
  · exact ⟨hbooks.to_account rfl, rfl⟩
  · exact ⟨hbooks, rfl⟩

theorem fire_enters : Enters settings fire fireMoments := by
  intro entry s hs
  cases ht : s.lookup entry.node with
  | error fault =>
    unfold fire fireMoments
    rw [ht]
    exact ⟨.nil rfl, hs⟩
  | ok target =>
    obtain ⟨hbooks, hbuilder⟩ := delivered_books entry ht
    obtain ⟨hcalled, hleft⟩ := hs.books (congrArg Builder.settings hbuilder) hbooks
    obtain ⟨hsettled, hend⟩ := hleft.settle
    have hhost : (s.delivered entry target).host = s.host := by rw [host, host, hbuilder]
    rw [hhost] at hsettled
    rw [fire_of_lookup ht, fireMoments, ht]
    exact ⟨hcalled.append hsettled, hend⟩

theorem forEach_enters {step : α → Session → Except Fault Unit × Session}
    {moments : α → Session → List (Stage Kit Unit)} (he : Enters settings step moments)
    (entries : List α) {s : Session} (hs : InOrder settings s) :
    Stretch s.stage (forEachMoments step moments entries s) (forEach step entries s).2.stage ∧
      InOrder settings (forEach step entries s).2 := by
  induction entries generalizing s with
  | nil => exact ⟨.nil rfl, hs⟩
  | cons entry rest ih =>
    obtain ⟨hfirst, hleft⟩ := he entry s hs
    unfold forEachMoments forEach
    generalize step entry s = r at hfirst hleft
    obtain ⟨fault | _, t⟩ := r
    · dsimp only
      rw [List.append_nil]
      exact ⟨hfirst, hleft⟩
    · obtain ⟨hrest, hend⟩ := ih hleft
      exact ⟨hfirst.append hrest, hend⟩

theorem forEachMoments_none (step : α → Session → Except Fault Unit × Session) (entries : List α)
    (s : Session) : forEachMoments step (fun _ _ => []) entries s = [] := by
  induction entries generalizing s with
  | nil => rfl
  | cons entry rest ih =>
    unfold forEachMoments
    rw [List.nil_append]
    split
    · rfl
    · exact ih _

theorem forEach_enters_nothing {step : α → Session → Except Fault Unit × Session}
    (he : Enters settings step fun _ _ => []) (entries : List α) {s : Session}
    (hs : InOrder settings s) :
    Stretch s.stage [] (forEach step entries s).2.stage ∧
      InOrder settings (forEach step entries s).2 := by
  have hsteps := forEach_enters he entries hs
  rwa [forEachMoments_none] at hsteps

end Steps

theorem start_inOrder {settings : Settings} {s : Session} (hs : start settings = .ok s) :
    InOrder settings s := by
  obtain ⟨hempty, hsettings⟩ := start_ok hs
  refine ⟨hsettings, ?_, ?_⟩
  · rw [hempty]
    constructor
    · exact .nil
    · simp [Stage.empty, Stage.tasks]
  · rw [hempty]
    exact ⟨rfl, by simp [Stage.empty]⟩

structure Told.Faithful (settings : Settings) (s : Session) (told : Told) : Prop where
  stretch : Stretch s.stage told.moments told.result.2.stage
  inOrder : InOrder settings told.result.2

theorem Told.Faithful.andThen {settings : Settings} {s : Session} {told : Told}
    (ht : told.Faithful settings s) {step : Session → Except Fault Unit × Session}
    {moments : Session → List (Stage Kit Unit)}
    (hstep : ∀ t, InOrder settings t →
      Stretch t.stage (moments t) (step t).2.stage ∧ InOrder settings (step t).2) :
    (told.andThen step moments).Faithful settings s := by
  obtain ⟨before, fault | _, t⟩ := told
  · refine ⟨?_, ht.inOrder⟩
    change Stretch s.stage (before ++ []) t.stage
    rw [List.append_nil]
    exact ht.stretch
  · obtain ⟨hstretch, hend⟩ := hstep t ht.inOrder
    exact ⟨ht.stretch.append hstretch, hend⟩

theorem tell_faithful {scene : Scene} {s : Session} (hs : start scene.settings = .ok s) :
    (tell scene s).Faithful scene.settings s := by
  obtain ⟨hcreate, hcreated⟩ := forEach_enters_nothing create_enters scene.nodes (start_inOrder hs)
  have hmade : Told.Faithful scene.settings s ⟨[], forEach create scene.nodes s⟩ :=
    ⟨hcreate, hcreated⟩
  have hbuilt := hmade.andThen fun _ => forEach_enters build_enters scene.nodes
  have hrebound := hbuilt.andThen fun _ => forEach_enters_nothing rebind_enters scene.rebinds
  let count (t : Session) : Except Fault Unit × Session :=
    (.ok (), t.note .debug (t.stage.listeners.length.repr ++ " listeners registered"))
  have hcount : ∀ t, InOrder scene.settings t →
      Stretch t.stage [] (count t).2.stage ∧ InOrder scene.settings (count t).2 :=
    fun _ ht => ⟨.nil rfl, ht.of_account rfl rfl⟩
  have hcounted := hrebound.andThen hcount
  have hfired := hcounted.andThen fun _ => forEach_enters fire_enters scene.fires
  exact hfired.andThen fun _ => InOrder.settle

theorem run_eq_ok {scene : Scene} {t : Session} (hrun : (run scene).1 = .ok t) :
    ∃ s, start scene.settings = .ok s ∧ play scene s = (.ok (), t) := by
  unfold run at hrun
  cases hs : start scene.settings with
  | error fault =>
    rw [hs] at hrun
    cases hrun
  | ok s =>
    rw [hs] at hrun
    refine ⟨s, rfl, ?_⟩
    dsimp only at hrun
    generalize play scene s = r at hrun ⊢
    obtain ⟨fault | _, u⟩ := r
    · cases hrun
    · cases hrun
      rfl

/-- While a scene runs, records are opened pending and then closed at most once, one at a time, and
nothing else happens to them. A scene that comes to its end has no pending record and leaves no
firing to go on, and so its report shows none. -/
theorem records_opened_then_closed (scene : Scene) :
    let history := (timeline scene).map Stage.records
    history.IsChain Entered ∧ history.Pairwise Grown ∧
    (∀ s, start scene.settings = .ok s →
      history.getLast? = some (play scene s).2.stage.records) ∧
    (∀ s, (run scene).1 = .ok s →
      history.getLast? = some s.stage.records ∧ s.stage.queues = ([], [], []) ∧
      (∀ r ∈ s.stage.records, r.status ≠ .pending) ∧
      ∀ generated, ∀ f ∈ (Report.ofSession generated s).firings, f.status ≠ .pending) := by
  intro history
  have hlast : ∀ s, start scene.settings = .ok s →
      history.getLast? = some (play scene s).2.stage.records := by
    intro s hs
    have hend := (tell_faithful hs).stretch.last
    rw [tell_result] at hend
    simpa only [history, timeline, hs, List.getLast?_map] using hend
  have hchain : history.IsChain Entered := by
    rw [List.isChain_map]
    unfold timeline
    split
    · exact .nil
    next s hs => exact (tell_faithful hs).stretch.isChain
  refine ⟨hchain, List.isChain_iff_pairwise.mp (hchain.imp fun _ _ h => h.grown), hlast, ?_⟩
  intro t hrun
  obtain ⟨s, hs, hplay⟩ := run_eq_ok hrun
  have hqueues := play_queues hs (congrArg Prod.fst hplay)
  have haccounted := (tell_faithful hs).inOrder.accounted
  have hend := hlast s hs
  rw [tell_result] at haccounted
  rw [hplay] at hqueues haccounted hend
  have hnone := haccounted.none_pending hqueues
  refine ⟨hend, hqueues, hnone, ?_⟩
  intro generated f hf
  obtain ⟨r, hr, rfl⟩ := List.mem_map.mp hf
  exact hnone r hr

/-- A firing that is done late, one that is given up, and one that fails at once. -/
def threeEnds : Scene :=
  { Scene.empty with
    nodes := [{ Scene.NodeEntry.plain "a" with onText := "click|push(1) defer(2)" },
      { Scene.NodeEntry.plain "b" with onText := "click|fail('no')" },
      { Scene.NodeEntry.plain "c" with onText := "click|add()" }]
    fires := [⟨"a", "click", none, true⟩, ⟨"b", "click", none, true⟩, ⟨"c", "click", none, true⟩] }

theorem threeEnds_closed :
    ((timeline threeEnds).getLast?.map fun s => s.records.map Record.status) =
      some [.done, .aborted, .failed "Instruction failed: add: no operands"] ∧
    ∃ s, (run threeEnds).1 = .ok s ∧ ∀ r ∈ s.stage.records, r.status ≠ .pending := by
  have hended : (run threeEnds).1.toOption.isSome = true := by decide +kernel
  cases hrun : (run threeEnds).1 with
  | error fault =>
    rw [hrun] at hended
    cases hended
  | ok s =>
    obtain ⟨-, -, hnone, -⟩ := (records_opened_then_closed threeEnds).2.2.2 s hrun
    refine ⟨?_, s, rfl, hnone⟩
    decide +kernel

end Session

end AttrChain
