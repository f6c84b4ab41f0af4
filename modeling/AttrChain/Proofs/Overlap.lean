import AttrChain.Proofs.Building
import AttrChain.Proofs.Outstanding
import AttrChain.Scene.Session
import AttrChain.Scene.Validity

/-!
When a running scene calls a chain while a firing of it is outstanding.

All work is done before an event is fired, but for the first one: the events that tell that nodes
are built may leave firings. So the calls of a scene come in episodes, of which the first goes from
the builds to the first event, and each other one belongs to one event.
-/

namespace AttrChain

variable {ι ε : Type}

namespace Stage

/-- The calls that building a node makes: those for the event that tells that it is built. -/
def buildCalls (h : Host ι (Stage ι ε)) (b : Builder ι) (node : NodeId)
    (onText byText toText : String) (s : Stage ι ε) : List (Invocation ι ε) :=
  match s.buildGroups b node 0 (Group.ofTexts onText byText toText) ⟨node, 0, 0, 0, []⟩ with
  | (.error _, _) => []
  | (.ok _, t) =>
    calls h (.fresh b.settings.doneEvent node none) false
      { t with notices := t.notices ++ [Notice.built node b.settings.doneEvent] }

theorem account_ignoresBinding : IgnoresBinding (account : Stage ι ε → _) :=
  fun _ _ _ _ _ _ => rfl

theorem build_books (h : Host ι (Stage ι ε)) (b : Builder ι) (node : NodeId)
    (onText byText toText : String) (s : Stage ι ε) :
    Books h s (s.buildCalls h b node onText byText toText)
      (s.build h b node onText byText toText).2 := by
  have hgroups := s.buildGroups_leaves account_ignoresBinding b node
    (Group.ofTexts onText byText toText) 0 ⟨node, 0, 0, 0, []⟩
  unfold buildCalls build
  dsimp only
  generalize s.buildGroups b node 0 (Group.ofTexts onText byText toText) ⟨node, 0, 0, 0, []⟩ = r
    at hgroups
  obtain ⟨result, t⟩ := r
  cases result with
  | error e => exact .nil hgroups
  | ok summary =>
    have hbuilt := dispatch_books (h := h) (.fresh b.settings.doneEvent node none) false
      { t with notices := t.notices ++ [Notice.built node b.settings.doneEvent] }
    dsimp only
    apply Books.of_account hgroups
    apply Books.to_account (Books.of_account _ hbuilt)
    · rfl
    · rfl

theorem rebindEach_leaves {α : Type} {view : Stage ι ε → α} (hv : IgnoresBinding view)
    (source target : NodeId) (r : Rebinding) (events : List String) (s : Stage ι ε) :
    view (s.rebindEach source target r events).2 = view s := by
  induction events generalizing s with
  | nil => rfl
  | cons event rest ih =>
    unfold rebindEach
    split
    · rfl
    · exact (ih _).trans (hv s _ _ _ _ _)

theorem rebind_leaves {α : Type} {view : Stage ι ε → α} (hv : IgnoresBinding view)
    (source target : NodeId) (r : Rebinding) (s : Stage ι ε) :
    view (s.rebind source target r).2 = view s := by
  unfold rebind
  generalize (if r.events.isEmpty then s.storedEvents source else r.events) = events
  dsimp only
  split
  · rfl
  · exact rebindEach_leaves hv _ _ _ _ _

theorem rebind_account (source target : NodeId) (r : Rebinding) (s : Stage ι ε) :
    (s.rebind source target r).2.account = s.account :=
  rebind_leaves account_ignoresBinding source target r s

section Settling

variable {h : Host ι (Stage ι ε)}

theorem attend_records (hh : h.Discreet) (s : Stage ι ε) (t : Task) :
    (s.attend h t).records.map Record.call = s.records.map Record.call := by
  have hleft := poll_leaves hh.records (fun _ _ => rfl) t.firing s
  unfold attend
  split
  next hpoll =>
    rw [hpoll] at hleft
    exact (setRecord_calls _ _ _ _).trans hleft
  next hpoll =>
    rw [hpoll] at hleft
    exact (setRecord_calls _ _ _ _).trans hleft
  next hpoll =>
    rw [hpoll] at hleft
    exact hleft

theorem settle_records (hh : h.Discreet) (s : Stage ι ε) :
    (s.settle h).records.map Record.call = s.records.map Record.call := by
  have hall : ∀ (tasks : List Task) (t : Stage ι ε),
      (tasks.foldl (attend h) t).records.map Record.call = t.records.map Record.call := by
    intro tasks
    induction tasks with
    | nil => exact fun _ => rfl
    | cons task rest ih => exact fun t => (ih _).trans (attend_records hh t task)
  exact hall _ _

end Settling

end Stage

namespace Session

def buildCalls (entry : Scene.NodeEntry) (s : Session) : List (Invocation Kit Unit) :=
  if Text.trimmed entry.onText = "" then []
  else match s.lookup entry.id with
    | .error _ => []
    | .ok node =>
      s.stage.buildCalls s.host s.builder node entry.onText entry.byText entry.toText

def fireCalls (entry : Scene.FireEntry) (s : Session) : List (Invocation Kit Unit) :=
  match s.lookup entry.node with
  | .error _ => []
  | .ok target =>
    s.stage.calls s.host (.fresh (Text.trimmed entry.event) target entry.detail) entry.bubbles

def forEachCalls {α : Type} (step : α → Session → Except Fault Unit × Session)
    (calls : α → Session → List (Invocation Kit Unit)) :
    List α → Session → List (List (Invocation Kit Unit))
  | [], _ => []
  | entry :: rest, s =>
    calls entry s :: match step entry s with
      | (.error _, _) => []
      | (.ok (), t) => forEachCalls step calls rest t

def joined (before : List (Invocation Kit Unit)) :
    List (List (Invocation Kit Unit)) → List (List (Invocation Kit Unit))
  | [] => [before]
  | first :: rest => (before ++ first) :: rest

/-- All calls of a scene that runs, in episodes. -/
def episodes (scene : Scene) : List (List (Invocation Kit Unit)) :=
  match start scene.settings with
  | .error _ => []
  | .ok s =>
    match forEach create scene.nodes s with
    | (.error _, _) => []
    | (.ok (), s) =>
      let built := (forEachCalls build buildCalls scene.nodes s).flatten
      match andThen (forEach rebind scene.rebinds) (forEach build scene.nodes s) with
      | (.error _, _) => [built]
      | (.ok (), s) =>
        let s := s.note .debug (s.stage.listeners.length.repr ++ " listeners registered")
        joined built (forEachCalls fire fireCalls scene.fires s)

section Steps

variable {settings : Settings} {α : Type}

def Walks (settings : Settings) (step : α → Session → Except Fault Unit × Session)
    (calls : α → Session → List (Invocation Kit Unit)) : Prop :=
  ∀ entry s, s.builder.settings = settings →
    Leads (Stage.host settings) s.stage (calls entry s) (step entry s).2.stage ∧
      (step entry s).2.builder.settings = settings

theorem forEach_walks {step : α → Session → Except Fault Unit × Session}
    {calls : α → Session → List (Invocation Kit Unit)} (hw : Walks settings step calls)
    (entries : List α) {s : Session} (hs : s.builder.settings = settings) :
    Leads (Stage.host settings) s.stage (forEachCalls step calls entries s).flatten
        (forEach step entries s).2.stage ∧
      (forEach step entries s).2.builder.settings = settings := by
  induction entries generalizing s with
  | nil => exact ⟨.nil rfl, hs⟩
  | cons entry rest ih =>
    obtain ⟨hleads, hsettings⟩ := hw entry s hs
    unfold forEachCalls forEach
    generalize step entry s = r at hleads hsettings
    obtain ⟨result, t⟩ := r
    cases result with
    | error fault =>
      dsimp only
      rw [List.flatten_cons, List.flatten_nil, List.append_nil]
      exact ⟨hleads, hsettings⟩
    | ok =>
      obtain ⟨hrest, hend⟩ := ih hsettings
      dsimp only
      rw [List.flatten_cons]
      exact ⟨hleads.append hrest, hend⟩

theorem create_walks : Walks settings create fun _ _ => [] := by
  intro entry s hs
  unfold create
  split
  · exact ⟨.nil rfl, hs⟩
  · exact ⟨.nil rfl, hs⟩

theorem build_walks : Walks settings build buildCalls := by
  intro entry s hs
  have hhost : s.host = Stage.host settings := by rw [host, hs]
  unfold build buildCalls
  rw [hhost]
  split
  · exact ⟨.nil rfl, hs⟩
  · cases s.lookup entry.id with
    | error fault => exact ⟨.nil rfl, hs⟩
    | ok node =>
      have hbuild := (s.stage.build_books (Stage.host settings) s.builder node entry.onText
        entry.byText entry.toText).leads
      dsimp only
      generalize s.stage.build (Stage.host settings) s.builder node entry.onText entry.byText
        entry.toText = r at hbuild
      obtain ⟨result, t⟩ := r
      cases result with
      | error e => exact ⟨hbuild, hs⟩
      | ok summary => exact ⟨hbuild.to_ledger rfl, hs⟩

theorem rebind_walks : Walks settings rebind fun _ _ => [] := by
  intro entry s hs
  unfold rebind
  split
  · exact ⟨.nil rfl, hs⟩
  · exact ⟨.nil rfl, hs⟩
  next source target _ _ =>
    have hrebind := Stage.ledger_of_account (s.stage.rebind_account source target
      ⟨entry.events, entry.selector, entry.once, entry.initial⟩)
    dsimp only
    generalize s.stage.rebind source target
      ⟨entry.events, entry.selector, entry.once, entry.initial⟩ = r at hrebind
    obtain ⟨result, t⟩ := r
    cases result with
    | error e => exact ⟨.nil hrebind, hs⟩
    | ok count => exact ⟨.nil hrebind, hs⟩

theorem settle_stage {s : Session} (hs : s.builder.settings = settings) :
    s.settle.stage = s.stage.settle (Stage.host settings) := by
  rw [settle, host, hs]

theorem fire_cases (entry : Scene.FireEntry) {s : Session} (hs : s.builder.settings = settings) :
    (∃ fault, fire entry s = (.error fault, s) ∧ fireCalls entry s = []) ∨
      ∃ t u, fire entry s = (.ok (), u) ∧ u.builder.settings = settings ∧
        u.stage = t.settle (Stage.host settings) ∧
        Leads (Stage.host settings) s.stage (fireCalls entry s) t := by
  have hhost : s.host = Stage.host settings := by rw [host, hs]
  unfold fire fireCalls
  rw [hhost]
  cases s.lookup entry.node with
  | error fault => exact .inl ⟨fault, rfl, rfl⟩
  | ok target =>
    right
    have hdelivered := (s.stage.dispatch_books (h := Stage.host settings)
      (.fresh (Text.trimmed entry.event) target entry.detail) entry.bubbles).leads
    dsimp only
    generalize s.stage.dispatch (Stage.host settings)
      (.fresh (Text.trimmed entry.event) target entry.detail) entry.bubbles = left at hdelivered
    split
    · exact ⟨_, _, rfl, hs, settle_stage hs, hdelivered.to_ledger rfl⟩
    · exact ⟨_, _, rfl, hs, settle_stage hs, hdelivered⟩

def Since (settings : Settings) (calls : List (Invocation Kit Unit)) (t : Stage Kit Unit) : Prop :=
  ∃ s, s.queues = ([], [], []) ∧ Leads (Stage.host settings) s calls t

theorem Since.settle {calls : List (Invocation Kit Unit)} {t : Stage Kit Unit}
    (hc : Since settings calls t) : (t.settle (Stage.host settings)).queues = ([], [], []) := by
  obtain ⟨s, hs, hleads⟩ := hc
  have hmovable : s.Movable := by
    simp only [Stage.queues, Prod.mk.injEq] at hs
    exact ⟨hs.1, by simp [hs]⟩
  exact Stage.settle_queues (Stage.host_prompt _) (Stage.host_leaves_queues _)
    (hleads.movable (Stage.host_prompt _) (Stage.host_leaves_queues _) hmovable)

theorem Since.append {calls more : List (Invocation Kit Unit)} {t u : Stage Kit Unit}
    (hc : Since settings calls t) (hm : Leads (Stage.host settings) t more u) :
    Since settings (calls ++ more) u := by
  obtain ⟨s, hs, hleads⟩ := hc
  exact ⟨s, hs, hleads.append hm⟩

/-- The events split the calls into episodes, and what is outstanding at their end belongs to the
last one. -/
theorem fires_since (entries : List Scene.FireEntry) {s : Session}
    (hs : s.builder.settings = settings) {before : List (Invocation Kit Unit)}
    (hbefore : Since settings before s.stage) :
    (∀ episode ∈ joined before (forEachCalls fire fireCalls entries s),
        ∃ t, Since settings episode t) ∧
      ∃ last, Since settings last (forEach fire entries s).2.stage := by
  induction entries generalizing s before with
  | nil => exact ⟨by simpa [joined, forEachCalls] using ⟨_, hbefore⟩, before, hbefore⟩
  | cons entry rest ih =>
    obtain ⟨fault, hfire, hcalls⟩ | ⟨t, u, hfire, hsettings, hsettled, hleads⟩ := fire_cases entry hs
    · simp only [forEachCalls, forEach, hfire, hcalls, joined]
      exact ⟨by simpa using ⟨_, hbefore⟩, before, hbefore⟩
    · have hfirst := hbefore.append hleads
      have hrested : Since settings [] u.stage :=
        ⟨u.stage, by rw [hsettled]; exact hfirst.settle, .nil rfl⟩
      obtain ⟨hepisodes, hend⟩ := ih hsettings hrested
      simp only [forEachCalls, forEach, hfire, joined]
      refine ⟨?_, hend⟩
      intro episode hepisode
      obtain rfl | hlater := List.mem_cons.mp hepisode
      · exact ⟨t, hfirst⟩
      · apply hepisodes
        cases hrest : forEachCalls fire fireCalls rest u with
        | nil =>
          rw [hrest] at hlater
          cases hlater
        | cons next others =>
          rw [hrest] at hlater
          exact hlater

theorem fires_records (entries : List Scene.FireEntry) {s : Session}
    (hs : s.builder.settings = settings) :
    (forEach fire entries s).2.stage.records.map Record.call =
      s.stage.records.map Record.call ++
        (forEachCalls fire fireCalls entries s).flatten.map Invocation.call := by
  induction entries generalizing s with
  | nil => simp [forEach, forEachCalls]
  | cons entry rest ih =>
    obtain ⟨fault, hfire, hcalls⟩ | ⟨t, u, hfire, hsettings, hsettled, hleads⟩ := fire_cases entry hs
    · simp [forEachCalls, forEach, hfire, hcalls]
    · have hh : (Stage.host settings : Host Kit (Stage Kit Unit)).Discreet :=
        Stage.host_discreet settings
      simp only [forEachCalls, forEach, hfire, ih hsettings, hsettled, Stage.settle_records hh,
        hleads.recorded hh, List.flatten_cons, List.map_append, List.append_assoc]

theorem fires_settings (entries : List Scene.FireEntry) {s : Session}
    (hs : s.builder.settings = settings) :
    (forEach fire entries s).2.builder.settings = settings := by
  induction entries generalizing s with
  | nil => exact hs
  | cons entry rest ih =>
    unfold forEach
    obtain ⟨fault, hfire, -⟩ | ⟨t, u, hfire, hsettings, -⟩ := fire_cases entry hs
    · rw [hfire]
      exact hs
    · rw [hfire]
      exact ih hsettings

theorem forEachCalls_none (step : α → Session → Except Fault Unit × Session) (entries : List α)
    (s : Session) : (forEachCalls step (fun _ _ => []) entries s).flatten = [] := by
  induction entries generalizing s with
  | nil => rfl
  | cons entry rest ih =>
    unfold forEachCalls
    rw [List.flatten_cons, List.nil_append]
    split
    · rfl
    · exact ih _

theorem joined_flatten (before : List (Invocation Kit Unit))
    (later : List (List (Invocation Kit Unit))) :
    (joined before later).flatten = before ++ later.flatten := by
  cases later <;> simp [joined]

theorem forEach_quiet {step : α → Session → Except Fault Unit × Session}
    (hw : Walks settings step fun _ _ => []) (entries : List α) {s : Session}
    (hs : s.builder.settings = settings) :
    Leads (Stage.host settings) s.stage [] (forEach step entries s).2.stage ∧
      (forEach step entries s).2.builder.settings = settings := by
  have hwalk := forEach_walks hw entries hs
  rwa [forEachCalls_none] at hwalk

end Steps

theorem start_ok {settings : Settings} {s : Session} (hs : start settings = .ok s) :
    s.stage = .empty () ∧ s.builder.settings = settings := by
  unfold start at hs
  split at hs
  · cases hs
  · cases hs
    exact ⟨rfl, rfl⟩

/-- What a scene calls before its events are fired, and the rest of it. -/
theorem play_cases {scene : Scene} {s : Session} (hs : start scene.settings = .ok s) :
    ∃ built t, Leads (Stage.host scene.settings) (.empty ()) built t.stage ∧
      t.builder.settings = scene.settings ∧
      ((∃ fault, play scene s = (.error fault, t) ∧ (episodes scene).flatten = built ∧
          ∀ episode ∈ episodes scene, episode = built) ∨
        play scene s = andThen (fun t => (.ok (), t.settle)) (forEach fire scene.fires t) ∧
          episodes scene = joined built (forEachCalls fire fireCalls scene.fires t)) := by
  obtain ⟨hempty, hsettings⟩ := start_ok hs
  obtain ⟨hcreate, hcreated⟩ := forEach_quiet create_walks scene.nodes hsettings
  rw [hempty] at hcreate
  unfold episodes play
  rw [hs]
  dsimp only
  generalize forEach create scene.nodes s = r at hcreate hcreated
  obtain ⟨fault | _, s⟩ := r
  · exact ⟨[], s, hcreate, hcreated, .inl ⟨fault, rfl, rfl, by simp⟩⟩
  obtain ⟨hbuild, hbuilt⟩ := forEach_walks build_walks scene.nodes hcreated
  have hcalled := hcreate.append hbuild
  rw [List.nil_append] at hcalled
  dsimp only [andThen] at hcalled ⊢
  generalize (forEachCalls build buildCalls scene.nodes s).flatten = built at hcalled ⊢
  generalize forEach build scene.nodes s = r at hcalled hbuilt
  obtain ⟨fault | _, s⟩ := r
  · exact ⟨built, s, hcalled, hbuilt, .inl ⟨fault, rfl, by simp, by simp⟩⟩
  obtain ⟨hrebind, hrebound⟩ := forEach_quiet rebind_walks scene.rebinds hbuilt
  have hready := hcalled.append hrebind
  rw [List.append_nil] at hready
  dsimp only at hready ⊢
  generalize forEach rebind scene.rebinds s = r at hready hrebound
  obtain ⟨fault | _, s⟩ := r
  · exact ⟨built, s, hready, hrebound, .inl ⟨fault, rfl, by simp, by simp⟩⟩
  · exact ⟨built, s.note .debug (s.stage.listeners.length.repr ++ " listeners registered"),
      hready.to_ledger rfl, hrebound, .inr ⟨rfl, rfl⟩⟩

theorem Since.of_empty {calls : List (Invocation Kit Unit)} {settings : Settings}
    {t : Stage Kit Unit} (hc : Leads (Stage.host settings) (.empty ()) calls t) :
    Since settings calls t :=
  ⟨.empty (), rfl, hc⟩

theorem episodes_since (scene : Scene) :
    ∀ episode ∈ episodes scene, ∃ t, Since scene.settings episode t := by
  cases hs : start scene.settings with
  | error fault => simp [episodes, hs]
  | ok s =>
    obtain ⟨built, t, hleads, hsettings, ⟨fault, -, -, hall⟩ | ⟨-, hall⟩⟩ := play_cases hs
    · intro episode hepisode
      rw [hall episode hepisode]
      exact ⟨t.stage, .of_empty hleads⟩
    · rw [hall]
      exact (fires_since scene.fires hsettings (.of_empty hleads)).1

theorem play_records {scene : Scene} {s : Session} (hs : start scene.settings = .ok s) :
    (play scene s).2.stage.records.map Record.call =
      (episodes scene).flatten.map Invocation.call := by
  obtain ⟨built, t, hleads, hsettings, ⟨fault, hplay, hall, -⟩ | ⟨hplay, hall⟩⟩ := play_cases hs
  · rw [hplay, hall]
    exact hleads.recorded (Stage.host_discreet _)
  · have hfires := fires_records scene.fires hsettings
    have hend := fires_settings scene.fires hsettings
    rw [hleads.recorded (Stage.host_discreet _)] at hfires
    rw [hplay, hall, joined_flatten, List.map_append]
    generalize forEach fire scene.fires t = r at hfires hend
    obtain ⟨fault | _, u⟩ := r
    · exact hfires
    · dsimp only [andThen]
      rw [settle_stage hend, Stage.settle_records (Stage.host_discreet _)]
      exact hfires

theorem play_queues {scene : Scene} {s : Session} (hs : start scene.settings = .ok s)
    (hok : (play scene s).1 = .ok ()) : (play scene s).2.stage.queues = ([], [], []) := by
  obtain ⟨built, t, hleads, hsettings, ⟨fault, hplay, -, -⟩ | ⟨hplay, -⟩⟩ := play_cases hs
  · rw [hplay] at hok
    cases hok
  · obtain ⟨last, hlast⟩ := (fires_since scene.fires hsettings (.of_empty hleads)).2
    have hend := fires_settings scene.fires hsettings
    rw [hplay] at hok ⊢
    generalize forEach fire scene.fires t = r at hok hlast hend
    obtain ⟨fault | _, u⟩ := r
    · cases hok
    · dsimp only [andThen]
      rw [settle_stage hend]
      exact hlast.settle

/-- The calls of an episode are made one after the other, at first with nothing outstanding. A chain
is called while an earlier firing of it is outstanding exactly if a call of the same episode has
left that firing suspended. The calls are the recorded ones, and a scene that comes to its end
leaves nothing outstanding. -/
theorem overlap_iff_suspended (scene : Scene) :
    (∀ episode ∈ episodes scene, (∃ t, Since scene.settings episode t) ∧
      ∀ before c after, episode = before ++ c :: after →
        (c.stage.awaits c.listener.chain = true ↔
          ∃ d ∈ before, d.listener.chain = c.listener.chain ∧
            ∃ f, d.fired (Stage.host scene.settings) = .suspended f)) ∧
    (∀ s, start scene.settings = .ok s →
      (play scene s).2.stage.records.map Record.call =
        (episodes scene).flatten.map Invocation.call ∧
      ((play scene s).1 = .ok () → (play scene s).2.stage.queues = ([], [], []))) := by
  constructor
  · intro episode hepisode
    obtain ⟨t, s, hqueues, hleads⟩ := episodes_since scene episode hepisode
    refine ⟨⟨t, s, hqueues, hleads⟩, ?_⟩
    intro before c after hcut
    rw [hcut] at hleads
    exact hleads.awaits_iff (Stage.host_prompt _) (Stage.host_leaves_queues _) hqueues _
  · intro s hs
    exact ⟨play_records hs, play_queues hs⟩

/-- A chain that suspends, bound to the event that tells that its node is built and to another. -/
def deferredBuild : Scene :=
  { Scene.empty with
    nodes := [{ Scene.NodeEntry.plain "a" with onText := "obted click|push(1) defer(2) pack(2)" }]
    fires := [⟨"a", "click", none, true⟩] }

/-- Two firings of one chain may be outstanding at once, and then they share its stack: the later
one packs what the earlier one has left. -/
theorem deferredBuild_overlaps :
    deferredBuild.check.toOption = some () ∧
    (∃ episode ∈ episodes deferredBuild, ∃ c ∈ episode,
      c.stage.awaits c.listener.chain = true) ∧
    ((run deferredBuild).1.map fun s => s.stage.records.map fun r =>
      match r.value with
      | some (.list items) => items.length
      | _ => 0).toOption = some [2, 1] := by
  have hawaits : ((episodes deferredBuild).any fun episode => episode.any fun c =>
      c.stage.awaits c.listener.chain) = true := by decide +kernel
  simp only [List.any_eq_true] at hawaits
  exact ⟨by decide +kernel, hawaits, by decide +kernel⟩

end Session

end AttrChain
