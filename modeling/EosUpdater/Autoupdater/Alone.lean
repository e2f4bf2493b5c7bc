import EosUpdater.Autoupdater.Driving

/-!
# The automatic updater as the only client

On an installed system, and while no other client calls the daemon, the changes of the properties
that a run has not handled yet are at most two (`Pipeline`): a worker that one of its calls has
started, and its end. So the run always acts on the state that the daemon is in. The daemon refuses
none of its calls (`never_refused`), and what the run assumes of the properties of the daemon, that
the update on offer changes with a poll only, holds (`run_of_alone`). When the run quits, the state
of the daemon says why, and whether it fails (`exits`).
-/

namespace Autoupdater

open Machine Updater

variable {ρ : Type}

/-- What follows in the properties of the daemon: a worker starts, or ends. -/
inductive Succeeds : Shown → Shown → Prop
  | starts {shown : Shown} (kind : WorkerKind) (hstate : shown.state ∈ kind.startsIn) :
      Succeeds shown { shown with state := kind.state }
  | ends {before after : Shown} (kind : WorkerKind) (hbefore : before.state = kind.state)
      (hafter : after.state ∈ kind.endsIn)
      (hoffer : kind ≠ .poll → after = { before with state := after.state }) :
      Succeeds before after

/-- One of the two has a worker, and the other one has not. -/
theorem Succeeds.busy_iff {before after : Shown} (h : Succeeds before after) :
    after.state ∈ busy ↔ before.state ∉ busy := by
  cases h with
  | starts kind hstate =>
      exact iff_of_true kind.state_mem_busy (kind.notMem_busy_of_startsIn hstate)
  | ends kind hbefore hafter =>
      rw [hbefore]
      exact iff_of_false (kind.notMem_busy_of_endsIn hafter) (not_not.2 kind.state_mem_busy)

/-- What follows is another state. -/
theorem Succeeds.state_ne {before after : Shown} (h : Succeeds before after) :
    after.state ≠ before.state := by
  intro hsame
  have hbusy := h.busy_iff
  rw [hsame] at hbusy
  exact iff_not_self hbusy

/-- The offer changes only when a poll comes to an end. -/
theorem Succeeds.sameUpdate_or_pollEnds {before after : Shown} (h : Succeeds before after) :
    (Properties.ofShown before).SameUpdate (.ofShown after) ∨
      (Properties.ofShown before).PollEnds (.ofShown after) := by
  have hne := h.state_ne
  cases h with
  | starts kind => exact .inl ⟨rfl, rfl⟩
  | ends kind hbefore hafter hoffer =>
      by_cases hpoll : kind = .poll
      · rw [hpoll] at hbefore
        refine .inr ⟨congrArg StateValue.state hbefore, fun hpolling => hne ?_⟩
        exact (StateValue.state.inj hpolling).trans hbefore.symm
      · rw [hoffer hpoll]
        exact .inl ⟨rfl, rfl⟩

/-- What the run has not handled yet, from the properties that it has seen to those of the
daemon. -/
inductive Pipeline : Shown → List Shown → Shown → Prop
  | quiet (shown : Shown) : Pipeline shown [] shown
  | one {seen shown : Shown} (h : Succeeds seen shown) : Pipeline seen [shown] shown
  | two {seen between shown : Shown} (hseen : seen.state ∉ busy) (hfirst : Succeeds seen between)
      (hsecond : Succeeds between shown) : Pipeline seen [between, shown] shown

/-- The readings of the handler of the run that an event calls. -/
def DrivingEvent.readings : DrivingEvent ρ → Option Readings
  | .receiveNotice readings | .initialPoll readings => some readings
  | _ => none

namespace Driving

/-- One event, if no other client makes a call. -/
def stepAlone (config : Config) (s : Driving ρ) (event : DrivingEvent ρ) : Option (Driving ρ) :=
  if foreign event then none else s.step config event

/-- The changes that the run has not handled yet. -/
def pending (s : Driving ρ) : List Shown :=
  s.notices ++ if s.skeleton.shown = s.skeleton.announced then [] else [s.skeleton.shown]

variable {config : Config} {s t : Driving ρ} {seen : Shown}
  {history : History (Driving ρ) (DrivingEvent ρ)}

/-- When all has been announced, the notices are what is left. -/
theorem pending_of_current (h : s.skeleton.shown = s.skeleton.announced) :
    s.pending = s.notices := by
  simp [pending, h]

/-- What has not been announced yet is left behind the notices. -/
theorem pending_of_changed (h : s.skeleton.shown ≠ s.skeleton.announced) :
    s.pending = s.notices ++ [s.skeleton.shown] := by
  simp [pending, h]

/-- When nothing is left, all has been announced and handled. -/
theorem current_of_pending (h : s.pending = []) :
    s.notices = [] ∧ s.skeleton.shown = s.skeleton.announced := by
  obtain ⟨hnotices, hchanged⟩ := List.append_eq_nil_iff.1 h
  refine ⟨hnotices, ?_⟩
  by_contra hne
  simp [hne] at hchanged

/-- What holds while the run is the only client. -/
structure Alone (s : Driving ρ) (seen : Shown) : Prop where
  sound : s.Sound seen
  installed : s.skeleton.daemon.installed = true
  pipeline : Pipeline seen s.pending s.skeleton.shown
  /-- A call in flight was made for the state that the daemon is in. -/
  calling : ∀ call ∈ s.calls, s.calls = [call] ∧ s.pending = [] ∧ seen.state ∈ call.kind.startsIn
  /-- Before it has acted for the first time, only a worker that was in flight can have changed
  the state. -/
  unacted : s.client.session.previousState = .state .none →
    s.calls = [] ∧ s.client.session.calls = [] ∧ (seen.state ∉ busy → s.pending = [])
  accepted : ∀ reply ∈ s.replies, reply = .ok ()
  polled : s.client.session.polledAlready = true →
    ∃ call ∈ s.client.session.calls, call.kind = .poll

/-- At the beginning of a run nothing is left to be handled. -/
theorem Initial.alone (h : s.Initial) (hinstalled : s.skeleton.daemon.installed = true) :
    s.Alone s.skeleton.announced where
  sound := h.sound
  installed := hinstalled
  pipeline := by
    rw [pending_of_current h.current, h.notices, h.current]
    exact .quiet _
  calling := by simp [h.calls]
  unacted := fun _ => ⟨h.calls, by rw [h.session], fun _ => by
    rw [pending_of_current h.current, h.notices]⟩
  accepted := by simp [h.replies]
  polled := by
    rw [h.session]
    rintro ⟨⟩

/-- The calls in flight and the sessions are the same, and so are the changes, unless the run has
acted already. -/
theorem Alone.daemon (h : s.Alone seen) {event : Updater.Event ρ}
    (hforeign : foreign (.daemon event) = false)
    (hstep : s.step config (.daemon event) = some t) : t.Alone seen := by
  have hsound := h.sound.daemon hstep
  obtain ⟨skeleton, hskeleton, rfl⟩ := Option.map_eq_some_iff.1 hstep
  obtain ⟨hannounced, hdaemon, hcurrent⟩ := Skeleton.step_inversion hskeleton
  have hinstalled : skeleton.daemon.installed = true :=
    (Daemon.installed_of_step hdaemon).trans h.installed
  have hshows := h.sound.reached.shows hskeleton
  -- the changes are the same, or there is one more
  suffices hchanges : Pipeline seen ({ s with skeleton } : Driving ρ).pending skeleton.shown ∧
      (s.pending = [] → seen.state ∉ busy → ({ s with skeleton } : Driving ρ).pending = []) from
    { sound := hsound
      installed := hinstalled
      pipeline := hchanges.1
      calling := fun call hcall => by
        obtain ⟨hcalls, hpending, hstate⟩ := h.calling call hcall
        exact ⟨hcalls, hchanges.2 hpending (call.kind.notMem_busy_of_startsIn hstate), hstate⟩
      unacted := fun hprevious => by
        obtain ⟨hcalls, hnone, hpending⟩ := h.unacted hprevious
        exact ⟨hcalls, hnone, fun hidle => hchanges.2 (hpending hidle) hidle⟩
      accepted := h.accepted
      polled := h.polled }
  have hpipeline := h.pipeline
  by_cases hsame : skeleton.shown = s.skeleton.shown
  · have hpending : ({ s with skeleton } : Driving ρ).pending = s.pending := by
      simp only [pending, hsame, hannounced]
    rw [hpending, hsame]
    exact ⟨hpipeline, fun h _ => h⟩
  · -- a worker has returned, and its state was announced
    obtain ⟨worker, outcome, rfl⟩ : ∃ worker outcome, event = .finished worker outcome := by
      cases event with
      | finished worker outcome => exact ⟨worker, outcome, rfl⟩
      | call => cases hforeign
      | progress | deploy =>
          generalize skeleton.shown = after at hshows hsame
          cases hshows
          exact absurd rfl hsame
    have hcurrent := hcurrent ⟨_, _, rfl⟩
    obtain ⟨hsucceeds, hbusy⟩ :
        Succeeds s.skeleton.shown skeleton.shown ∧ s.skeleton.shown.state ∈ busy := by
      generalize s.skeleton.shown = before at hshows
      generalize skeleton.shown = after at hshows
      cases hshows with
      | same hevent => exact absurd rfl (hevent worker outcome)
      | ends kind hbefore hafter hoffer =>
          exact ⟨.ends kind hbefore hafter hoffer, hbefore ▸ kind.state_mem_busy⟩
    have hchanged : ({ s with skeleton } : Driving ρ).pending = s.notices ++ [skeleton.shown] := by
      refine pending_of_changed (s := { s with skeleton }) ?_
      rw [hannounced, ← hcurrent]
      exact hsame
    rw [pending_of_current hcurrent] at hpipeline ⊢
    rw [hchanged]
    -- there was a worker, so all that was left to be handled is that it has started
    generalize s.notices = notices at hpipeline ⊢
    generalize s.skeleton.shown = before at hpipeline hsucceeds hbusy
    cases hpipeline with
    | quiet => exact ⟨.one hsucceeds, fun _ hidle => absurd hbusy hidle⟩
    | one hstarted =>
        exact ⟨.two (hstarted.busy_iff.1 hbusy) hstarted hsucceeds, by rintro ⟨⟩⟩
    | two hseen hfirst hsecond =>
        exact absurd (hfirst.busy_iff.2 hseen) (hsecond.busy_iff.1 hbusy)

/-- An announcement moves what is left into flight. -/
theorem Alone.emitChanged (h : s.Alone seen) (hstep : s.step config .emitChanged = some t) :
    t.Alone seen := by
  have hsound := h.sound.emitChanged hstep
  obtain ⟨hchanged, rfl⟩ := emitChanged_inversion hstep
  -- what was left to be announced is now in flight
  set emitted : Driving ρ :=
    { s with
      skeleton := { s.skeleton with announced := s.skeleton.shown }
      notices := s.notices ++ [s.skeleton.shown] } with hemitted
  have hpending : emitted.pending = s.pending := by
    rw [pending_of_changed hchanged, pending_of_current (s := emitted) rfl]
  exact
    { sound := hsound
      installed := h.installed
      pipeline := by rw [hpending]; exact h.pipeline
      calling := fun call hcall => by rw [hpending]; exact h.calling call hcall
      unacted := fun hprevious => by rw [hpending]; exact h.unacted hprevious
      accepted := h.accepted
      polled := h.polled }

/-- A call that was made for the state of the daemon starts its worker. -/
theorem Alone.receiveCall (h : s.Alone seen) (hstep : s.step config .receiveCall = some t) :
    t.Alone seen := by
  have hsound := h.sound.receiveCall hstep
  obtain ⟨call, hcalls, hnotices, hclient, hskeleton, hreceives⟩ := receives_of_step hstep
  obtain ⟨hannounced, hdaemon, -⟩ := Skeleton.step_inversion hskeleton
  obtain ⟨hone, hnone, hstate⟩ := h.calling call (by simp [hcalls])
  obtain ⟨hnotices', hcurrent⟩ := current_of_pending hnone
  have hseen : seen = s.skeleton.shown := by
    have hpipeline := h.pipeline
    rw [hnone] at hpipeline
    cases hpipeline
    rfl
  have htcalls : t.calls = [] := by
    rw [hone] at hcalls
    exact (List.cons.inj hcalls).2.symm
  have hacted : s.client.session.previousState ≠ .state .none := fun hprevious => by
    rw [(h.unacted hprevious).1] at hone
    cases hone
  cases hreceives with
  | refused e hrefused =>
      -- the call was made for this state, and the system is installed
      rcases hrefused with hlive | hwrong
      · rw [h.installed] at hlive
        cases hlive
      · exact absurd (hseen ▸ hstate) hwrong
  | accepted hallowed hshown hreplies =>
      have hsucceeds : Succeeds seen t.skeleton.shown := by
        rw [hshown, ← hseen]
        exact .starts _ hstate
      have hpending : t.pending = [t.skeleton.shown] := by
        rw [pending_of_changed, hnotices, hnotices', List.nil_append]
        rw [hannounced, ← hcurrent, ← hseen]
        exact fun hsame => hsucceeds.state_ne (congrArg Shown.state hsame)
      exact
        { sound := hsound
          installed := (Daemon.installed_of_step hdaemon).trans h.installed
          pipeline := by rw [hpending]; exact .one hsucceeds
          calling := by simp [htcalls]
          unacted := fun hprevious => by
            rw [hclient] at hprevious
            exact absurd hprevious hacted
          accepted := by
            rw [hreplies, List.forall_mem_append]
            exact ⟨h.accepted, by simp⟩
          polled := by rw [hclient]; exact h.polled }

/-- The reply to an accepted call says nothing new. -/
theorem Alone.receiveReply (h : s.Alone seen) (hstep : s.step config .receiveReply = some t) :
    t.Alone seen ∧ t.client = s.client := by
  have hsound := h.sound.receiveReply hstep
  simp only [step] at hstep
  split at hstep
  · cases hstep
  · next reply replies hreplies =>
    obtain ⟨-, hsome⟩ := Option.ite_none_left_eq_some.1 hstep
    have haccepted := h.accepted
    rw [hreplies, List.forall_mem_cons] at haccepted
    obtain ⟨rfl, haccepted⟩ := haccepted
    obtain rfl := Option.some_inj.1 hsome
    exact ⟨{ h with sound := hsound, accepted := haccepted }, rfl⟩

/-- What the run answers to the state that the daemon is in, or to another one that allows the same
calls. -/
theorem Alone.advance {readings : Readings} {properties : Properties} {state : EosUpdaterState}
    {client : RunState} (hsound : (s.advance client).Sound seen)
    (hinstalled : s.skeleton.daemon.installed = true)
    (hpipeline : Pipeline seen s.pending s.skeleton.shown) (hcalls : s.calls = [])
    (haccepted : ∀ reply ∈ s.replies, reply = .ok ())
    (hpolled : s.client.session.polledAlready = true →
      ∃ call ∈ s.client.session.calls, call.kind = .poll)
    (hresponds : Session.Responds config readings properties s.client.session state client.session)
    (hallows : ∀ kind : WorkerKind, state ∈ kind.startsIn →
      seen.state ∈ kind.startsIn ∧ s.pending = [])
    (hprevious : client.session.previousState ≠ .state .none) :
    (s.advance client).Alone seen := by
  have hpending : (s.advance client).pending = s.pending := rfl
  -- an answer without a call changes nothing that the daemon could see
  have hsame (hsame : client.session.calls = s.client.session.calls)
      (hkept : client.session.polledAlready = s.client.session.polledAlready) :
      (s.advance client).Alone seen :=
    { sound := hsound
      installed := hinstalled
      pipeline := hpipeline
      calling := by simp [Driving.advance, hcalls, Session.callsSince_of_eq hsame]
      unacted := fun hnone => absurd hnone hprevious
      accepted := haccepted
      polled := by
        show client.session.polledAlready = true → ∃ call ∈ client.session.calls, _
        rw [hsame, hkept]
        exact hpolled }
  cases hresponds with
  | waits _ h1 _ _ h2 => exact hsame h1 h2
  | fails _ h1 _ _ h2 => exact hsame h1 h2
  | done _ h1 _ _ h2 => exact hsame h1 h2
  | calls call hstate _ hmade _ _ hkept =>
      -- nothing is in flight before the call, which the state of the daemon allows
      have hsent : (s.advance client).calls = [call] := by
        simp [Driving.advance, hcalls, Session.callsSince_of_cons hmade]
      exact
        { sound := hsound
          installed := hinstalled
          pipeline := hpipeline
          calling := by
            rw [hsent, hpending, List.forall_mem_singleton]
            exact ⟨rfl, (hallows _ hstate).2, (hallows _ hstate).1⟩
          unacted := fun hnone => absurd hnone hprevious
          accepted := haccepted
          polled := by
            show client.session.polledAlready = true → ∃ call ∈ client.session.calls, _
            rw [hmade, hkept, Bool.or_eq_true, decide_eq_true_eq]
            rintro (hbefore | hkind)
            · obtain ⟨earlier, hmem, hkind⟩ := hpolled hbefore
              exact ⟨earlier, List.mem_cons_of_mem _ hmem, hkind⟩
            · exact ⟨call, List.mem_cons_self, hkind⟩ }

/-- A notice that arrives, where the run is the only client: it is news, and if it says that no
worker is in flight, it is the last one. -/
theorem Alone.of_notice (h : s.Alone seen) {notice : Shown} {notices : List Shown}
    (hnotices : s.notices = notice :: notices) :
    Succeeds seen notice ∧
      Pipeline notice ({ s with notices } : Driving ρ).pending s.skeleton.shown ∧
      (notice.state ∉ busy → ({ s with notices } : Driving ρ).pending = []) ∧
      s.calls = [] := by
  have hpending : s.pending = notice :: ({ s with notices } : Driving ρ).pending := by
    simp [pending, hnotices]
  have hpipeline := h.pipeline
  rw [hpending] at hpipeline
  -- a call is made only when every announcement has arrived
  have hcalls : s.calls = [] := by
    refine List.eq_nil_iff_forall_not_mem.2 fun call hcall => ?_
    rw [(h.calling call hcall).2.1] at hpending
    cases hpending
  generalize ({ s with notices } : Driving ρ).pending = rest at hpipeline ⊢
  generalize s.skeleton.shown = shown at hpipeline ⊢
  cases hpipeline with
  | one hsucceeds => exact ⟨hsucceeds, .quiet _, fun _ => rfl, hcalls⟩
  | two hseen hfirst hsecond =>
      exact ⟨hfirst, .one hsecond, fun hidle => absurd (hfirst.busy_iff.2 hseen) hidle, hcalls⟩

/-- The run acts on a notice when nothing else is left behind it. -/
theorem Alone.receiveNotice (h : s.Alone seen) (config : Config) (readings : Readings)
    {notice : Shown} {notices : List Shown} (hnotices : s.notices = notice :: notices) :
    ({ s with notices }.advance (s.client.receive config readings notice) :
      Driving ρ).Alone notice := by
  have hannounces := h.sound.announces
  rw [hnotices] at hannounces
  obtain ⟨⟩ | ⟨hfollows, -⟩ := hannounces
  obtain ⟨hsucceeds, hpipeline, hlast, hcalls⟩ := h.of_notice hnotices
  refine Alone.advance (s := { s with notices }) (h.sound.receiveNotice readings hnotices)
    h.installed hpipeline hcalls h.accepted h.polled
    (h.sound.responds_receive config readings hfollows hsucceeds.state_ne)
    (fun kind hstate => ⟨hstate, hlast (kind.notMem_busy_of_startsIn hstate)⟩) ?_
  rw [(receive_session config readings notice h.sound.properties).2 hsucceeds.state_ne,
    Session.previousState_onStateChanged]
  simpa using hfollows.named

/-- The idle source acts on the state that the run was told first. -/
theorem Alone.initialPoll (h : s.Alone seen) {readings : Readings}
    (hstep : s.step config (.initialPoll readings) = some t) : t.Alone seen := by
  have hsound := h.sound.initialPoll hstep
  obtain ⟨hrunning, hinitial, rfl⟩ := initialPoll_inversion hstep
  set session := s.client.session.initialPollIdleFunc config readings s.client.properties
    with hsession
  rcases h.sound.initialPoll_cases config readings hrunning hinitial with
    ⟨hsame, hprevious, -⟩ | ⟨hprevious, state, hstate, hidle, hresponds⟩
  · -- the run has acted before, and does nothing now
    rw [← hsession] at hsame
    have hcalls : (s.advance { s.client with session }).calls = s.calls := by
      simp [Driving.advance, hsame, Session.callsSince_of_eq]
    exact
      { sound := hsound
        installed := h.installed
        pipeline := h.pipeline
        calling := by rw [hcalls]; exact h.calling
        unacted := fun hnone => by
          change session.previousState = _ at hnone
          rw [hsame] at hnone
          exact absurd (StateValue.state.inj (hprevious.symm.trans hnone)) h.sound.named
        accepted := h.accepted
        polled := by
          show session.polledAlready = true → ∃ call ∈ session.calls, _
          rw [hsame]
          exact h.polled }
  · -- the run acts for the first time, on the state or on `ready` in place of an error
    obtain ⟨hcalls, -, hlast⟩ := h.unacted hprevious
    refine Alone.advance hsound h.installed h.pipeline hcalls h.accepted h.polled hresponds ?_ ?_
    · intro kind hallowed
      have hseen : seen.state ∈ kind.startsIn := by
        rcases hstate with ⟨rfl, -⟩ | ⟨rfl, herror⟩
        · exact hallowed
        · -- only a poll is started in `Ready`, and it is also started after an error
          rw [herror]
          revert hallowed
          cases kind <;> decide
      exact ⟨hseen, hlast (kind.notMem_busy_of_startsIn hseen)⟩
    · rw [← hsession] at hidle
      rw [hidle, Session.previousState_onStateChanged]
      rcases hstate with ⟨rfl, -⟩ | ⟨rfl, -⟩
      · simpa using h.sound.named
      · simp

/-- **One step** while no other client makes a call. -/
theorem Alone.step (h : s.Alone seen) {event : DrivingEvent ρ}
    (hstep : s.stepAlone config event = some t) : ∃ seen, t.Alone seen := by
  obtain ⟨hforeign, hstep⟩ := Option.ite_none_left_eq_some.1 hstep
  rw [Bool.not_eq_true] at hforeign
  cases event with
  | daemon event => exact ⟨seen, h.daemon hforeign hstep⟩
  | emitChanged => exact ⟨seen, h.emitChanged hstep⟩
  | receiveCall => exact ⟨seen, h.receiveCall hstep⟩
  | receiveNotice readings =>
      obtain ⟨notice, notices, hnotices, rfl⟩ := receiveNotice_inversion hstep
      exact ⟨notice, h.receiveNotice config readings hnotices⟩
  | receiveReply => exact ⟨seen, (h.receiveReply hstep).1⟩
  | initialPoll readings => exact ⟨seen, h.initialPoll hstep⟩

/-- A run begins on an installed system. -/
def InitialAlone (s : Driving ρ) : Prop := s.Initial ∧ s.skeleton.daemon.installed = true

/-- **Any number of steps.** -/
theorem alone_of_run (hrun : Run InitialAlone (stepAlone config) history s) :
    ∃ seen, s.Alone seen := by
  induction hrun with
  | start h => exact ⟨_, h.1.alone h.2⟩
  | next _ hstep ih =>
      obtain ⟨seen, h⟩ := ih
      exact h.step hstep

/-! ### What the run assumes -/

/-- A step of the run, as the other clients cannot be told from the daemon by it: what happens to
the daemon and to the messages is no event of the run. -/
theorem Alone.client_step (h : s.Alone seen) {event : DrivingEvent ρ}
    (hstep : s.stepAlone config event = some t) :
    t.client = s.client ∨ ∃ event, s.client.step config event = some t.client := by
  obtain ⟨-, hstep⟩ := Option.ite_none_left_eq_some.1 hstep
  have haborted := h.sound.aborted
  cases event with
  | daemon event =>
      obtain ⟨skeleton, -, rfl⟩ := Option.map_eq_some_iff.1 hstep
      exact .inl rfl
  | emitChanged =>
      obtain ⟨skeleton, -, rfl⟩ := Option.map_eq_some_iff.1 hstep
      exact .inl rfl
  | receiveCall =>
      obtain ⟨call, -, -, hclient, -⟩ := receives_of_step hstep
      exact .inl hclient
  | receiveReply => exact .inl (h.receiveReply hstep).2
  | receiveNotice readings =>
      obtain ⟨notice, notices, hnotices, rfl⟩ := receiveNotice_inversion hstep
      obtain ⟨hsucceeds, -⟩ := h.of_notice hnotices
      refine .inr ⟨.stateNotified (.ofShown notice) readings, ?_⟩
      have hsession :=
        (receive_session config readings notice h.sound.properties).2 hsucceeds.state_ne
      have hchange := hsucceeds.sameUpdate_or_pollEnds
      rw [← h.sound.properties] at hchange
      rw [RunState.step, if_pos ⟨haborted, hchange⟩]
      refine congrArg some ?_
      show (⟨_, _⟩ : RunState) = s.client.receive config readings notice
      rw [RunState.mk.injEq]
      exact ⟨hsession.symm, rfl⟩
  | initialPoll readings =>
      obtain ⟨-, hinitial, rfl⟩ := initialPoll_inversion hstep
      refine .inr ⟨.initialPoll readings, ?_⟩
      rw [RunState.step, if_pos ⟨haborted, hinitial⟩]
      rfl

/-- **The assumptions of a run.** Where the run is the only client of the daemon, what happens to it
is a run as it was described on its own: the update on offer changes only when a poll comes to an
end, and every change of the state is notified. -/
theorem run_of_alone (hrun : Run InitialAlone (stepAlone config) history s) :
    ∃ steps, Run RunState.Initial (RunState.step config) steps s.client := by
  induction hrun with
  | start h => exact ⟨[], .start h.1.session⟩
  | next hrun hstep ih =>
      obtain ⟨steps, hsteps⟩ := ih
      obtain ⟨seen, h⟩ := alone_of_run hrun
      rcases h.client_step hstep with hsame | ⟨event, hevent⟩
      · exact ⟨steps, hsame ▸ hsteps⟩
      · exact ⟨_, hsteps.next hevent⟩

/-- The update of `wholeUpdate`, without the call of the other client. -/
def wholeUpdateAlone : List (DrivingEvent Unit) := wholeUpdate.filter fun event => !foreign event

/-- The sample run begins on an installed system. -/
theorem started_initialAlone : started.InitialAlone := ⟨started_initial, rfl⟩

/-- A run that polls, fetches and applies is one of the runs of the updater alone. -/
theorem wholeUpdateAlone_run :
    ∃ history s steps,
      exec (stepAlone dailyConfig) [] started wholeUpdateAlone = some (history, s) ∧
        s.client.session.calls = [.apply, .fetchFull false, .poll] ∧
        Run RunState.Initial (RunState.step dailyConfig) steps s.client := by
  have hfinal : (exec (stepAlone dailyConfig) [] started wholeUpdateAlone).map
      (fun run => run.2.client.session.calls) = some [.apply, .fetchFull false, .poll] := by
    decide +kernel
  obtain ⟨⟨history, s⟩, hexec, hcalls⟩ := Option.map_eq_some_iff.1 hfinal
  obtain ⟨steps, hsteps⟩ := run_of_alone (Run.of_exec (.start started_initialAlone) hexec)
  exact ⟨history, s, steps, hexec, hcalls, hsteps⟩

/-- **No call is refused.** Where the run is the only client of the daemon, on an installed system,
it makes no call while another one is in flight, and each of its calls reaches the daemon in a state
that allows it, of which the run has heard, so that the daemon answers none with an error. -/
theorem never_refused (hrun : Run InitialAlone (stepAlone config) history s) :
    (∀ call ∈ s.calls, s.calls = [call] ∧ s.notices = [] ∧
        s.skeleton.shown.state ∈ call.kind.startsIn ∧
        s.client.properties = .ofShown s.skeleton.shown) ∧
      ∀ reply ∈ s.replies, reply = .ok () := by
  obtain ⟨seen, h⟩ := alone_of_run hrun
  refine ⟨fun call hcall => ?_, h.accepted⟩
  obtain ⟨hone, hpending, hstate⟩ := h.calling call hcall
  have hseen : seen = s.skeleton.shown := by
    have hpipeline := h.pipeline
    rw [hpending] at hpipeline
    cases hpipeline
    rfl
  exact ⟨hone, (current_of_pending hpending).1, hseen ▸ hstate, hseen ▸ h.sound.properties⟩

/-- The call of the fetch, once the update was found. -/
theorem wholeUpdateAlone_fetches :
    ∃ history s,
      exec (stepAlone dailyConfig) [] started (wholeUpdateAlone.take 8) = some (history, s) ∧
        s.calls = [.fetchFull false] ∧
        (∀ call ∈ s.calls, s.calls = [call] ∧ s.notices = [] ∧
          s.skeleton.shown.state ∈ call.kind.startsIn ∧
          s.client.properties = .ofShown s.skeleton.shown) ∧
        ∀ reply ∈ s.replies, reply = .ok () := by
  have hfinal : (exec (stepAlone dailyConfig) [] started (wholeUpdateAlone.take 8)).map
      (fun run => run.2.calls) = some [.fetchFull false] := by decide +kernel
  obtain ⟨⟨history, s⟩, hexec, hcalls⟩ := Option.map_eq_some_iff.1 hfinal
  exact ⟨history, s, hexec, hcalls,
    never_refused (Run.of_exec (.start started_initialAlone) hexec)⟩

/-! ### How the run ends -/

/-- What has been done is all that there is to do, in the state that the daemon is in: the run has
polled and there is no update, a step is not among those that are configured, or it was too early to
apply an update that the user sees. -/
def Finished (config : Config) (history : History (Driving ρ) (DrivingEvent ρ))
    (session : Session) (shown : Shown) : Prop :=
  match shown.state with
  | .ready =>
      (∃ call ∈ session.calls, call.kind = .poll) ∨ config.lastAutomaticStep.value < 1
  | .error => config.lastAutomaticStep.value < 1
  | .updateAvailable => config.lastAutomaticStep.value < 2
  | .updateReady =>
      config.lastAutomaticStep.value < 3 ∨
        config.forceUpdate = false ∧ shown.updateIsUserVisible = true ∧
          ∃ τ ∈ history, ∃ readings, τ.event.readings = some readings ∧
            ∃ results, session.pollResults = some results ∧
              (usecs readings.applyTime).toNat < results.lastChangedUsecs.toNat +
                config.userVisibleDelayDays.toNat * usecPerDay.toNat
  | .updateApplied => True
  | _ => False

/-- How a run ends: with no call in flight and no change left to be announced or handled, in failure
exactly if the daemon has reported an error. The replies to its calls may still be in flight. -/
structure Ended (config : Config) (history : History (Driving ρ) (DrivingEvent ρ))
    (s : Driving ρ) : Prop where
  running : s.client.session.quit = false → s.client.session.shouldExitFailure = false
  calls : s.client.session.quit = true → s.calls = []
  pending : s.client.session.quit = true → s.pending = []
  failed : s.client.session.quit = true → s.client.session.shouldExitFailure = true →
    s.skeleton.shown.state = .error
  finished : s.client.session.quit = true → s.client.session.shouldExitFailure = false →
    Finished config history s.client.session s.skeleton.shown

/-- What has finished stays so. -/
theorem Finished.mono {session : Session} {shown : Shown}
    (h : Finished config history session shown) (τ : Transition (Driving ρ) (DrivingEvent ρ)) :
    Finished config (τ :: history) session shown := by
  unfold Finished at h ⊢
  split at h
  all_goals try exact h
  rcases h with hstep | ⟨hforce, hvisible, σ, hσ, hearly⟩
  · exact .inl hstep
  · exact .inr ⟨hforce, hvisible, σ, List.mem_cons_of_mem _ hσ, hearly⟩

/-- Once the run has quit, no worker is in flight. -/
theorem Finished.notMem_busy {session : Session} {shown : Shown}
    (h : Finished config history session shown) : shown.state ∉ busy := by
  intro hbusy
  unfold Finished at h
  obtain ⟨kind, hkind⟩ := exists_kind_of_mem_busy hbusy
  rw [hkind] at h
  cases kind <;> exact h

/-- A run that is done with the state that the daemon is in has finished. -/
theorem finished_of_done {readings : Readings} {session : Session} {shown : Shown}
    {τ : Transition (Driving ρ) (DrivingEvent ρ)} (hreadings : τ.event.readings = some readings)
    (hpolled : session.polledAlready = true → ∃ call ∈ session.calls, call.kind = .poll)
    (hdone : Session.Done config readings (.ofShown shown) session shown.state) :
    Finished config (τ :: history) session shown := by
  unfold Finished
  cases hstate : shown.state with
  | ready =>
      rw [hstate] at hdone
      exact hdone.imp_left hpolled
  | updateReady =>
      rw [hstate] at hdone
      refine hdone.imp_right fun ⟨hforce, hvisible, results, hresults, hearly⟩ => ?_
      refine ⟨hforce, hvisible, τ, List.mem_cons_self, readings, hreadings, results, hresults, ?_⟩
      have hlt := UInt64.lt_iff_toNat_lt.1 hearly
      rw [Session.toNat_nextUpdate] at hlt
      exact lt_of_lt_of_le hlt (min_le_left _ _)
  | updateAvailable | updateApplied =>
      rw [hstate] at hdone
      exact hdone
  | none | error | polling | fetching | applyingUpdate =>
      rw [hstate] at hdone
      exact hdone.elim

/-- While the run goes on, it has not failed. -/
theorem Ended.of_running (hquit : s.client.session.quit = false)
    (hfailure : s.client.session.shouldExitFailure = false) : Ended config history s where
  running := fun _ => hfailure
  calls := fun h => absurd (hquit.symm.trans h) Bool.false_ne_true
  pending := fun h => absurd (hquit.symm.trans h) Bool.false_ne_true
  failed := fun h => absurd (hquit.symm.trans h) Bool.false_ne_true
  finished := fun h => absurd (hquit.symm.trans h) Bool.false_ne_true

/-- An answer ends the run with the state that the daemon is in, or with an error that the run has
pretended not to see. -/
theorem ended_of_responds {readings : Readings} {properties : Properties}
    {state : EosUpdaterState} {client : RunState}
    {τ : Transition (Driving ρ) (DrivingEvent ρ)} (hreadings : τ.event.readings = some readings)
    (hrunning : s.client.session.quit = false)
    (hfine : s.client.session.shouldExitFailure = false) (hcalls : s.calls = [])
    (hpolled : client.session.polledAlready = true →
      ∃ call ∈ client.session.calls, call.kind = .poll)
    (hresponds : Session.Responds config readings properties s.client.session state client.session)
    (hidle : state ∉ busy → s.pending = [] ∧
      ((s.skeleton.shown.state = state ∧ properties = .ofShown s.skeleton.shown) ∨
        state = .ready ∧ s.skeleton.shown.state = .error ∧ s.client.session.calls = [])) :
    Ended config (τ :: history) (s.advance client) := by
  -- a run that ends makes no call with its last answer
  have hnone (hsame : client.session.calls = s.client.session.calls) :
      (s.advance client).calls = [] := by
    simp [Driving.advance, hcalls, Session.callsSince_of_eq hsame]
  cases hresponds with
  | waits _ _ hquit hfailure => exact .of_running (hquit.trans hrunning) (hfailure.trans hfine)
  | calls _ _ _ _ hquit hfailure =>
      exact .of_running (hquit.trans hrunning) (hfailure.trans hfine)
  | fails herror hsame hquit hfailure =>
      obtain ⟨hpending, ⟨hshown, -⟩ | ⟨hready, -⟩⟩ := hidle (by rw [herror]; decide)
      · exact
          { running := fun h => absurd (h.symm.trans hquit) Bool.false_ne_true
            calls := fun _ => hnone hsame
            pending := fun _ => hpending
            failed := fun _ _ => hshown.trans herror
            finished := fun _ h => absurd (h.symm.trans hfailure) Bool.false_ne_true }
      · rw [hready] at herror
        cases herror
  | done hdone hsame hquit hfailure hkept =>
      -- it is done in a state without a worker only
      have hbusy : state ∉ busy := by
        intro hbusy
        obtain ⟨kind, rfl⟩ := exists_kind_of_mem_busy hbusy
        cases kind <;> exact hdone
      obtain ⟨hpending, hshown⟩ := hidle hbusy
      refine
        { running := fun h => absurd (h.symm.trans hquit) Bool.false_ne_true
          calls := fun _ => hnone hsame
          pending := fun _ => hpending
          failed := fun _ h => absurd (hfine.symm.trans (hfailure.symm.trans h)) Bool.false_ne_true
          finished := fun _ _ => ?_ }
      rcases hshown with ⟨hshown, rfl⟩ | ⟨rfl, herror, hempty⟩
      · rw [← hshown] at hdone
        exact finished_of_done hreadings hpolled hdone
      · -- the run has not polled, so a poll is not configured
        show Finished config (τ :: history) client.session s.skeleton.shown
        unfold Finished
        rw [herror]
        rcases hdone with hpolled' | hstep
        · obtain ⟨call, hmem, -⟩ := hpolled hpolled'
          rw [hsame, hempty] at hmem
          cases hmem
        · exact hstep

/-- Nothing that happens to the daemon or to a message changes how a run has ended. -/
theorem Ended.of_client (h : Ended config history s)
    (τ : Transition (Driving ρ) (DrivingEvent ρ)) (hclient : t.client = s.client)
    (hquit : s.client.session.quit = true → t.calls = s.calls ∧ t.pending = s.pending ∧
      t.skeleton.shown = s.skeleton.shown) : Ended config (τ :: history) t where
  running := by rw [hclient]; exact h.running
  calls := by
    rw [hclient]
    exact fun hend => (hquit hend).1.trans (h.calls hend)
  pending := by
    rw [hclient]
    exact fun hend => (hquit hend).2.1.trans (h.pending hend)
  failed := by
    rw [hclient]
    exact fun hend hfailure => (hquit hend).2.2 ▸ h.failed hend hfailure
  finished := by
    rw [hclient]
    exact fun hend hfine => (hquit hend).2.2 ▸ (h.finished hend hfine).mono τ

/-- Once a run has quit, the state of the daemon is one without a worker. -/
theorem Ended.notMem_busy (h : Ended config history s) (hquit : s.client.session.quit = true) :
    s.skeleton.shown.state ∉ busy := by
  cases hfailure : s.client.session.shouldExitFailure with
  | true =>
      rw [h.failed hquit hfailure]
      decide
  | false => exact (h.finished hquit hfailure).notMem_busy

/-- No worker is in flight that could return. -/
theorem Ended.daemon (h : Ended config history s) (halone : s.Alone seen)
    {event : Updater.Event ρ} (hforeign : foreign (.daemon event) = false)
    (hstep : s.step config (.daemon event) = some t) :
    Ended config (⟨s, .daemon event, t⟩ :: history) t := by
  obtain ⟨skeleton, hskeleton, rfl⟩ := Option.map_eq_some_iff.1 hstep
  obtain ⟨hannounced, -, -⟩ := Skeleton.step_inversion hskeleton
  refine h.of_client _ rfl fun hquit => ?_
  -- a worker that ends was busy before, and only other clients start one
  have hshown : skeleton.shown = s.skeleton.shown := by
    have hshows := halone.sound.reached.shows hskeleton
    have hidle := h.notMem_busy hquit
    generalize s.skeleton.shown = before at hshows hidle
    generalize skeleton.shown = after at hshows
    cases hshows with
    | same => rfl
    | starts => cases hforeign
    | ends kind hbefore => exact absurd (hbefore ▸ kind.state_mem_busy) hidle
  exact ⟨rfl, by simp only [Driving.pending, hshown, hannounced], hshown⟩

/-- An answer leaves the calls and the announcements. -/
theorem Ended.receiveReply (h : Ended config history s) (halone : s.Alone seen)
    (hstep : s.step config .receiveReply = some t) :
    Ended config (⟨s, .receiveReply, t⟩ :: history) t := by
  have hclient := (halone.receiveReply hstep).2
  simp only [Driving.step] at hstep
  split at hstep
  · cases hstep
  · obtain ⟨-, hsome⟩ := Option.ite_none_left_eq_some.1 hstep
    obtain rfl := Option.some_inj.1 hsome
    exact h.of_client _ hclient fun _ => ⟨rfl, rfl, rfl⟩

/-- A run that handles a notice has not quit before, and knows the state that the daemon is in. -/
theorem Ended.receiveNotice (h : Ended config history s) (halone : s.Alone seen)
    {readings : Readings} (hstep : s.step config (.receiveNotice readings) = some t) :
    Ended config (⟨s, .receiveNotice readings, t⟩ :: history) t := by
  obtain ⟨notice, notices, hnotices, rfl⟩ := receiveNotice_inversion hstep
  have hnext := halone.receiveNotice config readings hnotices
  obtain ⟨hsucceeds, hpipeline, hlast, hcalls⟩ := halone.of_notice hnotices
  have hannounces := halone.sound.announces
  rw [hnotices] at hannounces
  obtain ⟨⟩ | ⟨hfollows, -⟩ := hannounces
  have hrunning : s.client.session.quit = false := by
    cases hquit : s.client.session.quit with
    | false => rfl
    | true =>
        have hnone := (current_of_pending (h.pending hquit)).1
        rw [hnone] at hnotices
        cases hnotices
  refine ended_of_responds (s := { s with notices }) rfl hrunning (h.running hrunning) hcalls
    hnext.polled (halone.sound.responds_receive config readings hfollows hsucceeds.state_ne)
    fun hidle => ⟨hlast hidle, .inl ?_⟩
  -- nothing is left to be handled, so the notice says what the properties are
  have hnow := hlast hidle
  rw [hnow] at hpipeline
  generalize hshown : s.skeleton.shown = shown at hpipeline
  cases hpipeline
  exact ⟨rfl, rfl⟩

/-- The idle source does nothing, or it is the first to act on the state that the daemon is in. -/
theorem Ended.initialPoll (h : Ended config history s) (halone : s.Alone seen)
    {readings : Readings} (hstep : s.step config (.initialPoll readings) = some t) :
    Ended config (⟨s, .initialPoll readings, t⟩ :: history) t := by
  have hnext := halone.initialPoll hstep
  obtain ⟨hrunning, hinitial, rfl⟩ := initialPoll_inversion hstep
  rcases halone.sound.initialPoll_cases config readings hrunning hinitial with
    ⟨hsame, -⟩ | ⟨hprevious, state, hstate, -, hresponds⟩
  · refine .of_running ?_ ?_
    · show (s.client.session.initialPollIdleFunc _ _ _).quit = false
      rw [hsame]
      exact hrunning
    · show (s.client.session.initialPollIdleFunc _ _ _).shouldExitFailure = false
      rw [hsame]
      exact h.running hrunning
  · obtain ⟨hcalls, hnone, hlast⟩ := halone.unacted hprevious
    refine ended_of_responds rfl hrunning (h.running hrunning) hcalls hnext.polled hresponds
      fun hidle => ?_
    have hseen : seen.state ∉ busy := by
      rcases hstate with ⟨rfl, -⟩ | ⟨-, herror⟩
      · exact hidle
      · rw [herror]
        decide
    have hpipeline := halone.pipeline
    rw [hlast hseen] at hpipeline
    have hshown : seen = s.skeleton.shown := by
      cases hpipeline
      rfl
    refine ⟨hlast hseen, ?_⟩
    rw [← hshown]
    rcases hstate with ⟨rfl, -⟩ | ⟨hready, herror⟩
    · exact .inl ⟨rfl, halone.sound.properties⟩
    · exact .inr ⟨hready, herror, hnone⟩

/-- **One step.** -/
theorem Ended.step (h : Ended config history s) (halone : s.Alone seen) {event : DrivingEvent ρ}
    (hstep : s.stepAlone config event = some t) : Ended config (⟨s, event, t⟩ :: history) t := by
  obtain ⟨hforeign, hstep⟩ := Option.ite_none_left_eq_some.1 hstep
  cases event with
  | daemon event => exact h.daemon halone (Bool.not_eq_true _ ▸ hforeign) hstep
  | emitChanged =>
      obtain ⟨hchanged, rfl⟩ := emitChanged_inversion hstep
      refine h.of_client _ rfl fun hquit => ?_
      exact absurd (current_of_pending (h.pending hquit)).2 hchanged
  | receiveCall =>
      obtain ⟨call, hcalls, -, hclient, -⟩ := receives_of_step hstep
      refine h.of_client _ hclient fun hquit => ?_
      rw [h.calls hquit] at hcalls
      cases hcalls
  | receiveReply => exact h.receiveReply halone hstep
  | receiveNotice readings => exact h.receiveNotice halone hstep
  | initialPoll readings => exact h.initialPoll halone hstep

/-- **The exit status.** Where the run is the only client of the daemon, on an installed system, it
quits only with no call, no announcement and no worker in flight (the reply to a call may still be),
and fails exactly if the daemon has come to an error. It succeeds if the update is applied, if the
run has polled and there is none, if the next step is not among those that are configured, or if it
was too early to apply an update that the user sees. -/
theorem exits (hrun : Run InitialAlone (stepAlone config) history s) :
    Ended config history s ∧ (s.client.session.quit = true → s.skeleton.daemon.workers = []) := by
  have hended : Ended config history s := by
    induction hrun with
    | @start s h =>
        refine .of_running ?_ ?_
        · rw [h.1.session]
        · rw [h.1.session]
    | next hrun hstep ih =>
        obtain ⟨seen, halone⟩ := alone_of_run hrun
        exact ih.step halone hstep
  refine ⟨hended, fun hquit => ?_⟩
  obtain ⟨seen, halone⟩ := alone_of_run hrun
  refine halone.sound.reached.exclusive.idle fun kind hkind => ?_
  have hstate : s.skeleton.shown.state = kind.state := hkind
  exact hended.notMem_busy hquit (hstate ▸ kind.state_mem_busy)

/-- The run that polls, fetches and applies quits. -/
theorem wholeUpdateAlone_exits :
    ∃ history s, exec (stepAlone dailyConfig) [] started wholeUpdateAlone = some (history, s) ∧
      s.client.session.quit = true ∧ Ended dailyConfig history s ∧
      (s.client.session.quit = true → s.skeleton.daemon.workers = []) := by
  have hfinal : (exec (stepAlone dailyConfig) [] started wholeUpdateAlone).map
      (fun run => run.2.client.session.quit) = some true := by decide +kernel
  obtain ⟨⟨history, s⟩, hexec, hquit⟩ := Option.map_eq_some_iff.1 hfinal
  exact ⟨history, s, hexec, hquit, exits (Run.of_exec (.start started_initialAlone) hexec)⟩

end Driving

end Autoupdater
