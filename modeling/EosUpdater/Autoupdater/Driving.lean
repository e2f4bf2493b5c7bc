import EosUpdater.Autoupdater.Response
import EosUpdater.Machine.Potential
import Mathlib.Data.List.GetD

/-!
# The automatic updater and the daemon

A run of the automatic updater and the daemon, with the messages between them: the calls of the run,
the replies, and the properties that the daemon announces. Calls and announcements arrive in the
order in which they were sent, and replies at any time. Other clients may call the daemon at any
time too.

Whatever these do, the run does not hang: until it is told to quit, something that it waits for is
under way. And it does not go on for ever: it pays for its calls, and for what these lead to, from a
potential that only calls of other clients add to (`run_terminates`).

The daemon keeps its name on the bus throughout; a run that loses it quits (`onNameOwnerChanged`).
-/

namespace Autoupdater

open Machine Updater

variable {ρ : Type}

/-- The daemon, a run of the automatic updater, and the messages between them, the oldest first. -/
structure Driving (ρ : Type) where
  skeleton : Skeleton ρ
  notices : List Shown
  calls : List Call
  replies : List (Except Euu.GError Unit)
  client : RunState

/-- What happens to the daemon, to a message or to the run. -/
inductive DrivingEvent (ρ : Type)
  /-- A worker returns or goes on, or another client makes a call. -/
  | daemon (event : Updater.Event ρ)
  | emitChanged
  | receiveCall
  | receiveNotice (readings : Readings)
  | receiveReply
  | initialPoll (readings : Readings)

/-- The calls that were made between two moments of a run, the oldest first. -/
def Session.callsSince (s t : Session) : List Call :=
  (t.calls.take (t.calls.length - s.calls.length)).reverse

/-- The proxy takes over the properties that were announced, and notifies the run of the state if
this has changed. -/
def RunState.receive (config : Config) (readings : Readings) (s : RunState) (notice : Shown) :
    RunState where
  properties := .ofShown notice
  session :=
    if .state notice.state = s.properties.state then s.session
    else s.session.onStateChanged config readings (.ofShown notice) (.state notice.state)

/-- No call has been made. -/
theorem Session.callsSince_of_eq {s t : Session} (h : t.calls = s.calls) : s.callsSince t = [] := by
  simp [callsSince, h]

/-- One call has been made. -/
theorem Session.callsSince_of_cons {s t : Session} {call : Call} (h : t.calls = call :: s.calls) :
    s.callsSince t = [call] := by
  simp [callsSince, h]

namespace Driving

/-- The run has done something, and sends its calls. -/
def advance (s : Driving ρ) (client : RunState) : Driving ρ :=
  { s with client, calls := s.calls ++ s.client.session.callsSince client.session }

/-- One event. The idle source of the initial poll is not dispatched any more once the run was told
to quit. -/
def step (config : Config) (s : Driving ρ) : DrivingEvent ρ → Option (Driving ρ)
  | .daemon event => (s.skeleton.step event).map fun skeleton => { s with skeleton }
  | .emitChanged =>
      s.skeleton.emitChanged.map fun skeleton =>
        { s with skeleton, notices := s.notices ++ [skeleton.announced] }
  | .receiveCall =>
      match s.calls with
      | [] => none
      | call :: calls =>
          let daemon := s.skeleton.daemon.call call.method
          some { s with
            skeleton := { s.skeleton with daemon }
            calls
            replies := s.replies ++ daemon.answers.head?.toList }
  | .receiveNotice readings =>
      match s.notices with
      | [] => none
      | notice :: notices =>
          if s.client.session.aborted then none
          else some ({ s with notices }.advance (s.client.receive config readings notice))
  | .receiveReply =>
      match s.replies with
      | [] => none
      | reply :: replies =>
          if s.client.session.aborted then none
          else
            let error := match reply with
              | .ok () => none
              | .error e => some e
            some { s with
              replies
              client := { s.client with session := s.client.session.updateStepCallback error } }
  | .initialPoll readings =>
      if s.client.session.aborted = false ∧ s.client.session.quit = false ∧
          s.client.session.initialPoll = true then
        some (s.advance { s.client with
          session := s.client.session.initialPollIdleFunc config readings s.client.properties })
      else none

/-- A run begins, at any moment in the life of the daemon at which nothing is left to be announced:
its proxy has the properties of the daemon. -/
structure Initial (s : Driving ρ) : Prop where
  reached : s.skeleton.Reached
  current : s.skeleton.shown = s.skeleton.announced
  notices : s.notices = []
  calls : s.calls = []
  replies : s.replies = []
  session : s.client.Initial
  properties : s.client.properties = .ofShown s.skeleton.announced

/-! ### What a call does -/

variable {config : Config} {s t : Driving ρ}

/-- What the daemon does with a call of the run. -/
inductive Receives (s : Driving ρ) (call : Call) (t : Driving ρ) : Prop
  | refused (e : Euu.GError)
      (hrefused : s.skeleton.daemon.installed = false ∨
        s.skeleton.shown.state ∉ call.kind.startsIn)
      (hshown : t.skeleton.shown = s.skeleton.shown)
      (hreplies : t.replies = s.replies ++ [.error e])
  | accepted (hstate : s.skeleton.shown.state ∈ call.kind.startsIn)
      (hshown : t.skeleton.shown = { s.skeleton.shown with state := call.kind.state })
      (hreplies : t.replies = s.replies ++ [.ok ()])

/-- A call that arrives is the oldest one in flight, and the daemon processes it. -/
theorem receives_of_step (h : s.step config .receiveCall = some t) :
    ∃ call, s.calls = call :: t.calls ∧ t.notices = s.notices ∧ t.client = s.client ∧
      s.skeleton.step (.call call.method) = some t.skeleton ∧ Receives s call t := by
  simp only [step] at h
  split at h
  · cases h
  · next call calls hcalls =>
    obtain rfl := Option.some_inj.1 h
    refine ⟨call, hcalls, rfl, rfl, rfl, ?_⟩
    have hkind : call.method.kind = some call.kind := by cases call <;> rfl
    rcases s.skeleton.daemon.call_of_kind hkind with
      ⟨hrefused, e, hcall⟩ | ⟨hstate, work, hkind, hcall⟩
    · refine .refused e hrefused ?_ ?_
      · simp only [Skeleton.shown, hcall]
        rfl
      · simp [hcall, Daemon.returnError]
    · refine .accepted hstate ?_ ?_
      · simp only [Skeleton.shown, hcall, Daemon.startWorker_shown, hkind]
      · simp [hcall, Daemon.startWorker, Daemon.complete]

/-- The daemon announces its properties. -/
theorem emitChanged_inversion (hstep : s.step config .emitChanged = some t) :
    s.skeleton.shown ≠ s.skeleton.announced ∧
      t = { s with
        skeleton := { s.skeleton with announced := s.skeleton.shown }
        notices := s.notices ++ [s.skeleton.shown] } := by
  obtain ⟨skeleton, hskeleton, rfl⟩ := Option.map_eq_some_iff.1 hstep
  obtain ⟨hchanged, hskeleton⟩ := Option.ite_none_left_eq_some.1 hskeleton
  obtain rfl := Option.some_inj.1 hskeleton
  exact ⟨hchanged, rfl⟩

/-! ### What the run has been told -/

/-- What can be announced after something else. -/
structure Follows (before after : Shown) : Prop where
  starts : before.state ∉ busy → after.state ∈ busy
  polls : before.state = .error → after.state = .polling
  named : after.state ≠ .none

/-- From what a run has been told, a list of announcements leads to the last one. -/
inductive Announces : Shown → List Shown → Shown → Prop
  | nil (shown : Shown) : Announces shown [] shown
  | cons {seen notice last : Shown} {notices : List Shown} (hfollows : Follows seen notice)
      (hrest : Announces notice notices last) : Announces seen (notice :: notices) last

/-- What follows the last announcement can be announced behind it. -/
theorem Announces.concat {seen last next : Shown} {notices : List Shown}
    (h : Announces seen notices last) (hfollows : Follows last next) :
    Announces seen (notices ++ [next]) next := by
  induction h with
  | nil shown => exact .cons hfollows (.nil next)
  | cons hfirst _ ih => exact .cons hfirst (ih hfollows)

/-- How far the run has got with the state that its proxy has: it has not begun, it has acted on the
state, or it has pretended that an error is none. -/
inductive Acted (session : Session) (state : EosUpdaterState) : Prop
  | begins (hprevious : session.previousState = .state .none)
      (hinitial : session.initialPoll = true)
  | acted (hprevious : session.previousState = .state state)
      (hfailed : state = .error → session.quit = true)
  | pretended (hstate : state = .error) (hprevious : session.previousState = .state .ready)
      (hinitial : session.initialPoll = false)

/-- What the run waits for. -/
def Underway (s : Driving ρ) : Prop :=
  s.client.session.previousState = .state .none ∨ s.notices ≠ [] ∨
    s.skeleton.shown ≠ s.skeleton.announced ∨ s.skeleton.shown.state ∈ busy ∨ s.calls ≠ [] ∨
    ∃ e, Except.error e ∈ s.replies

/-- What holds at the end of every run. -/
structure Sound (s : Driving ρ) (seen : Shown) : Prop where
  reached : s.skeleton.Reached
  told : s.skeleton.Told
  aborted : s.client.session.aborted = false
  properties : s.client.properties = .ofShown seen
  announces : Announces seen s.notices s.skeleton.announced
  named : seen.state ≠ .none
  acted : Acted s.client.session seen.state
  underway : s.client.session.quit = false → s.Underway

variable {seen : Shown}

/-- At the beginning the run has been told what the daemon shows. -/
theorem Initial.sound (h : s.Initial) : s.Sound s.skeleton.announced where
  reached := h.reached
  told := Skeleton.told_of_current h.current
  aborted := by rw [h.session]
  properties := h.properties
  announces := by
    rw [h.notices]
    exact .nil _
  named := by
    rw [← h.current]
    exact h.reached.state_ne_none
  acted := .begins (by rw [h.session]) (by rw [h.session])
  underway := fun _ => .inl (by rw [h.session])

/-- An event of the daemon, other than a call of the run. -/
theorem Sound.daemon (h : s.Sound seen) {event : Updater.Event ρ}
    (hstep : s.step config (.daemon event) = some t) : t.Sound seen := by
  obtain ⟨skeleton, hskeleton, rfl⟩ := Option.map_eq_some_iff.1 hstep
  obtain ⟨hannounced, -, hcurrent⟩ := Skeleton.step_inversion hskeleton
  have hshows := h.reached.shows hskeleton
  refine { h with
    reached := h.reached.step hskeleton
    told := h.told.step h.reached hskeleton
    announces := by simpa only [hannounced] using h.announces
    underway := fun hquit => ?_ }
  have hunderway := h.underway hquit
  unfold Underway at hunderway ⊢
  dsimp only
  rw [hannounced]
  generalize s.skeleton.shown = before at hshows hcurrent hunderway
  generalize skeleton.shown = after at hshows ⊢
  cases hshows with
  | same => exact hunderway
  | starts kind => exact .inr (.inr (.inr (.inl kind.state_mem_busy)))
  | ends kind hbefore hafter =>
      -- the state with the worker was announced, and this one is another
      refine .inr (.inr (.inl fun hsame => ?_))
      refine kind.notMem_busy_of_endsIn hafter ?_
      rw [hsame, ← hcurrent ⟨_, _, rfl⟩, hbefore]
      exact kind.state_mem_busy

/-- What is announced follows what was announced last. -/
theorem Sound.emitChanged (h : s.Sound seen) (hstep : s.step config .emitChanged = some t) :
    t.Sound seen := by
  obtain ⟨hchanged, rfl⟩ := emitChanged_inversion hstep
  have hidle : (s.notices ++ [s.skeleton.shown]) ≠ [] := by simp
  exact { h with
    reached := h.reached
    told := Skeleton.told_of_current rfl
    announces := h.announces.concat
      ⟨fun hstate => h.told.starts hstate hchanged, fun hstate => h.told.polls hstate hchanged,
        h.reached.state_ne_none⟩
    underway := fun _ => .inr (.inl hidle) }

/-- A call that is refused leads to a reply, and one that is accepted to a worker. -/
theorem Sound.receiveCall (h : s.Sound seen) (hstep : s.step config .receiveCall = some t) :
    t.Sound seen := by
  obtain ⟨call, hcalls, hnotices, hclient, hskeleton, hreceives⟩ := receives_of_step hstep
  obtain ⟨hannounced, -⟩ := Skeleton.step_inversion hskeleton
  refine
    { reached := h.reached.step hskeleton
      told := h.told.step h.reached hskeleton
      aborted := hclient ▸ h.aborted
      properties := hclient ▸ h.properties
      announces := by rw [hnotices, hannounced]; exact h.announces
      named := h.named
      acted := hclient ▸ h.acted
      underway := fun _ => ?_ }
  cases hreceives with
  | refused e _ hshown hreplies =>
      exact .inr (.inr (.inr (.inr (.inr ⟨e, by simp [hreplies]⟩))))
  | accepted hstate hshown hreplies =>
      refine .inr (.inr (.inr (.inl ?_)))
      rw [hshown]
      exact call.kind.state_mem_busy

/-- A reply with an error ends the run. -/
theorem Sound.receiveReply (h : s.Sound seen) (hstep : s.step config .receiveReply = some t) :
    t.Sound seen := by
  simp only [step] at hstep
  split at hstep
  · cases hstep
  · next reply replies hreplies =>
    obtain ⟨-, hsome⟩ := Option.ite_none_left_eq_some.1 hstep
    obtain rfl := Option.some_inj.1 hsome
    cases reply with
    | ok _ =>
        refine { h with underway := fun hquit => ?_ }
        -- a reply without an error was nothing to wait for
        have hunderway := h.underway hquit
        unfold Underway at hunderway ⊢
        simpa [hreplies, Session.updateStepCallback] using hunderway
    | error e =>
        refine
          { reached := h.reached
            told := h.told
            aborted := h.aborted
            properties := h.properties
            announces := h.announces
            named := h.named
            acted := ?_
            underway := fun hquit => by cases hquit }
        cases h.acted with
        | begins hprevious hinitial => exact .begins hprevious hinitial
        | acted hprevious hfailed => exact .acted hprevious fun _ => rfl
        | pretended hstate hprevious hinitial => exact .pretended hstate hprevious hinitial

/-- Once the run has answered to a state, it has quit, or there is something to wait for. -/
theorem underway_of_responds {readings : Readings} {properties : Properties}
    {state : EosUpdaterState} (client : RunState)
    (hannounces : Announces seen s.notices s.skeleton.announced)
    (hresponds : Session.Responds config readings properties s.client.session state client.session)
    (hstate : state ∈ busy → seen.state = state) (hquit : client.session.quit = false) :
    (s.advance client).Underway := by
  cases hresponds with
  | waits hbusy =>
      cases hnotices : s.notices with
      | cons notice notices => exact .inr (.inl (by simp [advance, hnotices]))
      | nil =>
          rw [hnotices] at hannounces
          cases hannounces
          -- all was announced and handled, so it is the state of the daemon
          by_cases hcurrent : s.skeleton.shown = s.skeleton.announced
          · refine .inr (.inr (.inr (.inl ?_)))
            show s.skeleton.shown.state ∈ busy
            rw [hcurrent, hstate hbusy]
            exact hbusy
          · exact .inr (.inr (.inl hcurrent))
  | calls call _ _ hcalls =>
      refine .inr (.inr (.inr (.inr (.inl ?_))))
      simp [advance, Session.callsSince_of_cons hcalls]
  | fails _ _ hquits | done _ _ hquits =>
      rw [hquit] at hquits
      cases hquits

/-- The handler of the state fails no assertion. -/
theorem aborted_onStateChanged (readings : Readings) (properties : Properties) (session : Session)
    (state : StateValue) :
    (session.onStateChanged config readings properties state).aborted = session.aborted :=
  (Session.handled_onStateChanged config readings properties session state).aborted

/-- The idle source is dispatched once, before the run was told to quit. -/
theorem initialPoll_inversion {readings : Readings}
    (hstep : s.step config (.initialPoll readings) = some t) :
    s.client.session.quit = false ∧ s.client.session.initialPoll = true ∧
      t = s.advance { s.client with
        session := s.client.session.initialPollIdleFunc config readings s.client.properties } := by
  obtain ⟨⟨-, hrunning, hinitial⟩, hsome⟩ := Option.ite_none_right_eq_some.1 hstep
  exact ⟨hrunning, hinitial, (Option.some_inj.1 hsome).symm⟩

/-- The idle source finds that the run has acted on the state already, or it is the first to act. -/
theorem Sound.initialPoll_cases (h : s.Sound seen) (config : Config) (readings : Readings)
    (hrunning : s.client.session.quit = false) (hinitial : s.client.session.initialPoll = true) :
    (s.client.session.initialPollIdleFunc config readings s.client.properties =
        { s.client.session with initialPoll := false } ∧
      s.client.session.previousState = .state seen.state ∧ seen.state ≠ .error) ∨
    s.client.session.previousState = .state .none ∧ ∃ state : EosUpdaterState,
      (state = seen.state ∧ seen.state ≠ .error ∨ state = .ready ∧ seen.state = .error) ∧
      s.client.session.initialPollIdleFunc config readings s.client.properties =
        { s.client.session with initialPoll := false }.onStateChanged config readings
          s.client.properties (.state state) ∧
      Session.Responds config readings s.client.properties s.client.session state
        (s.client.session.initialPollIdleFunc config readings s.client.properties) := by
  -- an error that was there before the run is taken for `ready`
  have hstate : Session.initialState s.client.properties =
      if seen.state = .error then .state .ready else .state seen.state := by
    simp [Session.initialState, h.properties, Properties.ofShown]
  have hidle (state : EosUpdaterState)
      (hbegin : Session.initialState s.client.properties = .state state) :
      s.client.session.initialPollIdleFunc config readings s.client.properties =
        { s.client.session with initialPoll := false }.onStateChanged config readings
          s.client.properties (.state state) := by
    rw [Session.initialPollIdleFunc, hbegin]
  have hresponds (state : EosUpdaterState) (hnamed : state ≠ .none)
      (hprevious : s.client.session.previousState = .state .none)
      (hbegin : Session.initialState s.client.properties = .state state) :
      Session.Responds config readings s.client.properties s.client.session state
        (s.client.session.initialPollIdleFunc config readings s.client.properties) := by
    rw [hidle state hbegin]
    refine (Session.responds_onStateChanged config readings s.client.properties ?_ hnamed).congr
      rfl rfl rfl rfl
    rw [hprevious]
    simpa using hnamed
  cases h.acted with
  | begins hprevious =>
      refine .inr ⟨hprevious, ?_⟩
      by_cases herror : seen.state = .error
      · rw [if_pos herror] at hstate
        exact ⟨.ready, .inr ⟨rfl, herror⟩, hidle _ hstate,
          hresponds _ (by decide) hprevious hstate⟩
      · rw [if_neg herror] at hstate
        exact ⟨seen.state, .inl ⟨rfl, herror⟩, hidle _ hstate,
          hresponds _ h.named hprevious hstate⟩
  | acted hprevious hfailed =>
      -- an error that the run has acted on makes it quit
      have herror : seen.state ≠ .error := fun herror => by
        rw [hfailed herror] at hrunning
        cases hrunning
      rw [if_neg herror] at hstate
      refine .inl ⟨?_, hprevious, herror⟩
      rw [hidle _ hstate, Session.onStateChanged, if_pos hprevious.symm]
  | pretended _ _ hdispatched =>
      -- only this source pretends, and it is dispatched once
      rw [hdispatched] at hinitial
      cases hinitial

/-- The idle source acts on the state of the proxy. -/
theorem Sound.initialPoll (h : s.Sound seen) {readings : Readings}
    (hstep : s.step config (.initialPoll readings) = some t) : t.Sound seen := by
  obtain ⟨hrunning, hinitial, rfl⟩ := initialPoll_inversion hstep
  set session := s.client.session.initialPollIdleFunc config readings s.client.properties
    with hsession
  rcases h.initialPoll_cases config readings hrunning hinitial with
    ⟨hsame, hprevious, herror⟩ | ⟨hprevious, state, hstate, hidle, hresponds⟩
  · -- nothing is called, so what was under way still is
    rw [← hsession] at hsame
    exact
      { reached := h.reached
        told := h.told
        aborted := by
          show session.aborted = false
          rw [hsame]
          exact h.aborted
        properties := h.properties
        announces := h.announces
        named := h.named
        acted := by
          show Acted session seen.state
          rw [hsame]
          exact .acted hprevious fun h => absurd h herror
        underway := fun _ => by
          have hcalls : s.client.session.callsSince session = [] :=
            Session.callsSince_of_eq (by rw [hsame])
          rcases h.underway hrunning with hbegins | hunderway
          · rw [hprevious] at hbegins
            exact absurd (StateValue.state.inj hbegins) h.named
          · refine .inr ?_
            simpa [advance, hcalls] using hunderway }
  · -- the run answers to the state, which may be a pretended one
    rw [← hsession] at hidle hresponds
    have hnow : session.previousState = .state state :=
      hidle ▸ Session.previousState_onStateChanged _ _ _ _ _
    have hdispatched : session.initialPoll = false :=
      hidle ▸ Session.initialPoll_onStateChanged _ _ _ _ _
    exact
      { reached := h.reached
        told := h.told
        aborted := by
          show session.aborted = false
          rw [hidle, aborted_onStateChanged]
          exact h.aborted
        properties := h.properties
        announces := h.announces
        named := h.named
        acted := by
          show Acted session seen.state
          rcases hstate with ⟨rfl, herror⟩ | ⟨rfl, herror⟩
          · exact .acted hnow fun h => absurd h herror
          · exact .pretended herror hnow hdispatched
        underway := fun hquit => by
          refine underway_of_responds { s.client with session } h.announces hresponds ?_ hquit
          rcases hstate with ⟨rfl, -⟩ | ⟨rfl, -⟩
          · exact fun _ => rfl
          · exact fun hbusy => absurd hbusy (by decide) }

/-- The oldest notice is handled first. -/
theorem receiveNotice_inversion {readings : Readings}
    (hstep : s.step config (.receiveNotice readings) = some t) :
    ∃ notice notices, s.notices = notice :: notices ∧
      t = { s with notices }.advance (s.client.receive config readings notice) := by
  simp only [step] at hstep
  split at hstep
  · cases hstep
  · next notice notices hnotices =>
    obtain ⟨-, hsome⟩ := Option.ite_none_left_eq_some.1 hstep
    exact ⟨notice, notices, hnotices, (Option.some_inj.1 hsome).symm⟩

/-- The properties that an announcement replaces are those that the run has seen. -/
theorem receive_session (config : Config) (readings : Readings) {client : RunState}
    (notice : Shown) (hproperties : client.properties = .ofShown seen) :
    (notice.state = seen.state →
        (client.receive config readings notice).session = client.session) ∧
      (notice.state ≠ seen.state →
        (client.receive config readings notice).session =
          client.session.onStateChanged config readings (.ofShown notice)
            (.state notice.state)) := by
  constructor
  · intro hsame
    simp [RunState.receive, hproperties, Properties.ofShown, hsame]
  · intro hne
    simp [RunState.receive, hproperties, Properties.ofShown, hne]

/-- The run answers to a state that is new to its proxy, which it has not acted on either. -/
theorem Sound.responds_receive (h : s.Sound seen) (config : Config) (readings : Readings)
    {notice : Shown} (hfollows : Follows seen notice) (hne : notice.state ≠ seen.state) :
    Session.Responds config readings (.ofShown notice) s.client.session notice.state
      (s.client.receive config readings notice).session := by
  rw [(receive_session config readings notice h.properties).2 hne]
  refine Session.responds_onStateChanged config readings (.ofShown notice) ?_ hfollows.named
  cases h.acted with
  | begins hprevious => rw [hprevious]; simpa using hfollows.named
  | acted hprevious => rw [hprevious]; simpa using hne
  | pretended hstate hprevious => rw [hprevious, hfollows.polls hstate]; decide

/-- The run has been told what the notice says. -/
theorem Sound.receiveNotice (h : s.Sound seen) (readings : Readings) {notice : Shown}
    {notices : List Shown} (hnotices : s.notices = notice :: notices) :
    ({ s with notices }.advance (s.client.receive config readings notice) :
      Driving ρ).Sound notice := by
  have hannounces := h.announces
  rw [hnotices] at hannounces
  obtain ⟨⟩ | ⟨hfollows, hrest⟩ := hannounces
  by_cases hsame : notice.state = seen.state
  · -- the state has not changed, so it is one with a worker
    have hbusy : notice.state ∈ busy := by
      by_contra hidle
      exact hidle (hfollows.starts (hsame ▸ hidle))
    have hsession : (s.client.receive config readings notice).session = s.client.session :=
      (receive_session config readings notice h.properties).1 hsame
    exact
      { reached := h.reached
        told := h.told
        aborted := by
          show (s.client.receive config readings notice).session.aborted = false
          rw [hsession]
          exact h.aborted
        properties := rfl
        announces := hrest
        named := hfollows.named
        acted := by
          show Acted (s.client.receive config readings notice).session notice.state
          rw [hsession, hsame]
          exact h.acted
        underway := fun _ => by
          cases hrest with
          | cons => exact .inr (.inl (by simp [advance]))
          | nil =>
              by_cases hcurrent : s.skeleton.shown = s.skeleton.announced
              · refine .inr (.inr (.inr (.inl ?_)))
                show s.skeleton.shown.state ∈ busy
                rwa [hcurrent]
              · exact .inr (.inr (.inl hcurrent)) }
  · -- a new state, which the run answers to
    have hsession := (receive_session config readings notice h.properties).2 hsame
    have hresponds := h.responds_receive config readings hfollows hsame
    exact
      { reached := h.reached
        told := h.told
        aborted := by
          show (s.client.receive config readings notice).session.aborted = false
          rw [hsession, aborted_onStateChanged]
          exact h.aborted
        properties := rfl
        announces := hrest
        named := hfollows.named
        acted := by
          refine .acted ?_ fun herror => ?_
          · show (s.client.receive config readings notice).session.previousState = _
            rw [hsession]
            exact Session.previousState_onStateChanged _ _ _ _ _
          · cases hresponds with
            | waits hbusy => rw [herror] at hbusy; exact absurd hbusy (by decide)
            | calls _ _ hcallable => exact absurd herror hcallable
            | fails _ _ hquit | done _ _ hquit => exact hquit
        underway := fun hquit =>
          underway_of_responds _ hrest hresponds (fun _ => rfl) hquit }

/-- **Soundness.** Every event keeps what holds of the messages and of the run. -/
theorem Sound.step (h : s.Sound seen) {event : DrivingEvent ρ}
    (hstep : s.step config event = some t) : ∃ seen, t.Sound seen := by
  cases event with
  | daemon event => exact ⟨seen, h.daemon hstep⟩
  | emitChanged => exact ⟨seen, h.emitChanged hstep⟩
  | receiveCall => exact ⟨seen, h.receiveCall hstep⟩
  | receiveNotice readings =>
      obtain ⟨notice, notices, hnotices, rfl⟩ := receiveNotice_inversion hstep
      exact ⟨notice, h.receiveNotice readings hnotices⟩
  | receiveReply => exact ⟨seen, h.receiveReply hstep⟩
  | initialPoll readings => exact ⟨seen, h.initialPoll hstep⟩

variable {history : History (Driving ρ) (DrivingEvent ρ)}

/-- **Any number of steps.** -/
theorem sound_of_run (hrun : Run Initial (step config) history s) : ∃ seen, s.Sound seen := by
  induction hrun with
  | start h => exact ⟨_, h.sound⟩
  | next _ hstep ih =>
      obtain ⟨seen, h⟩ := ih
      exact h.step hstep

/-! ### What is spent -/

/-- What a state of the daemon may still lead to. -/
def worth : EosUpdaterState → ℕ
  | .polling => 25
  | .updateAvailable => 20
  | .fetching => 15
  | .updateReady => 10
  | .applyingUpdate => 5
  | _ => 0

/-- What a call may lead to. -/
def cost (call : Call) : ℕ := if call.kind = .poll then 31 else 2

/-- What a run may still lead to. -/
def potential (s : Driving ρ) : ℕ :=
  (if s.client.session.polledAlready then 0 else 31) + (s.calls.map cost).sum +
    worth s.skeleton.shown.state + (if s.skeleton.shown = s.skeleton.announced then 0 else 4) +
    3 * s.notices.length + s.replies.length + (if s.client.session.initialPoll then 3 else 0)

/-- The events that take a run further: its own, those of the messages to and from it, and the
return of a worker. Not among them are the calls of other clients, and the progress of a worker or
its deployment, which change none of the properties that are `Shown`. -/
def advances : DrivingEvent ρ → Bool
  | .daemon (.finished _ _) => true
  | .daemon _ => false
  | .emitChanged | .receiveCall | .receiveNotice _ | .receiveReply | .initialPoll _ => true

/-- The calls of other clients. -/
def foreign : DrivingEvent ρ → Bool
  | .daemon (.call _) => true
  | _ => false

/-- What an event takes from the potential. -/
def spends (event : DrivingEvent ρ) : ℕ := if advances event then 1 else 0

/-- A call of another client may start a poll. -/
def brings (event : DrivingEvent ρ) : ℕ := if foreign event then 29 else 0

/-- No state is worth more than that of an error. -/
theorem worth_le (state : EosUpdaterState) : worth state ≤ 25 := by
  cases state <;> decide

/-- The worker of a poll, and the others with the states in which they are started. -/
theorem worth_of_startsIn {kind : WorkerKind} {state : EosUpdaterState}
    (h : state ∈ kind.startsIn) (hkind : kind ≠ .poll) :
    worth kind.state + 5 = worth state := by
  revert h
  cases kind with
  | poll => exact absurd rfl hkind
  | fetch | apply => cases state <;> decide

/-- The end of a worker pays for its announcement and its notice. -/
theorem worth_of_endsIn {kind : WorkerKind} {state : EosUpdaterState} (h : state ∈ kind.endsIn) :
    worth state + 5 ≤ worth kind.state := by
  revert h
  cases kind <;> cases state <;> decide

/-- An answer of a run pays for its call. -/
theorem potential_of_responds {readings : Readings} {properties : Properties}
    {state : EosUpdaterState} {client : RunState}
    (hresponds : Session.Responds config readings properties s.client.session state client.session)
    (hinitial : client.session.initialPoll = s.client.session.initialPoll) :
    (s.advance client).potential ≤ s.potential + 2 := by
  have hsame (hcalls : client.session.calls = s.client.session.calls)
      (hpolled : client.session.polledAlready = s.client.session.polledAlready) :
      (s.advance client).potential = s.potential := by
    simp [potential, advance, Session.callsSince_of_eq hcalls, hpolled, hinitial]
  cases hresponds with
  | waits _ hcalls _ _ hpolled => exact (hsame hcalls hpolled).le.trans (Nat.le_add_right _ _)
  | fails _ hcalls _ _ hpolled => exact (hsame hcalls hpolled).le.trans (Nat.le_add_right _ _)
  | done _ hcalls _ _ hpolled => exact (hsame hcalls hpolled).le.trans (Nat.le_add_right _ _)
  | calls call _ _ hcalls _ _ hpolled hfirst =>
      simp only [potential, advance, Session.callsSince_of_cons hcalls, hinitial, hpolled,
        List.map_append, List.sum_append, List.map_cons, List.map_nil, List.sum_singleton, cost]
      by_cases hkind : call.kind = .poll
      · simp only [hkind, hfirst hkind, if_true, decide_true, Bool.or_true, Bool.false_eq_true,
          if_false]
        omega
      · simp only [hkind, if_false, decide_false, Bool.or_false]
        omega

/-- What an event of the daemon leaves of the potential. -/
theorem potential_daemon (h : s.Sound seen) {event : Updater.Event ρ}
    (hstep : s.step config (.daemon event) = some t) :
    t.potential + spends (.daemon event) ≤ s.potential + brings (.daemon event) := by
  obtain ⟨skeleton, hskeleton, rfl⟩ := Option.map_eq_some_iff.1 hstep
  obtain ⟨hannounced, -, hcurrent⟩ := Skeleton.step_inversion hskeleton
  have hshows := h.reached.shows hskeleton
  unfold potential
  dsimp only
  rw [hannounced]
  generalize s.skeleton.shown = before at hshows hcurrent
  generalize skeleton.shown = after at hshows ⊢
  -- a change of what is shown costs its announcement, unless that was owed before
  have hunannounced : (if after = s.skeleton.announced then 0 else 4) ≤ 4 := by
    split <;> omega
  cases hshows with
  | same hevent =>
      have hspends : spends (.daemon event) = 0 := by
        cases event with
        | finished worker outcome => exact absurd rfl (hevent worker outcome)
        | call | progress | deploy => rfl
      omega
  | starts kind =>
      have hworth := worth_le kind.state
      show _ + 0 ≤ _ + 29
      dsimp only
      omega
  | ends kind hbefore hafter =>
      have hworth := worth_of_endsIn hafter
      rw [hbefore, if_pos (hcurrent ⟨_, _, rfl⟩)]
      show _ + 1 ≤ _ + 0
      omega

/-- A call pays for its reply and its worker. -/
theorem potential_receiveCall (hstep : s.step config .receiveCall = some t) :
    t.potential + 1 ≤ s.potential := by
  obtain ⟨call, hcalls, hnotices, hclient, hskeleton, hreceives⟩ := receives_of_step hstep
  obtain ⟨hannounced, -⟩ := Skeleton.step_inversion hskeleton
  unfold potential
  rw [hcalls, hnotices, hclient, hannounced, List.map_cons, List.sum_cons]
  cases hreceives with
  | refused e _ hshown hreplies =>
      have hcost : 2 ≤ cost call := by
        unfold cost
        split <;> omega
      rw [hshown, hreplies, List.length_append, List.length_singleton]
      omega
  | accepted hstate hshown hreplies =>
      -- the call pays for the announcement, the reply and the worker
      have hcost : worth call.kind.state + 6 ≤ worth s.skeleton.shown.state + cost call := by
        unfold cost
        split
        · next hkind =>
          rw [hkind]
          show 25 + 6 ≤ _ + 31
          omega
        · next hkind =>
          have := worth_of_startsIn hstate hkind
          omega
      have hunannounced :
          (if t.skeleton.shown = s.skeleton.announced then 0 else 4) ≤ 4 := by
        split <;> omega
      have hworth : worth t.skeleton.shown.state = worth call.kind.state := by rw [hshown]
      rw [hworth, hreplies, List.length_append, List.length_singleton]
      omega

/-- What the answer to a state leaves of the potential, whether or not the state is new. -/
theorem potential_onStateChanged {readings : Readings} {properties : Properties}
    {state : EosUpdaterState} (hnamed : state ≠ .none) (client : RunState)
    (hclient : client.session =
      s.client.session.onStateChanged config readings properties (.state state)) :
    (s.advance client).potential ≤ s.potential + 2 := by
  by_cases hsame : StateValue.state state = s.client.session.previousState
  · rw [Session.onStateChanged, if_pos hsame] at hclient
    simp [potential, advance, hclient, Session.callsSince_of_eq]
  · have hresponds := Session.responds_onStateChanged config readings properties hsame hnamed
    have hinitial := Session.initialPoll_onStateChanged config readings properties s.client.session
      (.state state)
    rw [← hclient] at hresponds hinitial
    exact potential_of_responds hresponds hinitial

/-- A notice pays for the call that it may lead to. -/
theorem potential_receiveNotice (h : s.Sound seen) {readings : Readings}
    (hstep : s.step config (.receiveNotice readings) = some t) :
    t.potential + 1 ≤ s.potential := by
  obtain ⟨notice, notices, hnotices, rfl⟩ := receiveNotice_inversion hstep
  -- the notice pays for the call that it may lead to
  have hreceived : ({ s with notices } : Driving ρ).potential + 3 = s.potential := by
    simp only [potential, hnotices, List.length_cons]
    omega
  suffices hanswer : ({ s with notices }.advance (s.client.receive config readings notice) :
      Driving ρ).potential ≤ ({ s with notices } : Driving ρ).potential + 2 by omega
  obtain ⟨hkept, hchanged⟩ := receive_session config readings notice h.properties
  by_cases hsame : notice.state = seen.state
  · simp [potential, advance, hkept hsame, Session.callsSince_of_eq]
  · have hannounces := h.announces
    rw [hnotices] at hannounces
    obtain ⟨⟩ | ⟨hfollows, -⟩ := hannounces
    exact potential_onStateChanged hfollows.named _ (hchanged hsame)

/-- The idle source pays for the call that it may lead to. -/
theorem potential_initialPoll (h : s.Sound seen) {readings : Readings}
    (hstep : s.step config (.initialPoll readings) = some t) : t.potential + 1 ≤ s.potential := by
  obtain ⟨hrunning, hinitial, rfl⟩ := initialPoll_inversion hstep
  set session := s.client.session.initialPollIdleFunc config readings s.client.properties
    with hsession
  set begun : Driving ρ :=
    { s with client := { s.client with session := { s.client.session with initialPoll := false } } }
    with hbegun
  -- the source itself is worth three, one more than the answer may cost
  have hpaid : begun.potential + 3 = s.potential := by
    simp [potential, hbegun, hinitial]
  suffices hanswer : (begun.advance { s.client with session }).potential ≤ begun.potential + 2 by
    have hsame : begun.advance { s.client with session } = s.advance { s.client with session } :=
      rfl
    rw [hsame] at hanswer
    omega
  rcases h.initialPoll_cases config readings hrunning hinitial with
    ⟨hsame, -⟩ | ⟨-, state, hstate, hidle, -⟩
  · rw [← hsession] at hsame
    simp [potential, advance, hbegun, hsame, Session.callsSince_of_eq]
  · rw [← hsession] at hidle
    refine potential_onStateChanged (s := begun) ?_ { s.client with session } hidle
    rcases hstate with ⟨rfl, -⟩ | ⟨rfl, -⟩
    · exact h.named
    · decide

/-- **The price of a step.** -/
theorem potential_step (h : s.Sound seen) {event : DrivingEvent ρ}
    (hstep : s.step config event = some t) :
    t.potential + spends event ≤ s.potential + brings event := by
  cases event with
  | daemon event => exact potential_daemon h hstep
  | emitChanged =>
      obtain ⟨skeleton, hskeleton, rfl⟩ := Option.map_eq_some_iff.1 hstep
      obtain ⟨hchanged, hskeleton⟩ := Option.ite_none_left_eq_some.1 hskeleton
      obtain rfl := Option.some_inj.1 hskeleton
      have hshown : ({ s.skeleton with announced := s.skeleton.shown } : Skeleton ρ).shown =
          s.skeleton.shown := rfl
      unfold potential
      -- the unannounced properties become a notice, which is worth one less
      dsimp only
      rw [hshown, if_pos rfl, if_neg hchanged, List.length_append, List.length_singleton]
      show _ + 1 ≤ _ + 0
      omega
  | receiveCall => exact potential_receiveCall hstep
  | receiveNotice readings => exact potential_receiveNotice h hstep
  | receiveReply =>
      simp only [step] at hstep
      split at hstep
      · cases hstep
      · next reply replies hreplies =>
        obtain ⟨-, hsome⟩ := Option.ite_none_left_eq_some.1 hstep
        obtain rfl := Option.some_inj.1 hsome
        -- a reply makes no call, whether it is an error or not
        have hpolled (error : Option Euu.GError) :
            (s.client.session.updateStepCallback error).polledAlready =
                s.client.session.polledAlready ∧
              (s.client.session.updateStepCallback error).initialPoll =
                s.client.session.initialPoll := by
          cases error <;> exact ⟨rfl, rfl⟩
        unfold potential
        dsimp only
        rw [(hpolled _).1, (hpolled _).2, hreplies, List.length_cons]
        show _ + 1 ≤ _ + 0
        omega
  | initialPoll readings => exact potential_initialPoll h hstep

/-- A run begins with no more than this. -/
theorem Initial.potential_le (h : s.Initial) : s.potential ≤ 59 := by
  have hworth := worth_le s.skeleton.shown.state
  have hpolled : s.client.session.polledAlready = false := by rw [h.session]
  have hinitial : s.client.session.initialPoll = true := by rw [h.session]
  simp only [potential, h.current, h.notices, h.calls, h.replies, hpolled, hinitial, if_true,
    List.map_nil, List.sum_nil, List.length_nil, Bool.false_eq_true, if_false]
  rw [h.current] at hworth
  omega

/-! ### Termination -/

/-- Until it has quit, a run can go on without another client. -/
theorem Sound.exists_step (h : s.Sound seen) (hquit : s.client.session.quit = false) :
    ∃ event, advances event = true ∧ (s.step config event).isSome := by
  have hchanged (hne : s.skeleton.shown ≠ s.skeleton.announced) :
      ∃ event, advances event = true ∧ (s.step config event).isSome :=
    ⟨.emitChanged, rfl, by simp [Driving.step, Skeleton.emitChanged, hne]⟩
  rcases h.underway hquit with hbegins | hne | hne | hbusy | hne | ⟨e, herror⟩
  · -- a run that has done nothing yet still has its idle source
    cases h.acted with
    | begins hprevious hinitial =>
        exact ⟨.initialPoll ⟨0, 0, true, true⟩, rfl,
          by simp [Driving.step, h.aborted, hquit, hinitial]⟩
    | acted hprevious =>
        rw [hprevious] at hbegins
        exact absurd (StateValue.state.inj hbegins) h.named
    | pretended _ hprevious =>
        rw [hprevious] at hbegins
        cases hbegins
  · obtain ⟨notice, notices, hnotices⟩ := List.exists_cons_of_ne_nil hne
    exact ⟨.receiveNotice ⟨0, 0, true, true⟩, rfl, by simp [Driving.step, hnotices, h.aborted]⟩
  · exact hchanged hne
  · by_cases hcurrent : s.skeleton.shown = s.skeleton.announced
    · -- the worker returns
      obtain ⟨worker, outcome, hsome⟩ := h.reached.exists_finished hbusy hcurrent
      exact ⟨.daemon (.finished worker outcome), rfl, by simpa [Driving.step] using hsome⟩
    · exact hchanged hcurrent
  · obtain ⟨call, calls, hcalls⟩ := List.exists_cons_of_ne_nil hne
    exact ⟨.receiveCall, rfl, by simp [Driving.step, hcalls]⟩
  · obtain ⟨reply, replies, hreplies⟩ := List.exists_cons_of_ne_nil (List.ne_nil_of_mem herror)
    exact ⟨.receiveReply, rfl, by simp [Driving.step, hreplies, h.aborted]⟩

/-- **The run comes to an end.** Whatever the daemon and other clients do, until the run has been
told to quit something that it waits for is under way; and all it does and waits for are at most 59
events, and 29 more for each call of another client. Counted are the idle source, the arrivals of
its calls, replies and notices, the announcements of changes that are `Shown`, and the returns of
workers (`advances`). -/
theorem run_terminates (hrun : Run Initial (step config) history s) :
    (s.client.session.quit = true ∨
        ∃ event, advances event = true ∧ (s.step config event).isSome) ∧
      (history.filter fun τ => advances τ.event).length ≤
        59 + 29 * (history.filter fun τ => foreign τ.event).length := by
  constructor
  · obtain ⟨seen, h⟩ := sound_of_run hrun
    cases hquit : s.client.session.quit with
    | true => exact .inl rfl
    | false => exact .inr (h.exists_step hquit)
  · have hspent : s.potential + history.total spends ≤ 59 + history.total brings :=
      hrun.spent_le (fun _ h => h.potential_le) fun hrun hstep => by
        obtain ⟨seen, h⟩ := sound_of_run hrun
        exact potential_step h hstep
    have hspends : history.total spends = 1 * (history.filter fun τ => advances τ.event).length :=
      History.total_ite advances 1 history
    have hbrings : history.total brings = 29 * (history.filter fun τ => foreign τ.event).length :=
      History.total_ite foreign 29 history
    omega

/-- A daemon that has just been started, and a run that begins. -/
def started : Driving Unit :=
  let daemon : Daemon Unit := Daemon.onBusAcquired (.ok "booted") true
  { skeleton := ⟨daemon, daemon.updater.shown⟩
    notices := []
    calls := []
    replies := []
    client := ⟨{ resultsFile := none }, .ofShown daemon.updater.shown⟩ }

/-- The sample run begins beside a daemon that is ready. -/
theorem started_initial : started.Initial :=
  ⟨⟨[], .start ⟨.ok "booted", true, rfl⟩⟩, rfl, rfl, rfl, rfl, rfl, rfl⟩

/-- An update is found, fetched and applied, while another client asks for a poll in vain. -/
def wholeUpdate : List (DrivingEvent Unit) :=
  let info : EosUpdateInfo Unit :=
    { checksum := "c1", commit := ⟨"", ""⟩, newRefspec := "eos:eos3", oldRefspec := "eos:eos3"
      version := none, urls := none, offlineResultsOnly := false, isUserVisible := false
      releaseNotesUri := none, results := some [()] }
  let answered : List (DrivingEvent Unit) :=
    [.receiveCall, .emitChanged, .receiveNotice nextDay, .receiveReply]
  let told : List (DrivingEvent Unit) := [.emitChanged, .receiveNotice nextDay]
  [.initialPoll nextDay] ++ answered ++ [.daemon (.call .poll),
    .daemon (.finished 0 (.metadata (.ok (some info)) ⟨.ok (), .ok []⟩))] ++ told ++ answered ++
    [.daemon (.finished 0 (.boolean (.ok ())))] ++ told ++ answered ++
    [.daemon (.deploy 0), .daemon (.finished 0 (.boolean (.ok ())))] ++ told

/-- A run that polls, fetches and applies is within the bound. -/
theorem wholeUpdate_terminates :
    ∃ history s, exec (step dailyConfig) [] started wholeUpdate = some (history, s) ∧
      s.skeleton.shown.state = .updateApplied ∧
      (s.client.session.quit = true ∨
        ∃ event, advances event = true ∧ (s.step dailyConfig event).isSome) ∧
      (history.filter fun τ => advances τ.event).length ≤
        59 + 29 * (history.filter fun τ => foreign τ.event).length := by
  have hfinal : (exec (step dailyConfig) [] started wholeUpdate).map
      (fun run => run.2.skeleton.shown.state) = some .updateApplied := by decide +kernel
  obtain ⟨⟨history, s⟩, hexec, hstate⟩ := Option.map_eq_some_iff.1 hfinal
  exact ⟨history, s, hexec, hstate, run_terminates (Run.of_exec (.start started_initial) hexec)⟩

end Driving

end Autoupdater
