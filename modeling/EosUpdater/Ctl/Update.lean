import EosUpdater.Machine.Potential
import EosUpdater.Updater.Signals
import EosUpdater.Updater.Skeleton

/-!
# `eos-updater-ctl update`

The command polls, fetches and applies, one after the other. For each of these it calls the daemon
and then dispatches messages until it has heard the state that belongs to the call, and another one
behind it (`command_with_proxy`). It takes this state from the `StateChanged` signals, and the
result from the copy of `State` that its proxy has, which the signals only change if the command is
not quiet.

The signals are sent at once, and the properties are announced later, so both arrive, in the order
in which they were sent. No messages are dispatched during a call, and an iteration of the main
context dispatches one message or several. A keyboard interrupt is left out.

The command comes to an end, whatever other clients do (`update_terminates`).
-/

namespace Ctl

open Euu Machine Updater

variable {ρ : Type}

/-- The keys of `METHODS` that an update uses. -/
inductive Command
  | poll
  | fetch
  | apply
deriving DecidableEq, Repr

/-- The options of the command line. -/
structure Options where
  quiet : Bool
  force : Bool
  timeout : ℕ

namespace Command

/-- The kind of worker that does what a command asks for. -/
def kind : Command → WorkerKind
  | poll => .poll
  | fetch => .fetch
  | apply => .apply

/-- The method of a command in `METHODS`, with its parameters. -/
def method (options : Options) : Command → Method
  | poll => .poll
  | fetch => .fetchFull
      [("force", .boolean options.force), ("scheduling-timeout-seconds", .uint32 options.timeout)]
  | apply => .apply

/-- The state of a command in `METHODS`. -/
def inProgressState (command : Command) : EosUpdaterState := command.kind.state

end Command

/-- A message of the daemon: a `StateChanged` signal, or its properties. -/
inductive Message
  | stateChanged (state : EosUpdaterState)
  | propertiesChanged (state : EosUpdaterState)
deriving DecidableEq, Repr

/-- Where the command is: it is about to begin, in `call_sync`, in the loop of `command_with_proxy`
(with the two flags of the loop, and whether the iteration has dispatched something), or done. -/
inductive Phase
  | starting
  | calling (command : Command)
  | waiting (command : Command) (seenInProgressState seenNextState dispatched : Bool)
  | exited (status : ℕ)
deriving DecidableEq, Repr

/-- What `command_update` does once one of its commands has ended in a state. -/
def afterCommand (command : Command) (cachedState : EosUpdaterState) : Phase :=
  if cachedState = .error then .exited 1
  else
    match command with
    | .poll => if cachedState = .ready then .exited 0 else .calling .fetch
    | .fetch => .calling .apply
    | .apply => .exited 0

/-- The daemon and the command, with the messages between them, the oldest first. -/
structure Update (ρ : Type) where
  skeleton : Skeleton ρ
  messages : List Message
  calls : List Command
  replies : List (Except GError Unit)
  phase : Phase
  /-- The property `State` of the proxy. -/
  cachedState : EosUpdaterState

/-- What happens to the daemon, to a message or to the command. -/
inductive UpdateEvent (ρ : Type)
  /-- A worker returns or goes on, or another client makes a call. -/
  | daemon (event : Updater.Event ρ)
  | emitChanged
  | start
  | receiveCall
  | receiveReply
  | dispatch
  | endIteration

/-- The signals that the daemon has sent between two moments, the oldest first. -/
def signalsSince (before after : EosUpdater) : List Message :=
  ((after.stateChanged.take (after.stateChanged.length - before.stateChanged.length)).reverse).map
    .stateChanged

/-- The states of the signals among some messages. -/
def signals (messages : List Message) : List EosUpdaterState :=
  messages.filterMap fun
    | .stateChanged state => some state
    | .propertiesChanged _ => none

@[simp] theorem signals_append (messages messages' : List Message) :
    signals (messages ++ messages') = signals messages ++ signals messages' :=
  List.filterMap_append

@[simp] theorem signals_stateChanged (states : List EosUpdaterState) :
    signals (states.map .stateChanged) = states := by
  induction states with
  | nil => rfl
  | cons state states ih => exact congrArg (List.cons state) ih

@[simp] theorem signals_propertiesChanged (state : EosUpdaterState) :
    signals [.propertiesChanged state] = [] := rfl

/-! ### What the daemon sends -/

/-- The signals since a state are those announced since. -/
theorem signalsSince_of_announced {before after : EosUpdater} {states : List EosUpdaterState}
    (h : before.Announced after states) :
    signalsSince before after = states.reverse.map .stateChanged := by
  simp [signalsSince, h.1]

/-- What an event of the daemon sends. A poll that fails announces another state before the
error. -/
inductive Sends (before : EosUpdater) : Updater.Event ρ → EosUpdater → Prop
  | nothing {event : Updater.Event ρ} {after : EosUpdater} (hshown : after.shown = before.shown)
      (hchanged : after.stateChanged = before.stateChanged)
      (hevent : ∀ worker outcome, event ≠ .finished worker outcome) : Sends before event after
  | starts {method : Method} {after : EosUpdater} (kind : WorkerKind)
      (hstate : before.state ∈ kind.startsIn) (hannounced : before.Announced after [kind.state]) :
      Sends before (.call method) after
  | ends {worker : ℕ} {outcome : Outcome ρ} {after : EosUpdater} (kind : WorkerKind)
      (hstate : before.state = kind.state) (state : EosUpdaterState) (hends : state ∈ kind.endsIn)
      (herror : kind = .poll → state ≠ .error) (hannounced : before.Announced after [state]) :
      Sends before (.finished worker outcome) after
  | fails {worker : ℕ} {outcome : Outcome ρ} {after : EosUpdater}
      (hstate : before.state = .polling) (state : EosUpdaterState)
      (hends : state ∈ [EosUpdaterState.updateAvailable, .ready])
      (hannounced : before.Announced after [.error, state]) :
      Sends before (.finished worker outcome) after

/-- What is sent has been announced. -/
theorem Sends.announced {before after : EosUpdater} {event : Updater.Event ρ}
    (h : Sends before event after) : ∃ states, before.Announced after states := by
  cases h with
  | nothing hshown hchanged => exact ⟨[], hchanged, congrArg Shown.state hshown⟩
  | starts kind hstate hannounced => exact ⟨_, hannounced⟩
  | ends kind hstate state hends herror hannounced => exact ⟨_, hannounced⟩
  | fails hstate state hends hannounced => exact ⟨_, hannounced⟩

/-- The last state that was sent is the state of the daemon. -/
theorem getLastD_announced {before after : EosUpdater} {states sent : List EosUpdaterState}
    {state : EosUpdaterState} (h : before.Announced after states)
    (hlast : sent.getLastD state = before.state) :
    (sent ++ states.reverse).getLastD state = after.state := by
  rw [h.2]
  cases states with
  | nil => simpa using hlast
  | cons first rest =>
      rw [List.reverse_cons, ← List.append_assoc, List.getLastD_concat]
      rfl

/-- A call sends at most the state of the worker that it starts. -/
theorem sends_call (daemon : Daemon ρ) (method : Method) :
    Sends (ρ := ρ) daemon.updater (.call method) (daemon.call method).updater := by
  rcases daemon.call_inversion method with ⟨e, h⟩ | ⟨-, -, h⟩ | ⟨-, work, hstate, -, h⟩
  · rw [h]
    exact .nothing rfl rfl fun _ _ => by rintro ⟨⟩
  · rw [h]
    have hupdater := daemon.cancelCancellable.resetCancellable_updater
    exact .nothing (congrArg EosUpdater.shown hupdater)
      (congrArg EosUpdater.stateChanged hupdater) fun _ _ => by rintro ⟨⟩
  · rw [h]
    exact .starts work.kind hstate (daemon.announced_startWorker work)

/-- Whatever the daemon does sends nothing, the state of a worker that starts, or the states in
which one ends. -/
theorem sends_of_step {daemon daemon' : Daemon ρ} (h : daemon.Exclusive) {event : Updater.Event ρ}
    (hstep : daemon.step event = some daemon') :
    Sends daemon.updater event daemon'.updater := by
  cases event with
  | call method =>
      obtain rfl := Option.some_inj.1 hstep
      exact sends_call daemon method
  | progress bytes =>
      obtain rfl := Option.some_inj.1 hstep
      exact .nothing (daemon.updateProgress_shown bytes) (daemon.announced_updateProgress bytes).1
        fun _ _ => by rintro ⟨⟩
  | deploy worker =>
      simp only [Daemon.step] at hstep
      split at hstep
      · obtain rfl := Option.some_inj.1 hstep
        exact .nothing rfl rfl fun _ _ => by rintro ⟨⟩
      · cases hstep
  | finished worker outcome =>
      cases outcome with
      | metadata result objects =>
          -- a poll ends in two states if it fails, and otherwise in one
          obtain ⟨hpolling, state, hmem, ⟨-, hannounced⟩ | ⟨-, hannounced⟩⟩ :=
            announced_of_finishesPoll h hstep ⟨worker, result, objects, rfl⟩
          · have hends : ∀ state ∈ [EosUpdaterState.updateAvailable, .ready],
                state ∈ WorkerKind.poll.endsIn ∧ state ≠ .error := by decide
            exact .ends .poll hpolling state (hends state hmem).1 (fun _ => (hends state hmem).2)
              hannounced
          · exact .fails hpolling state hmem hannounced
      | boolean result =>
          -- the task that has ended says whether this was a fetch or an apply
          obtain ⟨task, -, -, hstate, ⟨_, _, heq, -⟩ | ⟨data, result, -, hwork, rfl⟩ |
            ⟨data, result, -, hwork, rfl⟩⟩ := h.finished_inversion hstep
          · cases heq
          · rw [hwork] at hstate
            unfold Daemon.contentFetchFinished
            split
            · exact .ends .fetch hstate .error (by decide) (by rintro ⟨⟩) ⟨rfl, rfl⟩
            · exact .ends .fetch hstate .updateReady (by decide) (by rintro ⟨⟩) ⟨rfl, rfl⟩
          · rw [hwork] at hstate
            unfold Daemon.applyFinished
            split
            · exact .ends .apply hstate .error (by decide) (by rintro ⟨⟩) ⟨rfl, rfl⟩
            · exact .ends .apply hstate .updateApplied (by decide) (by rintro ⟨⟩) ⟨rfl, rfl⟩

namespace Update

/-- The command goes on, and makes the call of its next phase. -/
def enter (s : Update ρ) (phase : Phase) : Update ρ :=
  match phase with
  | .calling command => { s with phase, calls := s.calls ++ [command] }
  | _ => { s with phase }

/-- The daemon has processed an event, and has sent its signals. -/
def sent (s : Update ρ) (skeleton : Skeleton ρ) : Update ρ :=
  { s with
    skeleton
    messages := s.messages ++
      signalsSince s.skeleton.daemon.updater skeleton.daemon.updater }

/-- The flags of the loop after a signal: `seen_in_progress_state` and `seen_next_state`. -/
def seen (command : Command) (seenInProgressState seenNextState : Bool) (state : EosUpdaterState) :
    Bool × Bool :=
  if state = command.inProgressState then (true, seenNextState)
  else (seenInProgressState, seenNextState || seenInProgressState)

/-- One event. -/
def step (options : Options) (s : Update ρ) : UpdateEvent ρ → Option (Update ρ)
  | .daemon event => (s.skeleton.step event).map s.sent
  | .emitChanged =>
      s.skeleton.emitChanged.map fun skeleton =>
        { s with
          skeleton
          messages := s.messages ++ [.propertiesChanged skeleton.announced.state] }
  | .start =>
      match s.phase with
      | .starting =>
          some (s.enter (if s.cachedState = .updateApplied then .exited 0 else .calling .poll))
      | _ => none
  | .receiveCall =>
      match s.calls with
      | [] => none
      | command :: calls =>
          let daemon := s.skeleton.daemon.call (command.method options)
          some { s.sent { s.skeleton with daemon } with
            calls
            replies := s.replies ++ daemon.answers.head?.toList }
  | .receiveReply =>
      match s.phase, s.replies with
      | .calling command, .ok () :: replies =>
          some { s with phase := .waiting command false false false, replies }
      -- an exception that nothing catches
      | .calling _, .error _ :: replies => some { s with phase := .exited 1, replies }
      | _, _ => none
  | .dispatch =>
      match s.phase, s.messages with
      | .waiting command seenInProgressState seenNextState _, .stateChanged state :: messages =>
          let flags := seen command seenInProgressState seenNextState state
          some { s with
            messages
            phase := .waiting command flags.1 flags.2 true
            cachedState := if options.quiet then s.cachedState else state }
      | .waiting command seenInProgressState seenNextState _,
          .propertiesChanged state :: messages =>
          some { s with
            messages
            phase := .waiting command seenInProgressState seenNextState true
            cachedState := state }
      | _, _ => none
  | .endIteration =>
      match s.phase with
      | .waiting command seenInProgressState seenNextState true =>
          if seenInProgressState && seenNextState then
            some (s.enter (afterCommand command s.cachedState))
          else some { s with phase := .waiting command seenInProgressState seenNextState false }
      | _ => none

/-- The command begins, at any moment in the life of the daemon at which nothing is left to be
announced: its proxy has the state of the daemon. -/
structure Initial (s : Update ρ) : Prop where
  reached : s.skeleton.Reached
  current : s.skeleton.shown = s.skeleton.announced
  messages : s.messages = []
  calls : s.calls = []
  replies : s.replies = []
  phase : s.phase = .starting
  cachedState : s.cachedState = s.skeleton.shown.state

variable {options : Options} {s t : Update ρ}

/-- What has been sent to the command leads to the state of the daemon. -/
def Heard (s : Update ρ) (command : Command) : Prop :=
  (signals s.messages).getLastD command.inProgressState = s.skeleton.shown.state

/-- What holds at the end of every run: the message that the command waits for is in flight, or the
worker that will send it. -/
def Awaits (s : Update ρ) : Prop :=
  match s.phase with
  | .calling command =>
      (s.calls = [command] ∧ s.replies = []) ∨
        s.calls = [] ∧ ((∃ e, s.replies = [.error e]) ∨
          s.replies = [.ok ()] ∧ command.inProgressState ∈ signals s.messages ∧ s.Heard command)
  | .waiting command seenInProgressState seenNextState dispatched =>
      s.calls = [] ∧ s.replies = [] ∧
        (seenInProgressState = false →
          seenNextState = false ∧ command.inProgressState ∈ signals s.messages) ∧
        (seenNextState = false → s.Heard command) ∧
        (seenNextState = true → seenInProgressState = true ∧ dispatched = true)
  | _ => s.calls = [] ∧ s.replies = []

/-- The signals grow by what the daemon announces. -/
theorem signals_sent {skeleton : Skeleton ρ} {states : List EosUpdaterState}
    (h : s.skeleton.daemon.updater.Announced skeleton.daemon.updater states) :
    signals (s.sent skeleton).messages = signals s.messages ++ states.reverse := by
  rw [sent, signals_append, signalsSince_of_announced h, signals_stateChanged]

/-- The messages grow by what the daemon sends in an event. -/
theorem messages_sent {skeleton : Skeleton ρ} {event : Updater.Event ρ}
    (h : Sends s.skeleton.daemon.updater event skeleton.daemon.updater) :
    ∃ sent, signals (s.sent skeleton).messages = signals s.messages ++ sent ∧
      ∀ command, s.Heard command → (s.sent skeleton).Heard command := by
  obtain ⟨states, hannounced⟩ := h.announced
  refine ⟨states.reverse, signals_sent hannounced, fun command hheard => ?_⟩
  unfold Heard at hheard ⊢
  rw [signals_sent hannounced]
  exact getLastD_announced hannounced hheard

/-- What the command waits for is still on its way after the daemon has acted. -/
theorem Awaits.daemon (h : s.Awaits) (hreached : s.skeleton.Reached) {event : Updater.Event ρ}
    (hstep : s.step options (.daemon event) = some t) : t.Awaits := by
  obtain ⟨skeleton, hskeleton, rfl⟩ := Option.map_eq_some_iff.1 hstep
  obtain ⟨-, hdaemon, -⟩ := Skeleton.step_inversion hskeleton
  obtain ⟨sent, hmessages, hheard⟩ := messages_sent (sends_of_step hreached.exclusive hdaemon)
  have hkept {state : EosUpdaterState} (hmem : state ∈ signals s.messages) :
      state ∈ signals (s.sent skeleton).messages := by
    rw [hmessages]
    exact List.mem_append_left _ hmem
  unfold Awaits at h ⊢
  have hphase : (s.sent skeleton).phase = s.phase := rfl
  rw [hphase]
  cases hcase : s.phase with
  | calling command =>
      rw [hcase] at h
      exact h.imp_right fun ⟨hcalls, hreplies⟩ => ⟨hcalls, hreplies.imp_right
        fun ⟨hok, hmem, hlast⟩ => ⟨hok, hkept hmem, hheard command hlast⟩⟩
  | waiting command seenInProgressState seenNextState dispatched =>
      rw [hcase] at h
      obtain ⟨hcalls, hreplies, hbefore, hlast, hafter⟩ := h
      exact ⟨hcalls, hreplies, fun h => (hbefore h).imp_right hkept,
        fun h => hheard command (hlast h), hafter⟩
  | starting | exited =>
      rw [hcase] at h
      exact h

/-! ### The steps of the command -/

/-- The daemon announces its properties. -/
theorem emitChanged_inversion (hstep : s.step options .emitChanged = some t) :
    s.skeleton.shown ≠ s.skeleton.announced ∧
      t = { s with
        skeleton := { s.skeleton with announced := s.skeleton.shown }
        messages := s.messages ++ [.propertiesChanged s.skeleton.shown.state] } := by
  obtain ⟨skeleton, hskeleton, rfl⟩ := Option.map_eq_some_iff.1 hstep
  obtain ⟨hchanged, hskeleton⟩ := Option.ite_none_left_eq_some.1 hskeleton
  obtain rfl := Option.some_inj.1 hskeleton
  exact ⟨hchanged, rfl⟩

/-- The command begins. -/
theorem start_inversion (hstep : s.step options .start = some t) :
    s.phase = .starting ∧
      t = s.enter (if s.cachedState = .updateApplied then .exited 0 else .calling .poll) := by
  simp only [step] at hstep
  split at hstep
  · next hphase => exact ⟨hphase, (Option.some_inj.1 hstep).symm⟩
  · cases hstep

/-- The command gets an answer to its call. -/
theorem receiveReply_inversion (hstep : s.step options .receiveReply = some t) :
    ∃ command replies, s.phase = .calling command ∧
      ((s.replies = .ok () :: replies ∧
          t = { s with phase := .waiting command false false false, replies }) ∨
        ∃ e, s.replies = .error e :: replies ∧ t = { s with phase := .exited 1, replies }) := by
  simp only [step] at hstep
  split at hstep
  · next command replies hphase hreplies =>
    exact ⟨command, replies, hphase, .inl ⟨hreplies, (Option.some_inj.1 hstep).symm⟩⟩
  · next command e replies hphase hreplies =>
    exact ⟨command, replies, hphase, .inr ⟨e, hreplies, (Option.some_inj.1 hstep).symm⟩⟩
  · cases hstep

/-- The command dispatches a message. -/
theorem dispatch_inversion (hstep : s.step options .dispatch = some t) :
    ∃ command seenIn seenNext dispatched state messages,
      s.phase = .waiting command seenIn seenNext dispatched ∧
        ((s.messages = .stateChanged state :: messages ∧
            t = { s with
              messages
              phase := .waiting command (seen command seenIn seenNext state).1
                (seen command seenIn seenNext state).2 true
              cachedState := if options.quiet then s.cachedState else state }) ∨
          s.messages = .propertiesChanged state :: messages ∧
            t = { s with
              messages
              phase := .waiting command seenIn seenNext true
              cachedState := state }) := by
  simp only [step] at hstep
  split at hstep
  · next command seenIn seenNext dispatched state messages hphase hmessages =>
    exact ⟨command, seenIn, seenNext, dispatched, state, messages, hphase,
      .inl ⟨hmessages, (Option.some_inj.1 hstep).symm⟩⟩
  · next command seenIn seenNext dispatched state messages hphase hmessages =>
    exact ⟨command, seenIn, seenNext, dispatched, state, messages, hphase,
      .inr ⟨hmessages, (Option.some_inj.1 hstep).symm⟩⟩
  · cases hstep

/-- The command looks at its flags, after an iteration that has dispatched something. -/
theorem endIteration_inversion (hstep : s.step options .endIteration = some t) :
    ∃ command seenIn seenNext, s.phase = .waiting command seenIn seenNext true ∧
      ((seenIn = true ∧ seenNext = true ∧ t = s.enter (afterCommand command s.cachedState)) ∨
        (seenIn && seenNext) = false ∧
          t = { s with phase := .waiting command seenIn seenNext false }) := by
  simp only [step] at hstep
  split at hstep
  · next command seenIn seenNext hphase =>
    refine ⟨command, seenIn, seenNext, hphase, ?_⟩
    split at hstep
    · next hflags =>
      obtain ⟨hin, hnext⟩ := Bool.and_eq_true_iff.1 hflags
      exact .inl ⟨hin, hnext, (Option.some_inj.1 hstep).symm⟩
    · next hflags =>
      exact .inr ⟨Bool.not_eq_true _ ▸ hflags, (Option.some_inj.1 hstep).symm⟩
  · cases hstep

/-- The daemon answers a call of the command. -/
theorem receiveCall_inversion (hstep : s.step options .receiveCall = some t) :
    ∃ command calls, s.calls = command :: calls ∧ t.calls = calls ∧
      t.phase = s.phase ∧ t.cachedState = s.cachedState ∧
      t.skeleton.announced = s.skeleton.announced ∧
      s.skeleton.step (.call (command.method options)) = some t.skeleton ∧
      t.messages = (s.sent t.skeleton).messages ∧
      ((∃ e, (s.skeleton.daemon.installed = false ∨
            s.skeleton.shown.state ∉ command.kind.startsIn) ∧
          t.replies = s.replies ++ [.error e] ∧
          t.skeleton.daemon.updater = s.skeleton.daemon.updater) ∨
        s.skeleton.shown.state ∈ command.kind.startsIn ∧ t.replies = s.replies ++ [.ok ()] ∧
          s.skeleton.daemon.updater.Announced t.skeleton.daemon.updater
            [command.inProgressState]) := by
  simp only [step] at hstep
  split at hstep
  · cases hstep
  · next command calls hcalls =>
    obtain rfl := Option.some_inj.1 hstep
    refine ⟨command, calls, hcalls, rfl, rfl, rfl, rfl, rfl, rfl, ?_⟩
    -- each command calls the method of its own worker
    have hkind : (command.method options).kind = some command.kind := by cases command <;> rfl
    rcases s.skeleton.daemon.call_of_kind hkind with
      ⟨hrefused, e, hcall⟩ | ⟨hstate, work, hkind, hcall⟩
    · refine .inl ⟨e, hrefused, ?_, ?_⟩
      · simp [hcall, Daemon.returnError]
      · simp only [sent, hcall]
        rfl
    · refine .inr ⟨hstate, ?_, ?_⟩
      · simp [hcall, Daemon.startWorker, Daemon.complete]
      · have hannounced := s.skeleton.daemon.announced_startWorker work
        rw [hkind] at hannounced
        simpa only [sent, hcall, Command.inProgressState] using hannounced

/-- What the command waits for is still on its way once its call has arrived. -/
theorem Awaits.receiveCall (h : s.Awaits) (hstep : s.step options .receiveCall = some t) :
    t.Awaits := by
  obtain ⟨command, calls, hcalls, htcalls, hphase, -, -, -, hmessages, hanswer⟩ :=
    receiveCall_inversion hstep
  unfold Awaits at h ⊢
  rw [hphase]
  -- only a call of the present command can be in flight
  cases hcase : s.phase with
  | calling current =>
      rw [hcase] at h
      obtain ⟨hone, hnone⟩ | ⟨hnone, -⟩ := h
      · rw [hone] at hcalls
        obtain ⟨rfl, rfl⟩ := List.cons.inj hcalls
        refine .inr ⟨htcalls, ?_⟩
        rcases hanswer with ⟨e, -, hreplies, -⟩ | ⟨-, hreplies, hannounced⟩
        · exact .inl ⟨e, by rw [hreplies, hnone]; rfl⟩
        · have hsent : signals t.messages = signals s.messages ++ [current.inProgressState] := by
            rw [hmessages, sent, signals_append, signalsSince_of_announced hannounced,
              signals_stateChanged]
            rfl
          refine .inr ⟨by rw [hreplies, hnone]; rfl, by simp [hsent], ?_⟩
          unfold Heard
          rw [hsent, List.getLastD_concat]
          exact hannounced.2.symm
      · rw [hnone] at hcalls
        cases hcalls
  | waiting current =>
      rw [hcase] at h
      rw [h.1] at hcalls
      cases hcalls
  | starting | exited =>
      rw [hcase] at h
      rw [h.1] at hcalls
      cases hcalls

/-- A phase that does not wait can be entered once nothing is in flight. -/
theorem Awaits.enter (phase : Phase) (hcalls : s.calls = []) (hreplies : s.replies = [])
    (hwaiting : ∀ command flag flag' flag'', phase ≠ .waiting command flag flag' flag'') :
    (s.enter phase).Awaits := by
  cases phase with
  | calling command =>
      refine .inl ⟨?_, hreplies⟩
      show s.calls ++ [command] = [command]
      rw [hcalls, List.nil_append]
  | waiting command flag flag' flag'' => exact absurd rfl (hwaiting command flag flag' flag'')
  | starting | exited => exact ⟨hcalls, hreplies⟩

/-- Behind a command the tool does not wait. -/
theorem afterCommand_ne_waiting (command : Command) (cachedState : EosUpdaterState)
    (command' : Command) (flag flag' flag'' : Bool) :
    afterCommand command cachedState ≠ .waiting command' flag flag' flag'' := by
  unfold afterCommand
  split
  · rintro ⟨⟩
  · split
    · split <;> rintro ⟨⟩
    · rintro ⟨⟩
    · rintro ⟨⟩

/-- A message that is dispatched brings the command nearer to the one it waits for. -/
theorem Awaits.dispatch (h : s.Awaits) (hstep : s.step options .dispatch = some t) : t.Awaits := by
  obtain ⟨command, seenIn, seenNext, dispatched, state, messages, hphase,
    ⟨hmessages, rfl⟩ | ⟨hmessages, rfl⟩⟩ := dispatch_inversion hstep
  · unfold Awaits at h
    rw [hphase] at h
    obtain ⟨hcalls, hreplies, hbefore, hlast, hafter⟩ := h
    have hsignals : signals s.messages = state :: signals messages := by
      rw [hmessages]
      rfl
    unfold Heard at hlast
    rw [hsignals] at hbefore hlast
    simp only [List.getLastD_cons] at hlast
    refine ⟨hcalls, hreplies, ?_⟩
    unfold seen Heard
    dsimp only
    by_cases hstate : state = command.inProgressState
    · -- the state of the command: what follows it leads to the state of the daemon
      rw [if_pos hstate]
      refine ⟨by rintro ⟨⟩, fun hnext => ?_, fun hnext => ⟨rfl, rfl⟩⟩
      rw [← hlast hnext, hstate]
    · rw [if_neg hstate]
      refine ⟨fun hin => ?_, fun hnext => ?_, fun hnext => ⟨?_, rfl⟩⟩
      · change seenIn = false at hin
        obtain ⟨hnext, hmem⟩ := hbefore hin
        refine ⟨by simp [hnext, hin], ?_⟩
        exact (List.mem_cons.1 hmem).resolve_left fun h => hstate h.symm
      · obtain ⟨hnext, hin⟩ := Bool.or_eq_false_iff.1 hnext
        -- the signal that is waited for is still to come
        have hmem := (List.mem_cons.1 (hbefore hin).2).resolve_left fun h => hstate h.symm
        rw [← hlast hnext]
        obtain ⟨first, rest, hrest⟩ := List.exists_cons_of_ne_nil (List.ne_nil_of_mem hmem)
        rw [hrest, List.getLastD_cons, List.getLastD_cons]
      · have hcases : seenNext = true ∨ seenIn = true := by simpa using hnext
        exact hcases.elim (fun h => (hafter h).1) id
  · unfold Awaits at h
    rw [hphase] at h
    have hsignals : signals s.messages = signals messages := by
      rw [hmessages]
      rfl
    obtain ⟨hcalls, hreplies, hbefore, hlast, hafter⟩ := h
    unfold Heard at hlast
    rw [hsignals] at hbefore hlast
    exact ⟨hcalls, hreplies, hbefore, hlast, fun hnext => ⟨(hafter hnext).1, rfl⟩⟩

/-- An announcement of the properties adds no signal. -/
theorem Awaits.emitChanged (h : s.Awaits) (hstep : s.step options .emitChanged = some t) :
    t.Awaits := by
  obtain ⟨-, rfl⟩ := emitChanged_inversion hstep
  unfold Awaits Heard at h ⊢
  simp only [signals_append, signals_propertiesChanged, List.append_nil]
  exact h

/-- With the answer the command waits for its signal, which has been sent before. -/
theorem Awaits.receiveReply (h : s.Awaits) (hstep : s.step options .receiveReply = some t) :
    t.Awaits := by
  obtain ⟨command, replies, hphase, hcases⟩ := receiveReply_inversion hstep
  unfold Awaits at h
  rw [hphase] at h
  rcases hcases with ⟨hreplies, rfl⟩ | ⟨e, hreplies, rfl⟩
  · obtain ⟨-, hnone⟩ | ⟨hcalls, ⟨e, herror⟩ | ⟨hok, hmem, hheard⟩⟩ := h
    · rw [hnone] at hreplies
      cases hreplies
    · rw [herror] at hreplies
      cases hreplies
    · rw [hok] at hreplies
      obtain ⟨-, rfl⟩ := List.cons.inj hreplies
      exact ⟨hcalls, rfl, fun _ => ⟨rfl, hmem⟩, fun _ => hheard, by rintro ⟨⟩⟩
  · obtain ⟨-, hnone⟩ | ⟨hcalls, ⟨e, herror⟩ | ⟨hok, -, -⟩⟩ := h
    · rw [hnone] at hreplies
      cases hreplies
    · rw [herror] at hreplies
      obtain ⟨-, rfl⟩ := List.cons.inj hreplies
      exact ⟨hcalls, rfl⟩
    · rw [hok] at hreplies
      cases hreplies

/-- An iteration that does not end the loop leaves what is waited for. -/
theorem Awaits.endIteration (h : s.Awaits) (hstep : s.step options .endIteration = some t) :
    t.Awaits := by
  obtain ⟨command, seenIn, seenNext, hphase, hcases⟩ := endIteration_inversion hstep
  unfold Awaits at h
  rw [hphase] at h
  obtain ⟨hcalls, hreplies, hbefore, hlast, hafter⟩ := h
  rcases hcases with ⟨-, -, rfl⟩ | ⟨hflags, rfl⟩
  · exact .enter _ hcalls hreplies (afterCommand_ne_waiting _ _)
  · refine ⟨hcalls, hreplies, hbefore, hlast, fun hnext => ?_⟩
    rw [hnext, (hafter hnext).1] at hflags
    cases hflags

/-- **One step.** -/
theorem Awaits.step (h : s.Awaits) (hreached : s.skeleton.Reached) {event : UpdateEvent ρ}
    (hstep : s.step options event = some t) : t.Awaits := by
  cases event with
  | daemon event => exact h.daemon hreached hstep
  | receiveCall => exact h.receiveCall hstep
  | dispatch => exact h.dispatch hstep
  | emitChanged => exact h.emitChanged hstep
  | receiveReply => exact h.receiveReply hstep
  | endIteration => exact h.endIteration hstep
  | start =>
      obtain ⟨hphase, rfl⟩ := start_inversion hstep
      unfold Awaits at h
      rw [hphase] at h
      refine .enter _ h.1 h.2 fun command flag flag' flag'' => ?_
      split <;> rintro ⟨⟩

/-- At the start there is nothing to wait for. -/
theorem Initial.awaits (h : s.Initial) : s.Awaits := by
  unfold Awaits
  rw [h.phase]
  exact ⟨h.calls, h.replies⟩

theorem enter_skeleton (s : Update ρ) (phase : Phase) :
    (s.enter phase).skeleton = s.skeleton := by
  cases phase <;> rfl

/-- What the command does to itself leaves the daemon as it is. -/
theorem reached_step (h : s.skeleton.Reached) {event : UpdateEvent ρ}
    (hstep : s.step options event = some t) : t.skeleton.Reached := by
  cases event with
  | daemon event =>
      obtain ⟨skeleton, hskeleton, rfl⟩ := Option.map_eq_some_iff.1 hstep
      exact h.step hskeleton
  | emitChanged =>
      obtain ⟨-, rfl⟩ := emitChanged_inversion hstep
      exact h
  | receiveCall =>
      obtain ⟨_, _, -, -, -, -, -, hskeleton, -⟩ := receiveCall_inversion hstep
      exact h.step hskeleton
  | start =>
      obtain ⟨-, rfl⟩ := start_inversion hstep
      rwa [enter_skeleton]
  | receiveReply =>
      obtain ⟨_, _, -, ⟨-, rfl⟩ | ⟨_, -, rfl⟩⟩ := receiveReply_inversion hstep
      · exact h
      · exact h
  | dispatch =>
      obtain ⟨_, _, _, _, _, _, -, ⟨-, rfl⟩ | ⟨-, rfl⟩⟩ := dispatch_inversion hstep
      · exact h
      · exact h
  | endIteration =>
      obtain ⟨_, _, _, -, ⟨-, -, rfl⟩ | ⟨-, rfl⟩⟩ := endIteration_inversion hstep
      · rwa [enter_skeleton]
      · exact h

variable {history : History (Update ρ) (UpdateEvent ρ)}

/-- In every state reached, what the command waits for is on its way. -/
theorem awaits_of_run (hrun : Run Initial (step options) history s) :
    s.skeleton.Reached ∧ s.Awaits := by
  induction hrun with
  | start h => exact ⟨h.reached, h.awaits⟩
  | next _ hstep ih => exact ⟨reached_step ih.1 hstep, ih.2.step ih.1 hstep⟩

/-! ### What is spent -/

/-- What the commands that have not been called yet may lead to, and an iteration that is not over
yet. -/
def phaseWorth : Phase → ℕ
  | .starting => 48
  | .calling command => callsAfter command
  | .waiting command _ _ dispatched => callsAfter command + if dispatched then 1 else 0
  | .exited _ => 0
where
  /-- The calls after those of a command. -/
  callsAfter : Command → ℕ
    | .poll => 32
    | .fetch => 16
    | .apply => 0

/-- What the daemon has sent, or will send. -/
def owed (skeleton : Skeleton ρ) (messages : List Message) : ℕ :=
  (if skeleton.shown.state ∈ busy then 8 else 0) +
    (if skeleton.shown = skeleton.announced then 0 else 3) + 2 * messages.length

/-- What the command may still lead to. -/
def potential (s : Update ρ) : ℕ :=
  phaseWorth s.phase + 15 * s.calls.length + owed s.skeleton s.messages + s.replies.length

/-- The events that take the command further: its own, those of the messages to and from it, and the
return of a worker. Not among them are the calls of other clients, and the progress of a worker or
its deployment, which change none of the properties that are `Shown`. -/
def advances : UpdateEvent ρ → Bool
  | .daemon (.finished _ _) => true
  | .daemon _ => false
  | .emitChanged | .start | .receiveCall | .receiveReply | .dispatch | .endIteration => true

/-- The calls of other clients. -/
def foreign : UpdateEvent ρ → Bool
  | .daemon (.call _) => true
  | _ => false

/-- What an event takes from the potential. -/
def spends (event : UpdateEvent ρ) : ℕ := if advances event then 1 else 0

/-- A call of another client may start a worker. -/
def brings (event : UpdateEvent ρ) : ℕ := if foreign event then 13 else 0

/-- What an event of the daemon leaves of what it owes. -/
theorem owed_sent {skeleton : Skeleton ρ} {event : Updater.Event ρ}
    (h : Sends s.skeleton.daemon.updater event skeleton.daemon.updater)
    (hannounced : skeleton.announced = s.skeleton.announced) :
    owed skeleton (s.sent skeleton).messages + spends (.daemon event) ≤
      owed s.skeleton s.messages + brings (.daemon event) := by
  have hunannounced : (if skeleton.shown = s.skeleton.announced then 0 else 3) ≤ 3 := by
    split <;> omega
  have hlength {states : List EosUpdaterState}
      (h : s.skeleton.daemon.updater.Announced skeleton.daemon.updater states) :
      (s.sent skeleton).messages.length = s.messages.length + states.length := by
    simp [sent, signalsSince_of_announced h]
  unfold owed
  rw [hannounced]
  cases h with
  | nothing hshown hchanged hevent =>
      have hshown : skeleton.shown = s.skeleton.shown := hshown
      -- only the return of a worker is paid for, and it is not silent
      have hspends : spends (.daemon event) = 0 := by
        cases event with
        | finished worker outcome => exact absurd rfl (hevent worker outcome)
        | call | progress | deploy => rfl
      have hnone : s.skeleton.daemon.updater.Announced skeleton.daemon.updater [] :=
        ⟨hchanged, congrArg Shown.state hshown⟩
      rw [hlength hnone, hshown, hspends, List.length_nil]
      omega
  | starts kind hstate hannounced =>
      -- the worker is owed from now on, its announcement and its message are sent
      have hidle : s.skeleton.shown.state ∉ busy := kind.notMem_busy_of_startsIn hstate
      have hbusy : skeleton.shown.state ∈ busy := by
        have hstate' : skeleton.shown.state = kind.state := hannounced.2
        rw [hstate']
        exact kind.state_mem_busy
      rw [hlength hannounced, if_pos hbusy, if_neg hidle, List.length_singleton]
      show _ + 0 ≤ _ + 13
      omega
  | ends kind hstate state hends herror hannounced =>
      -- the worker is not owed any more, and pays for the announcement of its end
      have hbusy : s.skeleton.shown.state ∈ busy := by
        have hstate' : s.skeleton.shown.state = kind.state := hstate
        rw [hstate']
        exact kind.state_mem_busy
      have hidle : skeleton.shown.state ∉ busy := by
        have hstate' : skeleton.shown.state = state := hannounced.2
        rw [hstate']
        exact kind.notMem_busy_of_endsIn hends
      rw [hlength hannounced, if_pos hbusy, if_neg hidle, List.length_singleton]
      show _ + 1 ≤ _ + 0
      omega
  | fails hstate state hends hannounced =>
      -- a poll that fails pays for two announcements
      have hbusy : s.skeleton.shown.state ∈ busy := by
        have hstate' : s.skeleton.shown.state = .polling := hstate
        rw [hstate']
        decide
      have hidle : skeleton.shown.state ∉ busy := by
        have hstate' : skeleton.shown.state = .error := hannounced.2
        rw [hstate']
        decide
      rw [hlength hannounced, if_pos hbusy, if_neg hidle]
      show _ + 2 * (_ + 2) + 1 ≤ _ + 0
      omega

/-- The arrival of a call lowers the potential. -/
theorem potential_receiveCall (hreached : s.skeleton.Reached)
    (hstep : s.step options .receiveCall = some t) : t.potential + 1 ≤ s.potential := by
  obtain ⟨command, calls, hcalls, htcalls, hphase, -, hannounced, hskeleton, hmessages, hanswer⟩ :=
    receiveCall_inversion hstep
  obtain ⟨-, hdaemon, -⟩ := Skeleton.step_inversion hskeleton
  have howed : owed t.skeleton t.messages + 0 ≤ owed s.skeleton s.messages + 13 := by
    rw [hmessages]
    exact owed_sent (sends_of_step hreached.exclusive hdaemon) hannounced
  have hreplies : t.replies.length = s.replies.length + 1 := by
    rcases hanswer with ⟨e, -, hreplies, -⟩ | ⟨-, hreplies, -⟩ <;> simp [hreplies]
  unfold potential
  rw [hphase, hcalls, htcalls, hreplies, List.length_cons]
  omega

/-- The next phase pays for its call. -/
theorem potential_enter (s : Update ρ) (phase : Phase) :
    (s.enter phase).potential + phaseWorth s.phase ≤ s.potential + phaseWorth phase +
      match phase with
      | .calling _ => 15
      | _ => 0 := by
  unfold potential
  cases phase with
  | calling command =>
      simp only [enter, List.length_append, List.length_singleton]
      omega
  | starting | waiting | exited =>
      simp only [enter]
      omega

/-- The command that comes next is one that is paid for. -/
theorem phaseWorth_afterCommand (command : Command) (cachedState : EosUpdaterState) :
    (phaseWorth (afterCommand command cachedState) + match afterCommand command cachedState with
      | .calling _ => 15
      | _ => 0) ≤ phaseWorth.callsAfter command := by
  unfold afterCommand
  cases command with
  | poll =>
      dsimp only
      split
      · decide
      · split <;> decide
  | fetch | apply =>
      dsimp only
      split <;> decide

/-- The price of an announcement is 3, and its message is worth 2. -/
theorem potential_emitChanged (hstep : s.step options .emitChanged = some t) :
    t.potential + 1 ≤ s.potential := by
  obtain ⟨hchanged, rfl⟩ := emitChanged_inversion hstep
  have hshown : ({ s.skeleton with announced := s.skeleton.shown } : Skeleton ρ).shown =
      s.skeleton.shown := rfl
  unfold potential owed
  dsimp only
  rw [hshown, if_pos rfl, if_neg hchanged, List.length_append, List.length_singleton]
  omega

/-- The beginning pays for a poll. -/
theorem potential_start (hstep : s.step options .start = some t) :
    t.potential + 1 ≤ s.potential := by
  obtain ⟨hphase, rfl⟩ := start_inversion hstep
  have hstarting : phaseWorth s.phase = 48 := by rw [hphase]; rfl
  split
  · have henter := s.potential_enter (.exited 0)
    rw [hstarting] at henter
    change _ + 48 ≤ _ + 0 + 0 at henter
    omega
  · have henter := s.potential_enter (.calling .poll)
    rw [hstarting] at henter
    change _ + 48 ≤ _ + 32 + 15 at henter
    omega

/-- An answer is worth what it costs to receive it. -/
theorem potential_receiveReply (hstep : s.step options .receiveReply = some t) :
    t.potential + 1 ≤ s.potential := by
  obtain ⟨command, replies, hphase, ⟨hreplies, rfl⟩ | ⟨e, hreplies, rfl⟩⟩ :=
    receiveReply_inversion hstep
  · simp only [potential, hphase, hreplies, List.length_cons, phaseWorth, Bool.false_eq_true,
      if_false]
    omega
  · simp only [potential, hphase, hreplies, List.length_cons, phaseWorth]
    omega

/-- A message pays for its dispatch, and for the end of the iteration. -/
theorem potential_dispatch (hstep : s.step options .dispatch = some t) :
    t.potential + 1 ≤ s.potential := by
  have howed {message : Message} {messages : List Message}
      (hmessages : s.messages = message :: messages) :
      owed s.skeleton messages + 2 = owed s.skeleton s.messages := by
    unfold owed
    rw [hmessages, List.length_cons]
    omega
  obtain ⟨command, seenIn, seenNext, dispatched, state, messages, hphase,
    ⟨hmessages, rfl⟩ | ⟨hmessages, rfl⟩⟩ := dispatch_inversion hstep
  · have hpaid := howed hmessages
    simp only [potential, hphase, phaseWorth, if_true]
    omega
  · have hpaid := howed hmessages
    simp only [potential, hphase, phaseWorth, if_true]
    omega

/-- The end of an iteration is paid for, and so is the command that comes next. -/
theorem potential_endIteration (hstep : s.step options .endIteration = some t) :
    t.potential + 1 ≤ s.potential := by
  obtain ⟨command, seenIn, seenNext, hphase, ⟨-, -, rfl⟩ | ⟨-, rfl⟩⟩ :=
    endIteration_inversion hstep
  · have hiterating : phaseWorth s.phase = phaseWorth.callsAfter command + 1 := by
      rw [hphase]
      rfl
    have henter := s.potential_enter (afterCommand command s.cachedState)
    have hworth := phaseWorth_afterCommand command s.cachedState
    rw [hiterating] at henter
    omega
  · simp only [potential, hphase, phaseWorth, if_true, Bool.false_eq_true, if_false]
    omega

/-- **The price of a step.** -/
theorem potential_step (hreached : s.skeleton.Reached) {event : UpdateEvent ρ}
    (hstep : s.step options event = some t) :
    t.potential + spends event ≤ s.potential + brings event := by
  cases event with
  | daemon event =>
      obtain ⟨skeleton, hskeleton, rfl⟩ := Option.map_eq_some_iff.1 hstep
      obtain ⟨hannounced, hdaemon, -⟩ := Skeleton.step_inversion hskeleton
      have howed := owed_sent (sends_of_step hreached.exclusive hdaemon) hannounced
      have hpotential : (s.sent skeleton).potential = phaseWorth s.phase + 15 * s.calls.length +
          owed skeleton (s.sent skeleton).messages + s.replies.length := rfl
      rw [hpotential, potential]
      omega
  | emitChanged => exact potential_emitChanged hstep
  | start => exact potential_start hstep
  | receiveCall => exact potential_receiveCall hreached hstep
  | receiveReply => exact potential_receiveReply hstep
  | dispatch => exact potential_dispatch hstep
  | endIteration => exact potential_endIteration hstep

theorem Initial.potential_le (h : s.Initial) : s.potential ≤ 56 := by
  have hbusy : (if s.skeleton.shown.state ∈ busy then 8 else 0) ≤ 8 := by
    split <;> omega
  simp only [potential, owed, h.phase, h.calls, h.replies, h.messages, if_pos h.current, phaseWorth,
    List.length_nil]
  omega

/-! ### Termination -/

/-- Until it is done, the command can go on without another client. -/
theorem Awaits.exists_step (h : s.Awaits) (hreached : s.skeleton.Reached)
    (hphase : ∀ status, s.phase ≠ .exited status) (options : Options) :
    ∃ event, advances event = true ∧ (s.step options event).isSome := by
  unfold Awaits at h
  cases hcase : s.phase with
  | starting => exact ⟨.start, rfl, by simp [Update.step, hcase]⟩
  | exited status => exact absurd hcase (hphase status)
  | calling command =>
      rw [hcase] at h
      obtain ⟨hcalls, -⟩ | ⟨-, ⟨e, hreplies⟩ | ⟨hreplies, -, -⟩⟩ := h
      · exact ⟨.receiveCall, rfl, by simp [Update.step, hcalls]⟩
      · exact ⟨.receiveReply, rfl, by simp [Update.step, hcase, hreplies]⟩
      · exact ⟨.receiveReply, rfl, by simp [Update.step, hcase, hreplies]⟩
  | waiting command seenIn seenNext dispatched =>
      rw [hcase] at h
      obtain ⟨-, -, hbefore, hlast, hafter⟩ := h
      cases dispatched with
      | true =>
          refine ⟨.endIteration, rfl, ?_⟩
          simp only [Update.step, hcase]
          split <;> rfl
      | false =>
          have hnext : seenNext = false := by
            cases seenNext with
            | false => rfl
            | true => exact absurd (hafter rfl).2 Bool.false_ne_true
          cases hmessages : s.messages with
          | cons message messages =>
              refine ⟨.dispatch, rfl, ?_⟩
              cases message <;> simp [Update.step, hcase, hmessages]
          | nil =>
              have hin : seenIn = true := by
                cases seenIn with
                | true => rfl
                | false =>
                    have hmem := (hbefore rfl).2
                    rw [hmessages] at hmem
                    cases hmem
              -- the daemon is still in the state of the command
              have hbusy : s.skeleton.shown.state ∈ busy := by
                have hheard := hlast hnext
                rw [Heard, hmessages] at hheard
                rw [← hheard]
                exact command.kind.state_mem_busy
              by_cases hcurrent : s.skeleton.shown = s.skeleton.announced
              · obtain ⟨worker, outcome, hsome⟩ := hreached.exists_finished hbusy hcurrent
                exact ⟨.daemon (.finished worker outcome), rfl, by simpa [Update.step] using hsome⟩
              · exact ⟨.emitChanged, rfl, by simp [Update.step, Skeleton.emitChanged, hcurrent]⟩

/-- **The command comes to an end.** Whatever the daemon and other clients do, until the command has
exited something that it waits for is under way; and all it does and waits for are at most 56
events, and 13 more for each call of another client. Counted are the steps of the command, the
arrivals of its calls, replies and messages, the announcements of changes that are `Shown`, and the
returns of workers (`advances`). -/
theorem update_terminates (hrun : Run Initial (step options) history s) :
    ((∃ status, s.phase = .exited status) ∨
        ∃ event, advances event = true ∧ (s.step options event).isSome) ∧
      (history.filter fun τ => advances τ.event).length ≤
        56 + 13 * (history.filter fun τ => foreign τ.event).length := by
  constructor
  · obtain ⟨hreached, h⟩ := awaits_of_run hrun
    by_cases hexited : ∃ status, s.phase = .exited status
    · exact .inl hexited
    · exact .inr (h.exists_step hreached (not_exists.1 hexited) options)
  · have hspent : s.potential + history.total spends ≤ 56 + history.total brings :=
      hrun.spent_le (fun _ h => h.potential_le) fun hrun hstep =>
        potential_step (awaits_of_run hrun).1 hstep
    have hspends : history.total spends = 1 * (history.filter fun τ => advances τ.event).length :=
      History.total_ite advances 1 history
    have hbrings : history.total brings = 13 * (history.filter fun τ => foreign τ.event).length :=
      History.total_ite foreign 13 history
    omega

/-- A daemon that has just been started, and a command that begins. -/
def begun : Update Unit :=
  let daemon : Daemon Unit := Daemon.onBusAcquired (.ok "booted") true
  { skeleton := ⟨daemon, daemon.updater.shown⟩
    messages := []
    calls := []
    replies := []
    phase := .starting
    cachedState := daemon.updater.state }

theorem begun_initial : begun.Initial :=
  ⟨⟨[], .start ⟨.ok "booted", true, rfl⟩⟩, rfl, rfl, rfl, rfl, rfl, rfl⟩

/-- There is no update, and another client polls once more before that is announced. -/
def noUpdate : List (UpdateEvent Unit) :=
  let finished : UpdateEvent Unit :=
    .daemon (.finished 0 (.metadata (.ok none) ⟨.ok (), .ok []⟩))
  [.start, .receiveCall, .receiveReply, .dispatch, .endIteration, .emitChanged, finished,
    .daemon (.call .poll), finished, .dispatch, .dispatch, .endIteration]

/-- A run of the tool that finds no update ends within the bound. -/
theorem noUpdate_terminates :
    ∃ history s, exec (step ⟨true, false, 0⟩) [] begun noUpdate = some (history, s) ∧
      s.skeleton.shown.state = .ready ∧
      ((∃ status, s.phase = .exited status) ∨
        ∃ event, advances event = true ∧ (s.step ⟨true, false, 0⟩ event).isSome) ∧
      (history.filter fun τ => advances τ.event).length ≤
        56 + 13 * (history.filter fun τ => foreign τ.event).length := by
  have hfinal : (exec (step ⟨true, false, 0⟩) [] begun noUpdate).map
      (fun run => run.2.skeleton.shown.state) = some .ready := by decide +kernel
  obtain ⟨⟨history, s⟩, hexec, hstate⟩ := Option.map_eq_some_iff.1 hfinal
  exact ⟨history, s, hexec, hstate, update_terminates (Run.of_exec (.start begun_initial) hexec)⟩

end Update

end Ctl
