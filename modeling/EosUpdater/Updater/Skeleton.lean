import EosUpdater.Updater.Exclusion

/-!
# What clients are told

A client follows the daemon through a proxy, which has a copy of its properties. The skeleton that
is generated for the daemon collects the changes that handlers and callbacks make, and announces
them together from a source of the main loop, so that what a client hears of may be more than one
step away. Only the properties that decide what a client does are kept here (`Shown`); an
announcement of others alone, such as `DownloadedBytes` during a fetch, is no event of the skeleton.

That source was added before the task of the worker that a change has started could return, and so
it is dispatched before the callback of this worker: every state with a worker is announced, and so
is every change of the state (`Told`).
-/

namespace Updater

open Euu Machine

variable {ρ : Type}

/-- The properties that decide what a client does. The others are left out: `DownloadedBytes` and
the sizes, the label, the message and the version of the update, the other refspec and commit, and
the error. -/
structure Shown where
  state : EosUpdaterState
  updateRefspec : Option String
  updateId : Option String
  updateIsUserVisible : Bool
deriving DecidableEq, Repr

/-- The properties that an object shows to its clients. -/
def EosUpdater.shown (updater : EosUpdater) : Shown where
  state := updater.state
  updateRefspec := updater.updateRefspec
  updateId := updater.updateId
  updateIsUserVisible := updater.updateIsUserVisible

/-- The states in which a worker is in flight. -/
def busy : List EosUpdaterState := [.polling, .fetching, .applyingUpdate]

/-- The states in which a worker of each kind ends. -/
def WorkerKind.endsIn : WorkerKind → List EosUpdaterState
  | poll => [.ready, .updateAvailable, .error]
  | fetch => [.updateReady, .error]
  | apply => [.updateApplied, .error]

/-- The state of a worker is a busy one. -/
theorem WorkerKind.state_mem_busy (kind : WorkerKind) : kind.state ∈ busy := by
  cases kind <;> decide

/-- Each busy state is that of a worker. -/
theorem exists_kind_of_mem_busy {state : EosUpdaterState} (h : state ∈ busy) :
    ∃ kind : WorkerKind, state = kind.state := by
  simp only [busy, List.mem_cons, List.not_mem_nil, or_false] at h
  rcases h with rfl | rfl | rfl
  · exact ⟨.poll, rfl⟩
  · exact ⟨.fetch, rfl⟩
  · exact ⟨.apply, rfl⟩

/-- A worker ends in a state at rest. -/
theorem WorkerKind.notMem_busy_of_endsIn (kind : WorkerKind) {state : EosUpdaterState}
    (h : state ∈ kind.endsIn) : state ∉ busy := by
  revert h
  cases kind <;> cases state <;> decide

/-- A worker starts from a state at rest. -/
theorem WorkerKind.notMem_busy_of_startsIn (kind : WorkerKind) {state : EosUpdaterState}
    (h : state ∈ kind.startsIn) : state ∉ busy := by
  revert h
  cases kind <;> cases state <;> decide

/-- The kind of worker that a method starts. -/
def Method.kind : Method → Option WorkerKind
  | .poll | .pollVolume _ => some .poll
  | .fetch | .fetchFull _ => some .fetch
  | .apply => some .apply
  | .cancel => none

/-- The daemon refuses to start a worker on a live system or in a state that does not allow it;
otherwise it starts one of the kind that the method is for. -/
theorem Daemon.call_of_kind (daemon : Daemon ρ) {method : Method} {kind : WorkerKind}
    (hkind : method.kind = some kind) :
    ((daemon.installed = false ∨ daemon.updater.state ∉ kind.startsIn) ∧
        ∃ e, daemon.call method = daemon.returnError e) ∨
      daemon.updater.state ∈ kind.startsIn ∧
        ∃ work : Work, work.kind = kind ∧ daemon.call method = daemon.startWorker work := by
  -- on an installed system all methods test the state in the same way
  have hwhenIn (name : String) (work : Work) (hwork : work.kind = kind) :
      ((daemon.installed = false ∨ daemon.updater.state ∉ kind.startsIn) ∧
          ∃ e, daemon.whenIn kind.startsIn name "" (daemon.startWorker work) =
            daemon.returnError e) ∨
        daemon.updater.state ∈ kind.startsIn ∧ ∃ work' : Work, work'.kind = kind ∧
          daemon.whenIn kind.startsIn name "" (daemon.startWorker work) =
            daemon.startWorker work' := by
    unfold Daemon.whenIn
    split
    · next hstate => exact .inr ⟨hstate, work, hwork, rfl⟩
    · next hstate => exact .inl ⟨.inr hstate, _, rfl⟩
  unfold Daemon.call
  split
  · cases method with
    | poll =>
        obtain rfl := Option.some_inj.1 hkind
        exact hwhenIn "Poll" .metadataFetch rfl
    | pollVolume path =>
        obtain rfl := Option.some_inj.1 hkind
        exact hwhenIn "PollVolume" (.pollVolume path) rfl
    | fetch =>
        obtain rfl := Option.some_inj.1 hkind
        exact hwhenIn "Fetch" (.contentFetch _) rfl
    | fetchFull options =>
        obtain rfl := Option.some_inj.1 hkind
        exact hwhenIn "Fetch" (.contentFetch _) rfl
    | apply =>
        obtain rfl := Option.some_inj.1 hkind
        exact hwhenIn "Apply" (.apply _) rfl
    | cancel => cases hkind
  · next hlive => exact .inl ⟨.inl (Bool.not_eq_true _ ▸ hlive), _, rfl⟩

/-! ### What a step shows -/

/-- What a step does to the properties that are shown. -/
inductive Shows : Shown → Event ρ → Shown → Prop
  /-- A call is refused or cancels a worker, or a worker goes on. -/
  | same {shown : Shown} {event : Event ρ}
      (hevent : ∀ worker outcome, event ≠ .finished worker outcome) : Shows shown event shown
  /-- A call starts a worker. -/
  | starts {shown : Shown} {method : Method} (kind : WorkerKind)
      (hstate : shown.state ∈ kind.startsIn) :
      Shows shown (.call method) { shown with state := kind.state }
  /-- A worker returns; only a poll changes the update on offer. -/
  | ends {before after : Shown} {worker : ℕ} {outcome : Outcome ρ} (kind : WorkerKind)
      (hbefore : before.state = kind.state) (hafter : after.state ∈ kind.endsIn)
      (hoffer : kind ≠ .poll → after = { before with state := after.state }) :
      Shows before (.finished worker outcome) after

namespace Daemon

variable {daemon daemon' : Daemon ρ}

theorem startWorker_shown (daemon : Daemon ρ) (work : Work) :
    (daemon.startWorker work).updater.shown =
      { daemon.updater.shown with state := work.kind.state } := by
  simp [startWorker, complete, EosUpdater.shown, EosUpdater.clearError, EosUpdater.setStateChanged]

/-- A call starts a worker, or shows nothing new. -/
theorem shows_call (daemon : Daemon ρ) (method : Method) :
    Shows (ρ := ρ) daemon.updater.shown (.call method) (daemon.call method).updater.shown := by
  rcases daemon.call_inversion method with ⟨e, h⟩ | ⟨-, -, h⟩ | ⟨-, work, hstate, -, h⟩
  · rw [h]
    exact .same fun _ _ => by rintro ⟨⟩
  · rw [h]
    have hupdater := daemon.cancelCancellable.resetCancellable_updater
    have hshown : daemon.cancelCancellable.resetCancellable.complete.updater.shown =
        daemon.updater.shown := congrArg EosUpdater.shown hupdater
    rw [hshown]
    exact .same fun _ _ => by rintro ⟨⟩
  · rw [h, startWorker_shown]
    exact .starts work.kind hstate

/-- Progress changes nothing of what is shown. -/
theorem updateProgress_shown (daemon : Daemon ρ) (bytes : ℕ) :
    (daemon.updateProgress bytes).updater.shown = daemon.updater.shown := by
  unfold updateProgress
  split <;> rfl

/-- The end of a fetch only changes the state shown. -/
theorem contentFetchFinished_shown (daemon : Daemon ρ) (task : Task)
    (result : Except GError Unit) :
    (daemon.contentFetchFinished task result).updater.shown =
      { daemon.updater.shown with
        state := (daemon.contentFetchFinished task result).updater.state } := by
  unfold contentFetchFinished
  split <;> rfl

/-- The end of an apply only changes the state shown. -/
theorem applyFinished_shown (daemon : Daemon ρ) (task : Task) (result : Except GError Unit) :
    (daemon.applyFinished task result).updater.shown =
      { daemon.updater.shown with
        state := (daemon.applyFinished task result).updater.state } := by
  unfold applyFinished
  split <;> rfl

/-- **The step.** What an event shows. -/
theorem Exclusive.shows (h : daemon.Exclusive) {event : Event ρ}
    (hstep : daemon.step event = some daemon') :
    Shows daemon.updater.shown event daemon'.updater.shown := by
  cases event with
  | call method =>
      obtain rfl := Option.some_inj.1 hstep
      exact daemon.shows_call method
  | progress bytes =>
      obtain rfl := Option.some_inj.1 hstep
      rw [updateProgress_shown]
      exact .same fun _ _ => by rintro ⟨⟩
  | deploy worker =>
      simp only [Daemon.step] at hstep
      split at hstep
      · obtain rfl := Option.some_inj.1 hstep
        exact .same fun _ _ => by rintro ⟨⟩
      · cases hstep
  | finished worker outcome =>
      -- the state is one that the kind of the worker ends in, and only a poll changes the rest
      obtain ⟨task, -, -, hstate, hcases⟩ := h.finished_inversion hstep
      refine .ends task.work.kind hstate ?_ ?_
      · rcases hcases with ⟨result, objects, -, hkind, rfl⟩ | ⟨data, result, -, hwork, rfl⟩ |
          ⟨data, result, -, hwork, rfl⟩
        · have hends : ∀ state : EosUpdaterState,
              (state = .updateAvailable ∨ state = .error) ∨ state = .ready ∨ state = .error →
                state ∈ WorkerKind.poll.endsIn := by
            rintro _ ((rfl | rfl) | rfl | rfl) <;> decide
          rw [hkind]
          refine hends _ ?_
          obtain ⟨-, hpoll⟩ :=
            metadataFetchFinished_cases { daemon with workers := [] } task result objects
          refine hpoll.imp_left fun hfound => ?_
          obtain ⟨-, -, -, hstate'⟩ := hfound
          exact hstate'
        · have hends : ∀ state : EosUpdaterState, state = .updateReady ∨ state = .error →
              state ∈ WorkerKind.fetch.endsIn := by
            rintro _ (rfl | rfl) <;> decide
          rw [hwork]
          exact hends _
            (contentFetchFinished_cases { daemon with workers := [] } task result).2.2
        · have hends : ∀ state : EosUpdaterState, state = .updateApplied ∨ state = .error →
              state ∈ WorkerKind.apply.endsIn := by
            rintro _ (rfl | rfl) <;> decide
          rw [hwork]
          exact hends _ (applyFinished_cases { daemon with workers := [] } task result).2
      · intro hpoll
        rcases hcases with ⟨result, objects, -, hkind, -⟩ | ⟨data, result, -, -, rfl⟩ |
          ⟨data, result, -, -, rfl⟩
        · exact absurd hkind hpoll
        · exact contentFetchFinished_shown { daemon with workers := [] } task result
        · exact applyFinished_shown { daemon with workers := [] } task result

/-- A new cancellable keeps what is installed. -/
theorem resetCancellable_installed (daemon : Daemon ρ) :
    daemon.resetCancellable.installed = daemon.installed := by
  unfold resetCancellable
  split <;> rfl

/-- Whether the system is an installed one was found out when the daemon was started. -/
theorem installed_of_step {event : Event ρ} (hstep : daemon.step event = some daemon') :
    daemon'.installed = daemon.installed := by
  have herror (daemon : Daemon ρ) (error : Option GError) :
      (daemon.setErrorIfAny error).installed = daemon.installed := by
    cases error <;> rfl
  cases event with
  | call method =>
      obtain rfl := Option.some_inj.1 hstep
      rcases daemon.call_inversion method with ⟨e, h⟩ | ⟨-, -, h⟩ | ⟨-, work, -, -, h⟩
      · rw [h]
        rfl
      · rw [h]
        exact daemon.cancelCancellable.resetCancellable_installed
      · rw [h]
        exact daemon.resetCancellable_installed
  | progress bytes =>
      obtain rfl := Option.some_inj.1 hstep
      show (daemon.updateProgress bytes).installed = daemon.installed
      unfold updateProgress
      split <;> rfl
  | deploy worker =>
      simp only [Daemon.step] at hstep
      split at hstep
      · obtain rfl := Option.some_inj.1 hstep
        rfl
      · cases hstep
  | finished worker outcome =>
      simp only [Daemon.step, Option.bind_eq_some_iff] at hstep
      -- no callback of a worker writes the field
      obtain ⟨task, -, hcallback⟩ := hstep
      unfold callback at hcallback
      split at hcallback
      · obtain rfl := Option.some_inj.1 hcallback
        unfold metadataFetchFinished
        split <;> exact herror _ _
      · obtain rfl := Option.some_inj.1 hcallback
        unfold metadataFetchFinished
        split <;> exact herror _ _
      · obtain rfl := Option.some_inj.1 hcallback
        unfold contentFetchFinished
        split <;> rfl
      · obtain rfl := Option.some_inj.1 hcallback
        unfold applyFinished
        split <;> rfl
      · cases hcallback

end Daemon

/-! ### The skeleton -/

/-- The daemon, with the properties that its skeleton has announced last. -/
structure Skeleton (ρ : Type) where
  daemon : Daemon ρ
  announced : Shown

namespace Skeleton

variable {skeleton skeleton' : Skeleton ρ}

/-- The properties as they are. -/
def shown (skeleton : Skeleton ρ) : Shown := skeleton.daemon.updater.shown

/-- An event of the daemon. A worker returns only after the changes have been announced. -/
def step (skeleton : Skeleton ρ) : Event ρ → Option (Skeleton ρ)
  | .finished worker outcome =>
      if skeleton.shown = skeleton.announced then
        (skeleton.daemon.step (.finished worker outcome)).map fun daemon =>
          { skeleton with daemon }
      else none
  | event => (skeleton.daemon.step event).map fun daemon => { skeleton with daemon }

/-- `_eos_updater_emit_changed`, which compares the values of the properties with those that were
announced before. -/
def emitChanged (skeleton : Skeleton ρ) : Option (Skeleton ρ) :=
  if skeleton.shown = skeleton.announced then none
  else some { skeleton with announced := skeleton.shown }

/-- Runs of the daemon lead to this state of it. -/
def Reached (skeleton : Skeleton ρ) : Prop :=
  ∃ past, Run Daemon.Started Daemon.step past skeleton.daemon

/-- A daemon that can be reached has at most one worker. -/
theorem Reached.exclusive (h : skeleton.Reached) : skeleton.daemon.Exclusive := by
  obtain ⟨past, hrun⟩ := h
  exact (consistent_of_run hrun).exclusive

/-- An event happens to the daemon, and if it is a worker that returns, nothing was left to be
announced. -/
theorem step_inversion {event : Event ρ} (h : skeleton.step event = some skeleton') :
    skeleton'.announced = skeleton.announced ∧
      skeleton.daemon.step event = some skeleton'.daemon ∧
      ((∃ worker outcome, event = .finished worker outcome) →
        skeleton.shown = skeleton.announced) := by
  cases event with
  | finished worker outcome =>
      obtain ⟨hcurrent, hmap⟩ := Option.ite_none_right_eq_some.1 h
      obtain ⟨daemon, hstep, rfl⟩ := Option.map_eq_some_iff.1 hmap
      exact ⟨rfl, hstep, fun _ => hcurrent⟩
  | call | progress | deploy =>
      simp only [step, Option.map_eq_some_iff] at h
      obtain ⟨daemon, hstep, rfl⟩ := h
      exact ⟨rfl, hstep, by rintro ⟨_, _, ⟨⟩⟩⟩

/-- The daemon is never without a state. -/
theorem Reached.state_ne_none (h : skeleton.Reached) : skeleton.shown.state ≠ .none := by
  obtain ⟨past, hrun⟩ := h
  -- along the run, with the lock that the state is
  suffices h : ∀ {past} {daemon : Daemon ρ}, Run Daemon.Started Daemon.step past daemon →
      daemon.updater.shown.state ≠ .none from h hrun
  intro past daemon hrun
  induction hrun with
  | start hstart =>
      rcases hstart.state.2 with h | h <;> simp [EosUpdater.shown, h]
  | next hrun hstep ih =>
      have hshows := (consistent_of_run hrun).exclusive.shows hstep
      generalize Daemon.updater _ = before at hshows ih
      generalize Daemon.updater _ = after at hshows ⊢
      generalize before.shown = before at hshows ih
      generalize after.shown = after at hshows ⊢
      cases hshows with
      | same => exact ih
      | starts kind => cases kind <;> rintro ⟨⟩
      | ends kind _ hafter =>
          intro hnone
          rw [hnone] at hafter
          revert hafter
          cases kind <;> decide

/-- What follows a state that can be reached can be reached. -/
theorem Reached.step (h : skeleton.Reached) {event : Event ρ}
    (hstep : skeleton.step event = some skeleton') : skeleton'.Reached := by
  obtain ⟨past, hrun⟩ := h
  exact ⟨_, hrun.next (step_inversion hstep).2.1⟩

/-- What a step shows. -/
theorem Reached.shows (h : skeleton.Reached) {event : Event ρ}
    (hstep : skeleton.step event = some skeleton') :
    Shows skeleton.shown event skeleton'.shown :=
  h.exclusive.shows (step_inversion hstep).2.1

/-- A worker in flight can return, unless there is something left to be announced. -/
theorem Reached.exists_finished (h : skeleton.Reached) (hbusy : skeleton.shown.state ∈ busy)
    (hcurrent : skeleton.shown = skeleton.announced) :
    ∃ worker outcome, (skeleton.step (.finished worker outcome)).isSome := by
  obtain ⟨kind, hkind⟩ := exists_kind_of_mem_busy hbusy
  obtain ⟨⟨cancellable, work⟩, htask, -⟩ := (h.exclusive.state_iff kind).1 hkind
  obtain ⟨worker, hworker⟩ := List.mem_iff_getElem?.1 htask
  refine ⟨worker, ?_⟩
  cases work with
  | metadataFetch | pollVolume =>
      exact ⟨.metadata (.ok none) ⟨.ok (), .ok []⟩,
        by simp [Skeleton.step, hcurrent, Daemon.step, hworker, Daemon.callback]⟩
  | contentFetch | apply =>
      exact ⟨.boolean (.ok ()),
        by simp [Skeleton.step, hcurrent, Daemon.step, hworker, Daemon.callback]⟩

/-- What is shown and not yet announced: a worker was started, where the clients have last heard of
a state without one, or, after a worker has returned, possibly the next one was. -/
structure Told (skeleton : Skeleton ρ) : Prop where
  /-- From a state without a worker a call leads away. -/
  starts : skeleton.announced.state ∉ busy → skeleton.shown ≠ skeleton.announced →
    skeleton.shown.state ∈ busy
  /-- After an error there is nothing but a poll. -/
  polls : skeleton.announced.state = .error → skeleton.shown ≠ skeleton.announced →
    skeleton.shown.state = .polling

/-- Once everything is announced, the clients have been told. -/
theorem told_of_current (h : skeleton.shown = skeleton.announced) : skeleton.Told :=
  ⟨fun _ hne => absurd h hne, fun _ hne => absurd h hne⟩

/-- No event leads to a change that would not be announced. -/
theorem Told.step (htold : skeleton.Told) (h : skeleton.Reached) {event : Event ρ}
    (hstep : skeleton.step event = some skeleton') : skeleton'.Told := by
  obtain ⟨hannounced, -, hcurrent⟩ := step_inversion hstep
  have hshows := h.shows hstep
  generalize hbefore : skeleton.shown = before at hshows hcurrent
  generalize hafter : skeleton'.shown = after at hshows
  constructor
  · rw [hannounced, hafter]
    cases hshows with
    | same => rw [← hbefore]; exact htold.starts
    | starts kind => exact fun _ _ => kind.state_mem_busy
    | ends kind hstate =>
        -- the state with the worker was announced
        intro hidle
        rw [← hcurrent ⟨_, _, rfl⟩, hstate] at hidle
        exact absurd kind.state_mem_busy hidle
  · rw [hannounced, hafter]
    cases hshows with
    | same => rw [← hbefore]; exact htold.polls
    | starts kind hstate =>
        intro herror _
        -- the state is still `Error`, or it has been left for `Polling`
        have hpolling : before.state = .error ∨ before.state = .polling := by
          by_cases hsame : skeleton.shown = skeleton.announced
          · rw [← hbefore, hsame]
            exact .inl herror
          · exact .inr (hbefore ▸ htold.polls herror hsame)
        show kind.state = .polling
        rcases hpolling with hbefore | hbefore
        · rw [hbefore] at hstate
          revert hstate
          cases kind <;> decide
        · rw [hbefore] at hstate
          exact absurd hstate (WorkerKind.poll.state_notMem_startsIn kind)
    | ends kind hstate =>
        intro herror
        rw [← hcurrent ⟨_, _, rfl⟩, hstate] at herror
        cases kind <;> cases herror

end Skeleton

end Updater
