import EosUpdater.Updater.Exclusion

/-!
# The states that are announced

`com.endlessm.Updater.xml` documents which state follows which (`EosUpdaterState.next`), and clients
act on the `StateChanged` signals. The signals of a run form a path of that graph, and each poll
announces `Polling` and then one more state, exactly if no poll of the run ends in an error
(`followsGraph_iff`): before it reports an error, the callback of a poll announces `Ready`, or
`UpdateAvailable` if only the sizes of the update cannot be read.
-/

namespace Updater

open Euu Machine

variable {ρ : Type} {daemon daemon' start : Daemon ρ} {history : History (Daemon ρ) (Event ρ)}

/-! ### The documented graph -/

/-- The states that a state is documented to be followed by: with `Poll` and `PollVolume`, `Fetch`
and `FetchFull`, and `Apply`, and by what these lead to. `Cancel` leads to `Error`. -/
def EosUpdaterState.next : EosUpdaterState → List EosUpdaterState
  | none => []
  | ready => [polling]
  | error => [polling]
  | polling => [updateAvailable, ready, error]
  | updateAvailable => [polling, fetching]
  | fetching => [updateReady, error]
  | updateReady => [polling, applyingUpdate]
  | applyingUpdate => [updateApplied, error]
  | updateApplied => []

/-- The announced states, the most recent one first, are a path of the graph from a given state. -/
def IsPath (first : EosUpdaterState) : List EosUpdaterState → Prop
  | [] => True
  | state :: earlier => state ∈ (earlier.headD first).next ∧ IsPath first earlier

/-- The callback of a poll runs in this step. -/
def FinishesPoll (τ : Transition (Daemon ρ) (Event ρ)) : Prop :=
  ∃ worker result objects, τ.event = .finished worker (.metadata result objects)

/-- A run follows the documentation: the announced states are a path of the graph, and where a poll
ends, `Polling` is followed by exactly one state. -/
structure FollowsGraph (start : Daemon ρ) (history : History (Daemon ρ) (Event ρ))
    (daemon : Daemon ρ) : Prop where
  path : IsPath start.updater.state daemon.updater.stateChanged
  polls : ∀ τ ∈ history, FinishesPoll τ →
    ∃ earlier, τ.before.updater.stateChanged = .polling :: earlier ∧
      ∃ state ∈ [EosUpdaterState.updateAvailable, .ready, .error],
        τ.after.updater.stateChanged = state :: .polling :: earlier

/-! ### The errors of polls -/

/-- The error of a poll that returns `result`: what the worker returned, that it was cancelled, or
that the sizes of the update that was found cannot be read, unless there are none. -/
def Daemon.pollError (daemon : Daemon ρ) (task : Task)
    (result : Except GError (Option (EosUpdateInfo ρ))) (objects : CommitObjects) : Option GError :=
  match daemon.propagate task result with
  | .error e => some e
  | .ok none => none
  | .ok (some _) =>
      match getCommitSizes objects with
      | .ok _ => none
      | .error e => if e.code = .ioNotFound then none else some e

/-- The error with which a poll ends in this step. -/
def pollErrorBy (τ : Transition (Daemon ρ) (Event ρ)) : Option GError :=
  match τ.event with
  | .finished worker (.metadata result objects) =>
      (τ.before.workers[worker]?).bind fun task => τ.before.pollError task result objects
  | _ => none

/-! ### What a step announces -/

/-- Between two moments the daemon has announced some states, the most recent one first. -/
def EosUpdater.Announced (updater updater' : EosUpdater) (states : List EosUpdaterState) : Prop :=
  updater'.stateChanged = states ++ updater.stateChanged ∧
    updater'.state = states.headD updater.state

theorem EosUpdater.Announced.refl (updater : EosUpdater) : updater.Announced updater [] :=
  ⟨rfl, rfl⟩

/-- Starting a worker announces its state. -/
theorem Daemon.announced_startWorker (daemon : Daemon ρ) (work : Work) :
    daemon.updater.Announced (daemon.startWorker work).updater [work.kind.state] := by
  refine ⟨?_, rfl⟩
  simp [startWorker, complete, EosUpdater.clearError, EosUpdater.setStateChanged]

/-- Progress announces no state. -/
theorem Daemon.announced_updateProgress (daemon : Daemon ρ) (bytes : ℕ) :
    daemon.updater.Announced (daemon.updateProgress bytes).updater [] := by
  unfold updateProgress
  split <;> exact ⟨rfl, rfl⟩

/-- From the states in which a kind of worker is started, its own state is documented to follow. -/
theorem WorkerKind.state_mem_next (kind : WorkerKind) {state : EosUpdaterState}
    (h : state ∈ kind.startsIn) : kind.state ∈ state.next := by
  cases kind <;> cases state <;>
    simp_all [WorkerKind.startsIn, WorkerKind.state, EosUpdaterState.next]

/-- The sizes of an update announce nothing, and leave the error that is reported for them. -/
private theorem announced_offerSizes (updater : EosUpdater) (objects : CommitObjects) :
    updater.Announced (updater.offerSizes objects).1 [] ∧
      (updater.offerSizes objects).2 =
        match getCommitSizes objects with
        | .ok _ => none
        | .error e => if e.code = .ioNotFound then none else some e := by
  unfold EosUpdater.offerSizes
  cases getCommitSizes objects with
  | ok sizes => exact ⟨⟨rfl, rfl⟩, rfl⟩
  | error e =>
      dsimp only
      split <;> exact ⟨⟨rfl, rfl⟩, rfl⟩

/-- A poll without an error announces one state, and a poll with an error two. -/
theorem Daemon.announced_metadataFetchFinished (daemon : Daemon ρ) (task : Task)
    (result : Except GError (Option (EosUpdateInfo ρ))) (objects : CommitObjects) :
    ∃ state ∈ [EosUpdaterState.updateAvailable, .ready],
      (daemon.pollError task result objects = none ∧
        daemon.updater.Announced (daemon.metadataFetchFinished task result objects).updater
          [state]) ∨
      ((daemon.pollError task result objects).isSome ∧
        daemon.updater.Announced (daemon.metadataFetchFinished task result objects).updater
          [.error, state]) := by
  unfold metadataFetchFinished pollError
  cases daemon.propagate task result with
  | error e => exact ⟨.ready, by simp, Or.inr ⟨rfl, rfl, rfl⟩⟩
  | ok found =>
      cases found with
      | none => exact ⟨.ready, by simp, Or.inl ⟨rfl, rfl, rfl⟩⟩
      | some info =>
          obtain ⟨⟨hchanged, hstate⟩, herror⟩ :=
            announced_offerSizes (daemon.updater.offerUpdate info) objects
          refine ⟨.updateAvailable, by simp, ?_⟩
          dsimp only
          rw [← herror]
          -- whether there is an error now depends on the sizes alone
          generalize (daemon.updater.offerUpdate info).offerSizes objects = sized
            at hchanged hstate ⊢
          obtain ⟨updater, error⟩ := sized
          cases error with
          | none => exact Or.inl ⟨rfl, hchanged, hstate⟩
          | some e =>
              exact Or.inr ⟨rfl, congrArg (List.cons EosUpdaterState.error) hchanged, rfl⟩

/-- Where a poll ends, the state is `Polling`, and one state is announced, or an error behind it. -/
theorem announced_of_finishesPoll (h : daemon.Exclusive) {event : Event ρ}
    (hstep : daemon.step event = some daemon')
    (hpoll : FinishesPoll ⟨daemon, event, daemon'⟩) :
    daemon.updater.state = .polling ∧ ∃ state ∈ [EosUpdaterState.updateAvailable, .ready],
      (pollErrorBy ⟨daemon, event, daemon'⟩ = none ∧
        daemon.updater.Announced daemon'.updater [state]) ∨
      ((pollErrorBy ⟨daemon, event, daemon'⟩).isSome ∧
        daemon.updater.Announced daemon'.updater [.error, state]) := by
  obtain ⟨worker, result, objects, rfl⟩ := hpoll
  obtain ⟨task, hworkers, rfl, hstate, hcases⟩ := h.finished_inversion hstep
  rcases hcases with ⟨result, objects, heq, hkind, rfl⟩ | ⟨data, result', heq, -⟩ |
    ⟨data, result', heq, -⟩
  · cases heq
    rw [hkind] at hstate
    refine ⟨hstate, ?_⟩
    have herror : pollErrorBy ⟨daemon, .finished 0 (.metadata result objects),
        { daemon with workers := [] }.metadataFetchFinished task result objects⟩ =
          daemon.pollError task result objects := by
      simp [pollErrorBy, hworkers]
    rw [herror]
    exact Daemon.announced_metadataFetchFinished { daemon with workers := [] } task result objects
  · cases heq
  · cases heq

/-- The callback of a fetch or an apply announces a state that is documented to follow. -/
theorem announced_of_boolean (h : daemon.Exclusive) {worker : ℕ} {result : Except GError Unit}
    (hstep : daemon.step (.finished worker (.boolean result)) = some daemon') :
    ∃ state ∈ daemon.updater.state.next, daemon.updater.Announced daemon'.updater [state] := by
  obtain ⟨task, -, -, hstate, ⟨result', objects, heq, -⟩ | ⟨data, result, -, hwork, rfl⟩ |
    ⟨data, result, -, hwork, rfl⟩⟩ := h.finished_inversion hstep
  · cases heq
  · have hfetching : daemon.updater.state = .fetching := by rw [hstate, hwork]; rfl
    rw [hfetching]
    unfold Daemon.contentFetchFinished
    split
    · exact ⟨.error, by decide, rfl, rfl⟩
    · exact ⟨.updateReady, by decide, rfl, rfl⟩
  · have happlying : daemon.updater.state = .applyingUpdate := by rw [hstate, hwork]; rfl
    rw [happlying]
    unfold Daemon.applyFinished
    split
    · exact ⟨.error, by decide, rfl, rfl⟩
    · exact ⟨.updateApplied, by decide, rfl, rfl⟩

/-- **The step.** A step announces nothing, or a state that is documented to follow, or, where a
poll ends in an error, this error behind another state. -/
theorem announced_of_step (h : daemon.Exclusive) {event : Event ρ}
    (hstep : daemon.step event = some daemon') :
    (pollErrorBy ⟨daemon, event, daemon'⟩ = none ∧
      (daemon.updater.Announced daemon'.updater [] ∨
        ∃ state ∈ daemon.updater.state.next,
          daemon.updater.Announced daemon'.updater [state])) ∨
      ((pollErrorBy ⟨daemon, event, daemon'⟩).isSome ∧
        ∃ state ∈ [EosUpdaterState.updateAvailable, .ready],
          daemon.updater.Announced daemon'.updater [.error, state]) := by
  cases event with
  | call method =>
      left
      refine ⟨rfl, ?_⟩
      obtain rfl := Option.some_inj.1 hstep
      -- a call is refused, cancels or starts a worker
      rcases daemon.call_inversion method with ⟨e, h⟩ | ⟨-, -, h⟩ | ⟨-, work, hstate, -, h⟩
      · rw [h]
        exact Or.inl (.refl _)
      · rw [h]
        have hupdater := daemon.cancelCancellable.resetCancellable_updater
        exact Or.inl ⟨congrArg EosUpdater.stateChanged hupdater,
          congrArg EosUpdater.state hupdater⟩
      · rw [h]
        exact Or.inr ⟨_, work.kind.state_mem_next hstate, daemon.announced_startWorker work⟩
  | finished worker outcome =>
      cases outcome with
      | metadata result objects =>
          obtain ⟨hpolling, state, hmem, ⟨hnone, hannounced⟩ | herror⟩ :=
            announced_of_finishesPoll h hstep ⟨worker, result, objects, rfl⟩
          -- both states are documented to follow `Polling`
          · refine Or.inl ⟨hnone, Or.inr ⟨state, ?_, hannounced⟩⟩
            rw [hpolling]
            exact List.mem_of_mem_take (i := 2) hmem
          · exact Or.inr ⟨herror.1, state, hmem, herror.2⟩
      | boolean result => exact Or.inl ⟨rfl, Or.inr (announced_of_boolean h hstep)⟩
  | progress bytes =>
      obtain rfl := Option.some_inj.1 hstep
      exact Or.inl ⟨rfl, Or.inl (daemon.announced_updateProgress bytes)⟩
  | deploy worker =>
      left
      simp only [Daemon.step] at hstep
      split at hstep
      · obtain rfl := Option.some_inj.1 hstep
        exact ⟨rfl, Or.inl (.refl _)⟩
      · cases hstep

/-! ### Runs -/

/-- Before the daemon is on the bus, its signals reach nobody. -/
theorem Daemon.Started.stateChanged (h : daemon.Started) : daemon.updater.stateChanged = [] := by
  obtain ⟨bootedChecksum, installed, rfl⟩ := h
  rfl

/-- The state is the one announced last. -/
theorem state_of_run (hstart : start.Started)
    (hrun : Run (fun daemon => daemon = start) Daemon.step history daemon) :
    daemon.updater.state = daemon.updater.stateChanged.headD start.updater.state := by
  induction hrun with
  | start h =>
      rw [h, hstart.stateChanged]
      rfl
  | @next history s t event hrun hstep ih =>
      have hexclusive := (consistent_of_run (hrun.mono fun s h => h ▸ hstart)).exclusive
      rcases announced_of_step hexclusive hstep with
        ⟨-, ⟨hchanged, hstate⟩ | ⟨state, -, hchanged, hstate⟩⟩ | ⟨-, state, -, hchanged, hstate⟩
      · rw [hchanged, hstate]
        exact ih
      · rw [hchanged, hstate]
        rfl
      · rw [hchanged, hstate]
        rfl

/-- One more step follows the documentation unless it ends a poll in an error. -/
private theorem followsGraph_next (hstart : start.Started)
    (hrun : Run (fun daemon => daemon = start) Daemon.step history daemon) {event : Event ρ}
    (hstep : daemon.step event = some daemon') :
    FollowsGraph start (⟨daemon, event, daemon'⟩ :: history) daemon' ↔
      FollowsGraph start history daemon ∧ pollErrorBy ⟨daemon, event, daemon'⟩ = none := by
  have hexclusive := (consistent_of_run (hrun.mono fun s h => h ▸ hstart)).exclusive
  have hcases := announced_of_step hexclusive hstep
  constructor
  · intro hfollows
    have hpolls : ∀ τ ∈ history, FinishesPoll τ → _ := fun τ hτ =>
      hfollows.polls τ (List.mem_cons_of_mem _ hτ)
    have hpath := hfollows.path
    rcases hcases with ⟨hnone, ⟨hchanged, -⟩ | ⟨state, hnext, hchanged, -⟩⟩ |
      ⟨-, state, hmem, hchanged, -⟩
    · rw [hchanged] at hpath
      exact ⟨⟨hpath, hpolls⟩, hnone⟩
    · rw [hchanged] at hpath
      exact ⟨⟨hpath.2, hpolls⟩, hnone⟩
    -- neither `Ready` nor `UpdateAvailable` is documented to be followed by `Error`
    · rw [hchanged] at hpath
      have hillegal : ∀ state ∈ [EosUpdaterState.updateAvailable, .ready], .error ∉ state.next := by
        decide
      exact absurd hpath.1 (hillegal state hmem)
  · rintro ⟨hfollows, hnone⟩
    -- the path goes on from the state that was announced last
    have hstate := state_of_run hstart hrun
    refine ⟨?_, fun τ hτ hpoll => ?_⟩
    · rcases hcases with ⟨-, ⟨hchanged, -⟩ | ⟨state, hnext, hchanged, -⟩⟩ | ⟨hsome, -⟩
      · rw [hchanged]
        exact hfollows.path
      · rw [hchanged]
        refine ⟨?_, hfollows.path⟩
        show state ∈ (daemon.updater.stateChanged.headD start.updater.state).next
        rwa [← hstate]
      · rw [hnone] at hsome
        cases hsome
    · rcases List.mem_cons.1 hτ with rfl | hτ
      · obtain ⟨hpolling, state, hmem, ⟨-, hchanged, -⟩ | ⟨hsome, -⟩⟩ :=
          announced_of_finishesPoll hexclusive hstep hpoll
        · -- the daemon was not started polling, so it has announced that it polls
          rw [hpolling] at hstate
          cases hannounced : daemon.updater.stateChanged with
          | nil =>
              rw [hannounced] at hstate
              rcases hstart.state.2 with h | h <;> simp [h] at hstate
          | cons first earlier =>
              rw [hannounced] at hstate hchanged
              obtain rfl : EosUpdaterState.polling = first := hstate
              exact ⟨earlier, rfl, state, List.mem_of_mem_take (i := 2) hmem, hchanged⟩
        · rw [hnone] at hsome
          cases hsome
      · exact hfollows.polls τ hτ hpoll

/-- **When the signals follow the documentation**: exactly if no poll of the run ends in an
error. -/
theorem followsGraph_iff (hstart : start.Started)
    (hrun : Run (fun daemon => daemon = start) Daemon.step history daemon) :
    FollowsGraph start history daemon ↔ ∀ τ ∈ history, pollErrorBy τ = none := by
  induction hrun with
  | start h =>
      refine ⟨fun _ τ hτ => absurd hτ List.not_mem_nil,
        fun _ => ⟨?_, fun τ hτ => absurd hτ List.not_mem_nil⟩⟩
      rw [h, hstart.stateChanged]
      trivial
  | next hrun hstep ih =>
      rw [followsGraph_next hstart hrun hstep, ih, List.forall_mem_cons, and_comm]

/-- A poll that returns a result, on an installed system. -/
def onePoll (result : Except GError (Option (EosUpdateInfo Unit))) : List (Event Unit) :=
  [.call .poll, .finished 0 (.metadata result ⟨.ok (), .ok []⟩)]

/-- A poll that finds nothing announces `Polling` and `Ready`. -/
theorem onePoll_follows :
    ∃ history daemon,
      exec Daemon.step [] (Daemon.onBusAcquired (.ok "booted") true) (onePoll (.ok none)) =
        some (history, daemon) ∧
      FollowsGraph (Daemon.onBusAcquired (.ok "booted") true) history daemon := by
  have herrors : (exec Daemon.step [] (Daemon.onBusAcquired (.ok "booted") true)
      (onePoll (.ok none))).map (fun run => run.1.map pollErrorBy) = some [none, none] := by
    decide +kernel
  obtain ⟨⟨history, daemon⟩, hexec, hhistory⟩ := Option.map_eq_some_iff.1 herrors
  refine ⟨history, daemon, hexec,
    (followsGraph_iff ⟨_, _, rfl⟩ (Run.of_exec (.start rfl) hexec)).2 fun τ hτ => ?_⟩
  have hmem : pollErrorBy τ ∈ [none, none] := hhistory ▸ List.mem_map_of_mem hτ
  simpa using hmem

/-- A poll that fails announces `Ready` behind `Polling`, and only then `Error`. -/
theorem onePoll_announces_ready :
    ∃ history daemon,
      exec Daemon.step [] (Daemon.onBusAcquired (.ok "booted") true)
          (onePoll (.error ⟨.ioFailed, "Could not resolve host"⟩)) = some (history, daemon) ∧
      daemon.updater.stateChanged = [.error, .ready, .polling] ∧
      ¬ FollowsGraph (Daemon.onBusAcquired (.ok "booted") true) history daemon := by
  have hchanged : (exec Daemon.step [] (Daemon.onBusAcquired (.ok "booted") true)
      (onePoll (.error ⟨.ioFailed, "Could not resolve host"⟩))).map
        (fun run => run.2.updater.stateChanged) = some [.error, .ready, .polling] := by
    decide +kernel
  obtain ⟨⟨history, daemon⟩, hexec, hdaemon⟩ := Option.map_eq_some_iff.1 hchanged
  refine ⟨history, daemon, hexec, hdaemon, fun hfollows => ?_⟩
  have hpath := hfollows.path
  rw [hdaemon] at hpath
  have hready : EosUpdaterState.error ∈ EosUpdaterState.ready.next := hpath.1
  exact absurd hready (by decide)

end Updater
