import EosUpdater.Machine.Run
import EosUpdater.Updater.Daemon

/-!
# One worker, one update

The state of the daemon is a lock: it is `Polling`, `Fetching` or `ApplyingUpdate` exactly while a
worker of that kind is in flight, and never is there a second one. What the daemon offers, in its
properties and in the data it shares with the workers, comes from one poll, from the moment an
update is available until it has been applied; and what is deployed is what was fetched last.

A method either starts a worker or does nothing that matters here (`call_cases`). A worker that
returns leaves the daemon in a state without a worker (`metadataFetchFinished_cases` and its
siblings). Both are steps of `Consistent`, which speaks of the history of a run for the poll and the
fetch that a state goes back to.
-/

namespace Updater

open Euu Machine

variable {ρ : Type} {daemon daemon' : Daemon ρ}

/-- What a poll determines for the steps that follow it. -/
structure Offer (ρ : Type) where
  updateId : Option String
  updateRefspec : Option String
  originalRefspec : Option String
  results : Option (List ρ)
  overriddenUrls : Option (List String)
  offlineResultsOnly : Bool

/-- The offer that the daemon makes, in `UpdateID`, `UpdateRefspec`, `OriginalRefspec` and in the
data shared with the workers. -/
def Daemon.offer (daemon : Daemon ρ) : Offer ρ where
  updateId := daemon.updater.updateId
  updateRefspec := daemon.updater.updateRefspec
  originalRefspec := daemon.updater.originalRefspec
  results := daemon.data.results
  overriddenUrls := daemon.data.overriddenUrls
  offlineResultsOnly := daemon.data.offlineResultsOnly

/-- The offer that a poll has found. -/
def EosUpdateInfo.offer (info : EosUpdateInfo ρ) : Offer ρ where
  updateId := some info.checksum
  updateRefspec := some info.newRefspec
  originalRefspec := some info.oldRefspec
  results := info.results
  overriddenUrls := info.urls
  offlineResultsOnly := info.offlineResultsOnly

/-- The states from which a method starts a worker of each kind. -/
def WorkerKind.startsIn : WorkerKind → List EosUpdaterState
  | poll => [.ready, .updateAvailable, .updateReady, .error]
  | fetch => [.updateAvailable]
  | apply => [.updateReady]

/-- The states in which a poll has found an update that may still be deployed. -/
def offering : List EosUpdaterState := [.updateAvailable, .fetching, .updateReady, .applyingUpdate]

/-- The task data of a fetch and of an apply are what the properties say. -/
def Work.Captures (updater : EosUpdater) : Work → Prop
  | .contentFetch data =>
      data.updateId = updater.updateId ∧ data.updateRefspec = updater.updateRefspec
  | .apply data => data.updateId = updater.updateId ∧ data.updateRefspec = updater.updateRefspec
  | _ => True

/-! ### What an event does -/

/-- Two daemons agree on the workers, the state and the offer. -/
structure Daemon.Agrees (daemon daemon' : Daemon ρ) : Prop where
  workers : daemon'.workers = daemon.workers
  state : daemon'.updater.state = daemon.updater.state
  offer : daemon'.offer = daemon.offer

namespace Daemon

section Cancel

variable (daemon)

@[simp] theorem resetCancellable_updater : daemon.resetCancellable.updater = daemon.updater := by
  unfold resetCancellable
  split <;> rfl

@[simp] theorem resetCancellable_workers : daemon.resetCancellable.workers = daemon.workers := by
  unfold resetCancellable
  split <;> rfl

@[simp] theorem resetCancellable_offer : daemon.resetCancellable.offer = daemon.offer := by
  unfold resetCancellable
  split <;> rfl

@[simp] theorem resetCancellable_answers : daemon.resetCancellable.answers = daemon.answers := by
  unfold resetCancellable
  split <;> rfl

@[simp] theorem resetCancellable_deployments :
    daemon.resetCancellable.deployments = daemon.deployments := by
  unfold resetCancellable
  split <;> rfl

/-- Cancel changes neither the state nor the workers. -/
theorem agrees_cancel : daemon.Agrees daemon.cancelCancellable.resetCancellable.complete where
  workers := daemon.cancelCancellable.resetCancellable_workers
  state := congrArg EosUpdater.state daemon.cancelCancellable.resetCancellable_updater
  offer := daemon.cancelCancellable.resetCancellable_offer

/-- Progress changes neither the state nor the workers. -/
theorem agrees_updateProgress (bytes : ℕ) : daemon.Agrees (daemon.updateProgress bytes) := by
  unfold updateProgress
  split <;> constructor <;> rfl

end Cancel

section StartWorker

variable (daemon) (work : Work)

theorem startWorker_workers : (daemon.startWorker work).workers =
    daemon.workers ++ [⟨daemon.resetCancellable.data.cancellable, work⟩] := by
  simp [startWorker, complete]

theorem startWorker_state : (daemon.startWorker work).updater.state = work.kind.state := rfl

theorem startWorker_updateId :
    (daemon.startWorker work).updater.updateId = daemon.updater.updateId := by
  simp [startWorker, complete]

theorem startWorker_updateRefspec :
    (daemon.startWorker work).updater.updateRefspec = daemon.updater.updateRefspec := by
  simp [startWorker, complete]

theorem startWorker_offer : (daemon.startWorker work).offer = daemon.offer :=
  daemon.resetCancellable_offer

theorem startWorker_deployments :
    (daemon.startWorker work).deployments = daemon.deployments :=
  daemon.resetCancellable_deployments

end StartWorker

/-- A method is refused, or the state is one it is allowed in. -/
private theorem whenIn_cases (daemon : Daemon ρ) (allowed : List EosUpdaterState)
    (method hint : String) (accept : Daemon ρ) :
    (∃ e, daemon.whenIn allowed method hint accept = daemon.returnError e) ∨
      daemon.updater.state ∈ allowed ∧ daemon.whenIn allowed method hint accept = accept := by
  unfold whenIn
  split
  · next hallowed => exact Or.inr ⟨hallowed, rfl⟩
  · exact Or.inl ⟨_, rfl⟩

/-- **Methods.** A call returns an error, or it cancels the worker in flight, or it starts a worker
on what the properties say, in a state that allows it. -/
theorem call_inversion (daemon : Daemon ρ) (method : Method) :
    (∃ e, daemon.call method = daemon.returnError e) ∨
      (method = .cancel ∧ daemon.updater.state ∈ [.polling, .fetching, .applyingUpdate] ∧
        daemon.call method = daemon.cancelCancellable.resetCancellable.complete) ∨
      method ≠ .cancel ∧ ∃ work : Work, daemon.updater.state ∈ work.kind.startsIn ∧
        work.Captures daemon.updater ∧ daemon.call method = daemon.startWorker work := by
  have hstart : ∀ (work : Work) name, work.Captures daemon.updater →
      (∃ e, daemon.whenIn work.kind.startsIn name "" (daemon.startWorker work) =
          daemon.returnError e) ∨
        ∃ work' : Work, daemon.updater.state ∈ work'.kind.startsIn ∧
          work'.Captures daemon.updater ∧
          daemon.whenIn work.kind.startsIn name "" (daemon.startWorker work) =
            daemon.startWorker work' := fun work name hcaptures =>
    (daemon.whenIn_cases work.kind.startsIn name "" (daemon.startWorker work)).imp_right
      fun h => ⟨work, h.1, hcaptures, h.2⟩
  unfold call
  split
  -- four methods that start a worker, and one that only replaces the cancellable
  · cases method with
    | poll =>
        exact (hstart .metadataFetch "Poll" trivial).imp_right fun h => Or.inr ⟨nofun, h⟩
    | pollVolume path =>
        exact (hstart (.pollVolume path) "PollVolume" trivial).imp_right
          fun h => Or.inr ⟨nofun, h⟩
    | fetch =>
        exact (hstart (.contentFetch _) "Fetch" ⟨rfl, rfl⟩).imp_right fun h => Or.inr ⟨nofun, h⟩
    | fetchFull options =>
        exact (hstart (.contentFetch _) "Fetch" ⟨rfl, rfl⟩).imp_right fun h => Or.inr ⟨nofun, h⟩
    | apply =>
        exact (hstart (.apply _) "Apply" ⟨rfl, rfl⟩).imp_right fun h => Or.inr ⟨nofun, h⟩
    | cancel =>
        exact (daemon.whenIn_cases _ "Cancel" " (nothing to be cancelled)" _).imp_right
          fun h => Or.inl ⟨rfl, h⟩
  -- on a live system every method returns an error
  · exact Or.inl ⟨liveBootError, rfl⟩

/-- A call starts a worker, on what the properties say and in a state that allows it, or leaves
workers, state and offer alone. -/
theorem call_cases (daemon : Daemon ρ) (method : Method) :
    daemon.Agrees (daemon.call method) ∧ (daemon.call method).deployments = daemon.deployments ∨
      ∃ work : Work, daemon.updater.state ∈ work.kind.startsIn ∧ work.Captures daemon.updater ∧
        daemon.call method = daemon.startWorker work := by
  rcases daemon.call_inversion method with ⟨e, h⟩ | ⟨-, -, h⟩ | ⟨-, h⟩
  · rw [h]
    exact Or.inl ⟨⟨rfl, rfl, rfl⟩, rfl⟩
  · rw [h]
    exact Or.inl ⟨daemon.agrees_cancel,
      daemon.cancelCancellable.resetCancellable_deployments⟩
  · exact Or.inr h

/-- A call that returns an error changes nothing else. -/
theorem call_of_error {method : Method} {e : GError}
    (h : (daemon.call method).answers = .error e :: daemon.answers) :
    daemon.call method = daemon.returnError e := by
  have hwhenIn : ∀ allowed method hint (accept : Daemon ρ),
      accept.answers = .ok () :: daemon.answers →
      (daemon.whenIn allowed method hint accept).answers = .error e :: daemon.answers →
      daemon.whenIn allowed method hint accept = daemon.returnError e := by
    intro allowed method hint accept haccept hanswers
    unfold whenIn at hanswers ⊢
    split at hanswers
    -- a method that is accepted answers without an error
    · rw [haccept] at hanswers
      cases hanswers
    · obtain ⟨rfl⟩ := Except.error.inj (List.cons.inj hanswers).1
      rename_i hrefused
      rw [if_neg hrefused]
  have hstart : ∀ work : Work, (daemon.startWorker work).answers = .ok () :: daemon.answers :=
    fun work => congrArg (List.cons _) daemon.resetCancellable_answers
  unfold call at h ⊢
  split at h
  · next hinstalled =>
    rw [if_pos hinstalled]
    cases method with
    | poll => exact hwhenIn _ _ _ _ (hstart _) h
    | pollVolume path => exact hwhenIn _ _ _ _ (hstart _) h
    | fetch => exact hwhenIn _ _ _ _ (hstart _) h
    | fetchFull options => exact hwhenIn _ _ _ _ (hstart _) h
    | apply => exact hwhenIn _ _ _ _ (hstart _) h
    | cancel =>
        exact hwhenIn _ _ _ _
          (congrArg (List.cons _) daemon.cancelCancellable.resetCancellable_answers) h
  · next hlive =>
    rw [if_neg hlive]
    obtain ⟨rfl⟩ := Except.error.inj (List.cons.inj h).1
    rfl

/-! ### What a callback does -/

/-- The sizes of an update change none of its other properties. -/
theorem offerSizes_frame (updater : EosUpdater) (objects : CommitObjects) :
    (updater.offerSizes objects).1.state = updater.state ∧
      (updater.offerSizes objects).1.updateId = updater.updateId ∧
      (updater.offerSizes objects).1.updateRefspec = updater.updateRefspec ∧
      (updater.offerSizes objects).1.originalRefspec = updater.originalRefspec := by
  unfold EosUpdater.offerSizes
  cases getCommitSizes objects with
  | ok sizes => exact ⟨rfl, rfl, rfl, rfl⟩
  | error e =>
      dsimp only
      split <;> exact ⟨rfl, rfl, rfl, rfl⟩

@[simp] theorem setErrorIfAny_workers (error : Option GError) :
    (daemon.setErrorIfAny error).workers = daemon.workers := by
  cases error <;> rfl

@[simp] theorem setErrorIfAny_offer (error : Option GError) :
    (daemon.setErrorIfAny error).offer = daemon.offer := by
  cases error <;> rfl

/-- Only an error changes the state. -/
theorem setErrorIfAny_state (error : Option GError) :
    (daemon.setErrorIfAny error).updater.state = daemon.updater.state ∨
      (daemon.setErrorIfAny error).updater.state = .error := by
  cases error with
  | none => exact Or.inl rfl
  | some e => exact Or.inr rfl

/-- The callback of a poll makes the offer of an update that was found. -/
theorem metadataFetchFinished_offer (daemon : Daemon ρ) {task : Task}
    {result : Except GError (Option (EosUpdateInfo ρ))} (objects : CommitObjects)
    {info : EosUpdateInfo ρ} (hinfo : daemon.propagate task result = .ok (some info)) :
    (daemon.metadataFetchFinished task result objects).offer = info.offer ∧
      (daemon.metadataFetchFinished task result objects).updater.state ∈
        [EosUpdaterState.updateAvailable, .error] := by
  unfold metadataFetchFinished
  rw [hinfo]
  obtain ⟨hstate, hid, hrefspec, horiginal⟩ :=
    offerSizes_frame (daemon.updater.offerUpdate info) objects
  dsimp only
  constructor
  · rw [setErrorIfAny_offer]
    simp only [offer, hid, hrefspec, horiginal]
    rfl
  · rw [List.mem_cons, List.mem_singleton]
    exact (setErrorIfAny_state _).imp_left fun h => h.trans hstate

/-- The callback of a poll makes the offer of an update that was found, and otherwise announces that
there is none or an error. -/
theorem metadataFetchFinished_cases (daemon : Daemon ρ) (task : Task)
    (result : Except GError (Option (EosUpdateInfo ρ))) (objects : CommitObjects) :
    (daemon.metadataFetchFinished task result objects).workers = daemon.workers ∧
      ((∃ info, daemon.propagate task result = .ok (some info) ∧
          (daemon.metadataFetchFinished task result objects).offer = info.offer ∧
          ((daemon.metadataFetchFinished task result objects).updater.state = .updateAvailable ∨
            (daemon.metadataFetchFinished task result objects).updater.state = .error)) ∨
        (daemon.metadataFetchFinished task result objects).updater.state = .ready ∨
        (daemon.metadataFetchFinished task result objects).updater.state = .error) := by
  cases hresult : daemon.propagate task result with
  | error e =>
      rw [metadataFetchFinished, hresult]
      exact ⟨rfl, Or.inr (Or.inr rfl)⟩
  | ok found =>
      cases found with
      | none =>
          rw [metadataFetchFinished, hresult]
          exact ⟨rfl, Or.inr (Or.inl rfl)⟩
      | some info =>
          obtain ⟨hoffer, hstate⟩ := metadataFetchFinished_offer daemon objects hresult
          refine ⟨?_, Or.inl ⟨info, rfl, hoffer, by simpa using hstate⟩⟩
          rw [metadataFetchFinished, hresult]
          exact setErrorIfAny_workers _

/-- The callback of a fetch keeps the offer, and announces that it is ready or an error. -/
theorem contentFetchFinished_cases (daemon : Daemon ρ) (task : Task)
    (result : Except GError Unit) :
    (daemon.contentFetchFinished task result).workers = daemon.workers ∧
      (daemon.contentFetchFinished task result).offer = daemon.offer ∧
      ((daemon.contentFetchFinished task result).updater.state = .updateReady ∨
        (daemon.contentFetchFinished task result).updater.state = .error) := by
  unfold contentFetchFinished
  cases daemon.propagate task result with
  | error e => exact ⟨rfl, rfl, Or.inr rfl⟩
  | ok _ => exact ⟨rfl, rfl, Or.inl rfl⟩

/-- The callback of an apply announces that the update has been applied or an error. -/
theorem applyFinished_cases (daemon : Daemon ρ) (task : Task) (result : Except GError Unit) :
    (daemon.applyFinished task result).workers = daemon.workers ∧
      ((daemon.applyFinished task result).updater.state = .updateApplied ∨
        (daemon.applyFinished task result).updater.state = .error) := by
  unfold applyFinished
  cases daemon.propagate task result with
  | error e => exact ⟨rfl, Or.inr rfl⟩
  | ok _ => exact ⟨rfl, Or.inl rfl⟩

end Daemon

/-! ### The history of a run -/

/-- What a poll found, in the step in which its callback runs. -/
def foundBy (τ : Transition (Daemon ρ) (Event ρ)) : Option (EosUpdateInfo ρ) :=
  match τ.event with
  | .finished worker (.metadata result _) =>
      (τ.before.workers[worker]?).bind fun task =>
        match τ.before.propagate task result with
        | .ok info => info
        | .error _ => none
  | _ => none

/-- What a successful fetch was asked for, in the step in which its callback runs. -/
def fetchedBy (τ : Transition (Daemon ρ) (Event ρ)) : Option FetchData :=
  match τ.event with
  | .finished worker _ =>
      match τ.before.workers[worker]? with
      | some ⟨_, .contentFetch data⟩ =>
          if τ.after.updater.state = .updateReady then some data else none
      | _ => none
  | _ => none

/-- The lock: no worker is in flight and the state is none that belongs to a worker, or there is one
worker and the state is the one that belongs to it. -/
def Daemon.Exclusive (daemon : Daemon ρ) : Prop :=
  (daemon.workers = [] ∧ ∀ kind : WorkerKind, daemon.updater.state ≠ kind.state) ∨
    ∃ task, daemon.workers = [task] ∧ daemon.updater.state = task.work.kind.state

/-- What holds after every run. -/
structure Consistent (history : History (Daemon ρ) (Event ρ)) (daemon : Daemon ρ) : Prop where
  exclusive : daemon.Exclusive
  captures : ∀ task ∈ daemon.workers, task.work.Captures daemon.updater
  offered : daemon.updater.state ∈ offering →
    ∃ info, latest foundBy history = some info ∧ daemon.offer = info.offer
  fetched : daemon.updater.state = .updateReady ∨ daemon.updater.state = .applyingUpdate →
    ∃ data, latest fetchedBy history = some data ∧ data.updateId = daemon.updater.updateId ∧
      data.updateRefspec = daemon.updater.updateRefspec

variable {history : History (Daemon ρ) (Event ρ)} {event : Event ρ}

theorem WorkerKind.state_injective : Function.Injective WorkerKind.state := by
  intro a b
  cases a <;> cases b <;> simp [WorkerKind.state]

/-- At rest there is no worker. -/
theorem Daemon.Exclusive.idle (h : daemon.Exclusive)
    (hstate : ∀ kind : WorkerKind, daemon.updater.state ≠ kind.state) : daemon.workers = [] := by
  rcases h with ⟨hworkers, -⟩ | ⟨task, -, hbusy⟩
  · exact hworkers
  · exact absurd hbusy (hstate _)

/-- A worker that is in flight is the only one. -/
theorem Daemon.Exclusive.eq_singleton (h : daemon.Exclusive) {worker : ℕ} {task : Task}
    (htask : daemon.workers[worker]? = some task) :
    daemon.workers = [task] ∧ worker = 0 ∧ daemon.updater.state = task.work.kind.state := by
  rcases h with ⟨hworkers, -⟩ | ⟨task', hworkers, hstate⟩
  · simp [hworkers] at htask
  · rw [hworkers, List.getElem?_singleton] at htask
    split at htask
    · next hzero =>
      obtain rfl := Option.some_inj.1 htask
      exact ⟨hworkers, hzero, hstate⟩
    · cases htask

theorem Daemon.Exclusive.length_le (h : daemon.Exclusive) : daemon.workers.length ≤ 1 := by
  rcases h with ⟨hworkers, -⟩ | ⟨task, hworkers, -⟩ <;> simp [hworkers]

/-- The state says whether a worker of each kind is in flight. -/
theorem Daemon.Exclusive.state_iff (h : daemon.Exclusive) (kind : WorkerKind) :
    daemon.updater.state = kind.state ↔ ∃ task ∈ daemon.workers, task.work.kind = kind := by
  rcases h with ⟨hworkers, hstate⟩ | ⟨task, hworkers, hstate⟩
  · simp [hworkers, hstate kind]
  · simp [hworkers, hstate, WorkerKind.state_injective.eq_iff]

/-- No method starts a worker while another one is in flight. -/
theorem WorkerKind.state_notMem_startsIn (a b : WorkerKind) : a.state ∉ b.startsIn := by
  cases a <;> cases b <;> simp [WorkerKind.state, WorkerKind.startsIn]

/-- The daemon starts with or without an error. -/
theorem Daemon.Started.state (h : daemon.Started) :
    daemon.workers = [] ∧
      (daemon.updater.state = .ready ∨ daemon.updater.state = .error) := by
  obtain ⟨bootedChecksum, installed, rfl⟩ := h
  refine ⟨rfl, ?_⟩
  cases installed with
  | false => exact Or.inr rfl
  | true =>
      cases bootedChecksum with
      | ok sum => exact Or.inl rfl
      | error e =>
          right
          by_cases hcode : e.code = .ioNotFound ∨ e.code = .ioFailed <;>
            simp [onBusAcquired, hcode]

/-- In a state without worker that has nothing to do with an update, nothing is to be shown about
the history. -/
private theorem consistent_of_idle (hworkers : daemon.workers = [])
    (hstate : daemon.updater.state = .ready ∨ daemon.updater.state = .error ∨
      daemon.updater.state = .updateApplied) : Consistent history daemon := by
  have hidle : ∀ kind : WorkerKind, daemon.updater.state ≠ kind.state := fun kind => by
    rcases hstate with h | h | h <;> rw [h] <;> cases kind <;> simp [WorkerKind.state]
  refine ⟨Or.inl ⟨hworkers, hidle⟩, by simp [hworkers], fun h => ?_, fun h => ?_⟩
  · rcases hstate with h' | h' | h' <;> rw [h'] at h <;> simp [offering] at h
  · rcases hstate with h' | h' | h' <;> rw [h'] at h <;> simp at h

/-- An event that leaves workers, state and offer alone, and ends neither a poll nor a fetch. -/
private theorem Consistent.of_agrees (h : Consistent history daemon)
    (hagrees : daemon.Agrees daemon') (hfound : foundBy ⟨daemon, event, daemon'⟩ = none)
    (hfetched : fetchedBy ⟨daemon, event, daemon'⟩ = none) :
    Consistent (⟨daemon, event, daemon'⟩ :: history) daemon' := by
  obtain ⟨hworkers, hstate, hoffer⟩ := hagrees
  have hid : daemon'.updater.updateId = daemon.updater.updateId := congrArg Offer.updateId hoffer
  have hrefspec : daemon'.updater.updateRefspec = daemon.updater.updateRefspec :=
    congrArg Offer.updateRefspec hoffer
  refine ⟨?_, ?_, ?_, ?_⟩
  · unfold Daemon.Exclusive
    rw [hworkers, hstate]
    exact h.exclusive
  · intro task htask
    have := h.captures task (hworkers ▸ htask)
    cases hwork : task.work <;> rw [hwork] at this <;> simp_all [Work.Captures]
  · rw [hstate, hoffer, latest_cons_of_none hfound]
    exact h.offered
  · rw [hstate, hid, hrefspec, latest_cons_of_none hfetched]
    exact h.fetched

/-- A method that starts a worker. -/
private theorem Consistent.startWorker (h : Consistent history daemon) {work : Work}
    (hstate : daemon.updater.state ∈ work.kind.startsIn) (hcaptures : work.Captures daemon.updater)
    {method : Method} :
    Consistent (⟨daemon, .call method, daemon.startWorker work⟩ :: history)
      (daemon.startWorker work) := by
  have hworkers : daemon.workers = [] := h.exclusive.idle fun kind hkind =>
    kind.state_notMem_startsIn _ (hkind ▸ hstate)
  have hnew := daemon.startWorker_workers work
  rw [hworkers, List.nil_append] at hnew
  refine ⟨Or.inr ⟨_, hnew, rfl⟩, ?_, fun hoffering => ?_, fun hready => ?_⟩
  · intro task htask
    rw [hnew, List.mem_singleton] at htask
    obtain rfl := htask
    cases work <;>
      simp_all [Work.Captures, Daemon.startWorker_updateId, Daemon.startWorker_updateRefspec]
  · -- a fetch and an apply start where the update is offered already, and a poll offers none
    rw [Daemon.startWorker_state] at hoffering
    rw [latest_cons_of_none rfl, Daemon.startWorker_offer]
    refine h.offered ?_
    cases hkind : work.kind <;>
      simp_all [offering, WorkerKind.state, WorkerKind.startsIn]
  · -- only an apply starts in a state that goes back to a fetch
    rw [Daemon.startWorker_state] at hready
    rw [latest_cons_of_none rfl, Daemon.startWorker_updateId, Daemon.startWorker_updateRefspec]
    refine h.fetched ?_
    cases hkind : work.kind <;> simp_all [WorkerKind.state, WorkerKind.startsIn]

/-- The worker that returns was the only one, and its callback is the one of its kind. -/
theorem Daemon.Exclusive.finished_inversion (h : daemon.Exclusive) {worker : ℕ}
    {outcome : Outcome ρ} (hstep : daemon.step (.finished worker outcome) = some daemon') :
    ∃ task, daemon.workers = [task] ∧ worker = 0 ∧
      daemon.updater.state = task.work.kind.state ∧
      ((∃ result objects, outcome = .metadata result objects ∧ task.work.kind = .poll ∧
          daemon' = { daemon with workers := [] }.metadataFetchFinished task result objects) ∨
        (∃ data result, outcome = .boolean result ∧ task.work = .contentFetch data ∧
          daemon' = { daemon with workers := [] }.contentFetchFinished task result) ∨
        ∃ data result, outcome = .boolean result ∧ task.work = .apply data ∧
          daemon' = { daemon with workers := [] }.applyFinished task result) := by
  simp only [Daemon.step, Option.bind_eq_some_iff] at hstep
  obtain ⟨⟨cancellable, work⟩, htask, hcallback⟩ := hstep
  obtain ⟨hworkers, rfl, hstate⟩ := h.eq_singleton htask
  rw [hworkers, List.eraseIdx_cons_zero] at hcallback
  refine ⟨_, hworkers, rfl, hstate, ?_⟩
  -- a worker returns what its kind of work does, so that the callback is determined
  cases outcome with
  | metadata result objects =>
      cases work with
      | metadataFetch =>
          exact Or.inl ⟨result, objects, rfl, rfl, (Option.some_inj.1 hcallback).symm⟩
      | pollVolume path =>
          exact Or.inl ⟨result, objects, rfl, rfl, (Option.some_inj.1 hcallback).symm⟩
      | contentFetch data => cases hcallback
      | apply data => cases hcallback
  | boolean result =>
      cases work with
      | metadataFetch => cases hcallback
      | pollVolume path => cases hcallback
      | contentFetch data =>
          exact Or.inr (Or.inl ⟨data, result, rfl, rfl, (Option.some_inj.1 hcallback).symm⟩)
      | apply data =>
          exact Or.inr (Or.inr ⟨data, result, rfl, rfl, (Option.some_inj.1 hcallback).symm⟩)

/-- **Callbacks.** A poll that has found an update offers it, a fetch that has succeeded keeps the
offer, and nothing else leads to a state that has to do with an update. -/
private theorem finished_cases (h : daemon.Exclusive) {worker : ℕ} {outcome : Outcome ρ}
    (hstep : daemon.step (.finished worker outcome) = some daemon') :
    ∃ task, daemon.workers = [task] ∧ daemon.updater.state = task.work.kind.state ∧
      daemon'.workers = [] ∧
      ((∃ info, foundBy ⟨daemon, .finished worker outcome, daemon'⟩ = some info ∧
          daemon'.offer = info.offer ∧ daemon'.updater.state = .updateAvailable) ∨
        (∃ data, task.work = .contentFetch data ∧
          foundBy ⟨daemon, .finished worker outcome, daemon'⟩ = none ∧
          fetchedBy ⟨daemon, .finished worker outcome, daemon'⟩ = some data ∧
          daemon'.offer = daemon.offer ∧ daemon'.updater.state = .updateReady) ∨
        daemon'.updater.state = .ready ∨ daemon'.updater.state = .error ∨
          daemon'.updater.state = .updateApplied) := by
  obtain ⟨task, hworkers, rfl, hstate, hcases⟩ := h.finished_inversion hstep
  refine ⟨task, hworkers, hstate, ?_⟩
  rcases hcases with ⟨result, objects, rfl, -, rfl⟩ | ⟨data, result, rfl, hwork, rfl⟩ |
    ⟨data, result, rfl, hwork, rfl⟩
  · obtain ⟨hnone, ⟨info, hinfo, hoffer, hstate' | hstate'⟩ | hstate'⟩ :=
      Daemon.metadataFetchFinished_cases { daemon with workers := [] } task result objects
    -- an update whose sizes can be read, one whose sizes cannot, and none
    · have hinfo : daemon.propagate task result = .ok (some info) := hinfo
      exact ⟨hnone, Or.inl ⟨info, by simp [foundBy, hworkers, hinfo], hoffer, hstate'⟩⟩
    · exact ⟨hnone, Or.inr (Or.inr (Or.inr (Or.inl hstate')))⟩
    · exact ⟨hnone, Or.inr (Or.inr (hstate'.imp_right Or.inl))⟩
  · obtain ⟨hnone, hoffer, hstate' | hstate'⟩ :=
      Daemon.contentFetchFinished_cases { daemon with workers := [] } task result
    · refine ⟨hnone, Or.inr (Or.inl ⟨data, hwork, rfl, ?_, hoffer, hstate'⟩)⟩
      obtain ⟨cancellable, work⟩ := task
      obtain rfl : work = .contentFetch data := hwork
      simp [fetchedBy, hworkers, hstate']
    · exact ⟨hnone, Or.inr (Or.inr (Or.inr (Or.inl hstate')))⟩
  · have hcases := Daemon.applyFinished_cases { daemon with workers := [] } task result
    exact ⟨hcases.1, Or.inr (Or.inr (Or.inr hcases.2.symm))⟩

/-- A worker that returns. -/
private theorem Consistent.finished (h : Consistent history daemon) {worker : ℕ}
    {outcome : Outcome ρ} (hstep : daemon.step (.finished worker outcome) = some daemon') :
    Consistent (⟨daemon, .finished worker outcome, daemon'⟩ :: history) daemon' := by
  obtain ⟨task, hworkers, hstate, hnone, hcases⟩ := finished_cases h.exclusive hstep
  rcases hcases with ⟨info, hfound, hoffer, hstate'⟩ |
    ⟨data, hwork, hfound, hfetched, hoffer, hstate'⟩ | hidle
  -- a poll that has found an update starts a new offer
  · refine ⟨Or.inl ⟨hnone, fun kind => ?_⟩, by simp [hnone], fun _ =>
      ⟨info, latest_cons_of_some hfound, hoffer⟩, fun hready => ?_⟩
    · rw [hstate']
      cases kind <;> simp [WorkerKind.state]
    · rw [hstate'] at hready
      simp at hready
  -- a fetch that has succeeded was asked for what the properties said, and nothing changed them
  · have hcaptures := h.captures task (by simp [hworkers])
    rw [hwork] at hcaptures
    refine ⟨Or.inl ⟨hnone, fun kind => ?_⟩, by simp [hnone], fun _ => ?_, fun _ => ?_⟩
    · rw [hstate']
      cases kind <;> simp [WorkerKind.state]
    · rw [latest_cons_of_none hfound, hoffer]
      refine h.offered ?_
      rw [hstate, hwork]
      simp [offering, WorkerKind.state, Work.kind]
    · exact ⟨data, latest_cons_of_some hfetched,
        hcaptures.1.trans (congrArg Offer.updateId hoffer).symm,
        hcaptures.2.trans (congrArg Offer.updateRefspec hoffer).symm⟩
  · exact consistent_of_idle hnone hidle

/-- **The step.** -/
theorem Consistent.step (h : Consistent history daemon)
    (hstep : daemon.step event = some daemon') :
    Consistent (⟨daemon, event, daemon'⟩ :: history) daemon' := by
  cases event with
  | call method =>
      obtain rfl := Option.some_inj.1 hstep
      rcases daemon.call_cases method with ⟨hagrees, -⟩ | ⟨work, hstate, hcaptures, heq⟩
      · exact h.of_agrees hagrees rfl rfl
      · rw [heq]
        exact h.startWorker hstate hcaptures
  | finished worker outcome => exact h.finished hstep
  | progress bytes =>
      obtain rfl := Option.some_inj.1 hstep
      exact h.of_agrees (daemon.agrees_updateProgress bytes) rfl rfl
  | deploy worker =>
      simp only [Daemon.step] at hstep
      split at hstep
      · obtain rfl := Option.some_inj.1 hstep
        exact h.of_agrees ⟨rfl, rfl, rfl⟩ rfl rfl
      · cases hstep

/-- **Runs.** -/
theorem consistent_of_run (hrun : Run Daemon.Started Daemon.step history daemon) :
    Consistent history daemon :=
  hrun.invariant
    (fun _ h => consistent_of_idle h.state.1 (h.state.2.imp_right Or.inl))
    fun _ _ _ _ h hstep => h.step hstep

/-! ### Deployments -/

/-- No callback deploys anything. -/
theorem Daemon.callback_deployments (daemon : Daemon ρ) {task : Task} {outcome : Outcome ρ}
    (h : daemon.callback task outcome = some daemon') :
    daemon'.deployments = daemon.deployments := by
  -- a poll writes the properties of the updater only, whatever it has found
  have hmetadata : ∀ result objects,
      (daemon.metadataFetchFinished task result objects).deployments = daemon.deployments := by
    intro result objects
    unfold metadataFetchFinished
    cases daemon.propagate task result with
    | error e => rfl
    | ok found =>
        cases found with
        | none => rfl
        | some info =>
            dsimp only
            generalize (daemon.updater.offerUpdate info).offerSizes objects = sized
            obtain ⟨updater, error⟩ := sized
            cases error <;> rfl
  unfold callback at h
  split at h
  · exact Option.some_inj.1 h ▸ hmetadata _ _
  · exact Option.some_inj.1 h ▸ hmetadata _ _
  · obtain rfl := Option.some_inj.1 h
    unfold contentFetchFinished
    split <;> rfl
  · obtain rfl := Option.some_inj.1 h
    unfold applyFinished
    split <;> rfl
  · cases h

/-- A deployment is what a worker in flight was asked to apply. -/
theorem deployed_of_step {deployment : Deployment} (hstep : daemon.step event = some daemon')
    (hdeployed : daemon'.deployments = deployment :: daemon.deployments) :
    ∃ task ∈ daemon.workers, ∃ data, task.work = .apply data ∧
      deployment = ⟨data.updateId, data.updateRefspec⟩ := by
  -- whatever does not deploy leaves the deployments as they are
  have hother : daemon'.deployments ≠ daemon.deployments := by
    rw [hdeployed]
    exact List.cons_ne_self _ _
  cases event with
  | call method =>
      refine absurd ?_ hother
      obtain rfl := Option.some_inj.1 hstep
      rcases daemon.call_cases method with ⟨-, h⟩ | ⟨work, -, -, h⟩
      · exact h
      · rw [h]
        exact daemon.startWorker_deployments work
  | finished worker outcome =>
      refine absurd ?_ hother
      simp only [Daemon.step, Option.bind_eq_some_iff] at hstep
      obtain ⟨task, -, hcallback⟩ := hstep
      exact (Daemon.callback_deployments _ hcallback).trans rfl
  | progress bytes =>
      refine absurd ?_ hother
      obtain rfl := Option.some_inj.1 hstep
      unfold Daemon.updateProgress
      split <;> rfl
  | deploy worker =>
      simp only [Daemon.step] at hstep
      split at hstep
      · next cancellable data hworker =>
        obtain rfl := Option.some_inj.1 hstep
        exact ⟨_, List.mem_of_getElem? hworker, data, rfl, (List.cons.inj hdeployed).1.symm⟩
      · cases hstep

/-- A worker that applies an update was asked for the one that was fetched last. -/
theorem Consistent.applied (h : Consistent history daemon) {task : Task}
    (htask : task ∈ daemon.workers) {data : ApplyData} (hwork : task.work = .apply data) :
    ∃ fetched, latest fetchedBy history = some fetched ∧ data.updateId = fetched.updateId ∧
      data.updateRefspec = fetched.updateRefspec := by
  have hcaptures := h.captures task htask
  rw [hwork] at hcaptures
  rcases h.exclusive with ⟨hnone, -⟩ | ⟨task', hworkers, hstate⟩
  · simp [hnone] at htask
  -- as the worker is the only one, the state is `ApplyingUpdate`, which goes back to a fetch
  · rw [hworkers, List.mem_singleton] at htask
    rw [← htask, hwork] at hstate
    obtain ⟨fetched, hfetched, hid, hrefspec⟩ := h.fetched (Or.inr hstate)
    exact ⟨fetched, hfetched, hcaptures.1.trans hid.symm, hcaptures.2.trans hrefspec.symm⟩

/-- **One worker, one update.** After every run at most one worker is in flight, and the state is
the one that belongs to a kind of worker exactly if one of that kind is. Whatever was deployed in
the run is the update that the last successful fetch had been asked for. Wherever an update is
offered, all that belongs to the offer comes from the last poll that found one. -/
theorem one_worker_one_update (hrun : Run Daemon.Started Daemon.step history daemon) :
    daemon.workers.length ≤ 1 ∧
      (∀ kind : WorkerKind, daemon.updater.state = kind.state ↔
        ∃ task ∈ daemon.workers, task.work.kind = kind) ∧
      (∀ recent τ past deployment, history = recent ++ τ :: past →
        τ.after.deployments = deployment :: τ.before.deployments →
        ∃ data, latest fetchedBy past = some data ∧
          deployment = ⟨data.updateId, data.updateRefspec⟩) ∧
      (daemon.updater.state ∈ offering →
        ∃ info, latest foundBy history = some info ∧ daemon.offer = info.offer) := by
  have hconsistent := consistent_of_run hrun
  refine ⟨hconsistent.exclusive.length_le, hconsistent.exclusive.state_iff, ?_,
    hconsistent.offered⟩
  rintro recent τ past deployment rfl hdeployed
  -- the invariant at the moment of the deployment
  obtain ⟨hbefore, hstep⟩ := hrun.transition
  obtain ⟨task, htask, data, hwork, rfl⟩ := deployed_of_step hstep hdeployed
  obtain ⟨fetched, hfetched, hid, hrefspec⟩ :=
    (consistent_of_run hbefore).applied htask hwork
  exact ⟨fetched, hfetched, by rw [hid, hrefspec]⟩

/-- A poll that is cancelled twice, and then two polls with a fetch each, the second one called in
`UpdateReady`. Some calls come at the wrong time. -/
def threePolls : List (Event Unit) :=
  let info (name : String) : EosUpdateInfo Unit :=
    { checksum := name, commit := ⟨"", ""⟩, newRefspec := "eos:" ++ name, oldRefspec := "eos:os"
      version := none, urls := none, offlineResultsOnly := false, isUserVisible := true
      releaseNotesUri := none, results := some [()] }
  let found (name : String) : Event Unit :=
    .finished 0 (.metadata (.ok (some (info name))) ⟨.ok (), .ok [⟨10, 20, .ok false⟩]⟩)
  [.call .poll, .call .cancel, .call .cancel, found "first", .call .fetch, .call .poll,
    found "second", .call .fetch, .progress 5, .finished 0 (.boolean (.ok ())), .call .poll,
    .call .apply, found "third", .call (.fetchFull [("force", .boolean true)]),
    .finished 0 (.boolean (.ok ())), .call .apply, .deploy 0]

/-- In this run the update of the last poll is deployed. -/
theorem threePolls_apply_last :
    ∃ history daemon,
      exec Daemon.step [] (Daemon.onBusAcquired (.ok "booted") true) threePolls =
        some (history, daemon) ∧
      daemon.updater.state = .applyingUpdate ∧
      daemon.deployments = [⟨some "third", some "eos:third"⟩] ∧
      daemon.workers.length ≤ 1 ∧
      (∀ kind : WorkerKind, daemon.updater.state = kind.state ↔
        ∃ task ∈ daemon.workers, task.work.kind = kind) ∧
      (∀ recent τ past deployment, history = recent ++ τ :: past →
        τ.after.deployments = deployment :: τ.before.deployments →
        ∃ data, latest fetchedBy past = some data ∧
          deployment = ⟨data.updateId, data.updateRefspec⟩) ∧
      (daemon.updater.state ∈ offering →
        ∃ info, latest foundBy history = some info ∧ daemon.offer = info.offer) := by
  have hfinal : (exec Daemon.step [] (Daemon.onBusAcquired (.ok "booted") true) threePolls).map
      (fun run => (run.2.updater.state, run.2.deployments)) =
        some (.applyingUpdate, [⟨some "third", some "eos:third"⟩]) := by decide +kernel
  obtain ⟨⟨history, daemon⟩, hexec, hdaemon⟩ := Option.map_eq_some_iff.1 hfinal
  obtain ⟨hstate, hdeployments⟩ := Prod.mk.inj hdaemon
  exact ⟨history, daemon, hexec, hstate, hdeployments,
    one_worker_one_update (Run.of_exec (.start ⟨_, _, rfl⟩) hexec)⟩

end Updater
