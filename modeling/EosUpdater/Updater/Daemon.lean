import EosUpdater.Updater.Object
import Mathlib.Algebra.Ring.Nat

/-!
# The daemon

The main thread of `eos-updater`: the handlers of the D-Bus methods, `handle_cancel`, and the
callbacks that run once a worker has returned. The handlers share the properties of the object and
`EosUpdaterData`, and no lock protects these: what keeps the workers apart is the state alone.

A worker is a `GTask` that holds the cancellable it was started with. What workers do is not
modelled here: a worker can return any result at any time, and one that applies an update can deploy
it at any time while it is in flight. `Daemon.step` processes one event on the main thread.

The results of repo finders have a type `ρ` of libostree. Logging and metrics are left out, and so
is `g_task_is_valid`, which is true of the tasks that the daemon starts.
-/

namespace Updater

open Euu

variable {ρ : Type}

/-! ### Polls, fetches and applies -/

/-- The parts of a commit that the daemon shows. -/
structure OstreeCommit where
  subject : String
  body : String
deriving DecidableEq, Repr

/-- `EosUpdateInfo`: what a poll found. -/
structure EosUpdateInfo (ρ : Type) where
  checksum : String
  commit : OstreeCommit
  newRefspec : String
  oldRefspec : String
  version : Option String
  urls : Option (List String)
  offlineResultsOnly : Bool
  isUserVisible : Bool
  releaseNotesUri : Option String
  results : Option (List ρ)
deriving DecidableEq, Repr

/-- `FetchData`, less the pointer to the `EosUpdaterData` that all workers share. -/
structure FetchData where
  updateId : Option String
  updateRefspec : Option String
  force : Bool
  schedulingTimeoutSeconds : ℕ
deriving DecidableEq, Repr

/-- `ApplyData`. -/
structure ApplyData where
  updateId : Option String
  updateRefspec : Option String
  origRefspec : Option String
deriving DecidableEq, Repr

/-- What a worker runs, with its task data. -/
inductive Work
  | metadataFetch
  | pollVolume (path : String)
  | contentFetch (data : FetchData)
  | apply (data : ApplyData)
deriving DecidableEq, Repr

/-- The kinds of workers. -/
inductive WorkerKind
  | poll
  | fetch
  | apply
deriving DecidableEq, Repr

/-- The kind of the worker that does a piece of work. -/
def Work.kind : Work → WorkerKind
  | metadataFetch | pollVolume _ => .poll
  | contentFetch _ => .fetch
  | apply _ => .apply

/-- The state for a kind of worker. -/
def WorkerKind.state : WorkerKind → EosUpdaterState
  | poll => .polling
  | fetch => .fetching
  | apply => .applyingUpdate

/-- `GTask`: a worker that has been started, with its cancellable. -/
structure Task where
  cancellable : ℕ
  work : Work
deriving DecidableEq, Repr

/-- A deployment that has been staged or written: `apply_internal` asks for `update_id`, with an
origin made from `update_refspec`. -/
structure Deployment where
  checksum : Option String
  origin : Option String
deriving DecidableEq, Repr

/-! ### The options of a fetch -/

/-- The value of an option, of the type `a{sv}`. -/
inductive Variant
  | boolean (value : Bool)
  | uint32 (value : ℕ)
  | other
deriving DecidableEq, Repr

/-- `g_variant_lookup` for `force`, which keeps the default if there is no such option or it has
another type. -/
def lookupForce (options : List (String × Variant)) : Bool :=
  match options.lookup "force" with
  | some (.boolean value) => value
  | _ => false

/-- `g_variant_lookup` for `scheduling-timeout-seconds`; the default is an infinite timeout. -/
def lookupSchedulingTimeout (options : List (String × Variant)) : ℕ :=
  match options.lookup "scheduling-timeout-seconds" with
  | some (.uint32 value) => value
  | _ => 0

/-! ### The state of the daemon -/

/-- The `GCancellable` objects: how many have been made, numbered from zero, and which of them have
been cancelled. -/
structure Cancellables where
  made : ℕ := 0
  cancelled : List ℕ := []
deriving DecidableEq, Repr

/-- `EosUpdaterData`, less the repository. -/
structure EosUpdaterData (ρ : Type) where
  overriddenUrls : Option (List String) := none
  results : Option (List ρ) := none
  offlineResultsOnly : Bool := false
  cancellable : ℕ
deriving DecidableEq, Repr

/-- The daemon, with its workers in flight and what it has done to the world outside: the answers to
method calls and the deployments, the most recent ones first. -/
structure Daemon (ρ : Type) where
  /-- Whether the system is an installed one, and not a live one. -/
  installed : Bool
  updater : EosUpdater
  data : EosUpdaterData ρ
  cancellables : Cancellables
  workers : List Task := []
  answers : List (Except GError Unit) := []
  deployments : List Deployment := []

namespace Daemon

/-- `g_dbus_method_invocation_return_error`. -/
def returnError (daemon : Daemon ρ) (error : GError) : Daemon ρ :=
  { daemon with answers := .error error :: daemon.answers }

/-- `eos_updater_complete_poll` and its siblings, none of which returns a value. -/
def complete (daemon : Daemon ρ) : Daemon ρ :=
  { daemon with answers := .ok () :: daemon.answers }

/-- `eos_updater_data_reset_cancellable`. -/
def resetCancellable (daemon : Daemon ρ) : Daemon ρ :=
  if daemon.data.cancellable ∈ daemon.cancellables.cancelled then
    { daemon with
      data := { daemon.data with cancellable := daemon.cancellables.made }
      cancellables :=
        { daemon.cancellables with made := daemon.cancellables.made + 1 } }
  else daemon

/-- `g_cancellable_cancel` on the cancellable of the daemon. -/
def cancelCancellable (daemon : Daemon ρ) : Daemon ρ :=
  { daemon with
    cancellables :=
      { daemon.cancellables with
        cancelled := daemon.data.cancellable :: daemon.cancellables.cancelled } }

/-- What every handler that starts a worker ends with: reset the cancellable, announce the state and
run the work in a thread. -/
def startWorker (daemon : Daemon ρ) (work : Work) : Daemon ρ :=
  -- the worker keeps this cancellable, even if the daemon makes another one while it runs
  let daemon := daemon.resetCancellable
  complete
    { daemon with
      updater := daemon.updater.clearError work.kind.state
      workers := daemon.workers ++ [⟨daemon.data.cancellable, work⟩] }

/-! ### The handlers -/

/-- How a handler begins: outside of the states that allow the method it returns an error. -/
def whenIn (daemon : Daemon ρ) (allowed : List EosUpdaterState) (method : String) (hint : String)
    (accept : Daemon ρ) : Daemon ρ :=
  if daemon.updater.state ∈ allowed then accept
  else
    daemon.returnError ⟨.updaterWrongState,
      "Can't call " ++ method ++ "() while in state " ++ daemon.updater.state.toString ++ hint⟩

/-- `handle_poll`. -/
def handlePoll (daemon : Daemon ρ) : Daemon ρ :=
  daemon.whenIn [.ready, .updateAvailable, .updateReady, .error] "Poll" ""
    (daemon.startWorker .metadataFetch)

/-- `handle_poll_volume`. -/
def handlePollVolume (daemon : Daemon ρ) (path : String) : Daemon ρ :=
  daemon.whenIn [.ready, .updateAvailable, .updateReady, .error] "PollVolume" ""
    (daemon.startWorker (.pollVolume path))

/-- `handle_fetch_full`. -/
def handleFetchFull (daemon : Daemon ρ) (options : Option (List (String × Variant))) : Daemon ρ :=
  daemon.whenIn [.updateAvailable] "Fetch" ""
    (daemon.startWorker (.contentFetch
      { updateId := daemon.updater.updateId
        updateRefspec := daemon.updater.updateRefspec
        force := lookupForce (options.getD [])
        schedulingTimeoutSeconds := lookupSchedulingTimeout (options.getD []) }))

/-- `handle_fetch`. -/
def handleFetch (daemon : Daemon ρ) : Daemon ρ := daemon.handleFetchFull none

/-- `handle_apply`. -/
def handleApply (daemon : Daemon ρ) : Daemon ρ :=
  daemon.whenIn [.updateReady] "Apply" ""
    (daemon.startWorker (.apply
      { updateId := daemon.updater.updateId
        updateRefspec := daemon.updater.updateRefspec
        origRefspec := daemon.updater.originalRefspec }))

/-- `handle_cancel`. -/
def handleCancel (daemon : Daemon ρ) : Daemon ρ :=
  daemon.whenIn [.polling, .fetching, .applyingUpdate] "Cancel" " (nothing to be cancelled)"
    daemon.cancelCancellable.resetCancellable.complete

/-- `LIVE_BOOT_MESSAGE`. -/
def liveBootError : GError := ⟨.updaterLiveBoot, "Updater disabled on live systems"⟩

/-- `handle_on_live_boot`. -/
def handleOnLiveBoot (daemon : Daemon ρ) : Daemon ρ := daemon.returnError liveBootError

end Daemon

/-! ### The callbacks -/

/-- An entry of the `ostree.sizes` metadata of a commit, with what `ostree_repo_has_object` says
about its object. -/
structure CommitSizesEntry where
  archived : ℕ
  unpacked : ℕ
  hasObject : Except GError Bool

/-- What libostree says about the sizes of a commit: whether it could be loaded, and its entries. -/
structure CommitObjects where
  loadVariant : Except GError Unit
  objectSizes : Except GError (List CommitSizesEntry)

/-- The sizes that `get_commit_sizes` adds up. -/
structure CommitSizes where
  newArchived : ℕ := 0
  newUnpacked : ℕ := 0
  archived : ℕ := 0
  unpacked : ℕ := 0
deriving DecidableEq, Repr

/-- `SATURATED_INCREMENT_GUINT64`. -/
def saturatedIncrement (a b : ℕ) : ℕ := if a < 2 ^ 64 - 1 - b then a + b else 2 ^ 64 - 1

/-- `CLAMP_GUINT64_TO_GINT64`, and the conversion. -/
def clampToInt64 (a : ℕ) : ℤ := min (a : ℤ) (2 ^ 63 - 1)

/-- The loop of `get_commit_sizes`. -/
def addCommitSizes : CommitSizes → List CommitSizesEntry → Except GError CommitSizes
  | sizes, [] => .ok sizes
  | sizes, entry :: entries =>
      let sizes := { sizes with
        archived := saturatedIncrement sizes.archived entry.archived
        unpacked := saturatedIncrement sizes.unpacked entry.unpacked }
      match entry.hasObject with
      | .error e => .error e
      | .ok true => addCommitSizes sizes entries
      | .ok false =>
          addCommitSizes { sizes with
            newArchived := saturatedIncrement sizes.newArchived entry.archived
            newUnpacked := saturatedIncrement sizes.newUnpacked entry.unpacked } entries

/-- `get_commit_sizes`. -/
def getCommitSizes (objects : CommitObjects) : Except GError CommitSizes :=
  match objects.loadVariant with
  | .error e => .error (prefixError "Failed to read commit: " e)
  | .ok () =>
      match objects.objectSizes with
      | .error e => .error e
      | .ok entries => addCommitSizes {} entries

/-- `metadata_fetch_finished`, for what it takes over from the poll into the shared data. -/
def EosUpdaterData.takeInfo (data : EosUpdaterData ρ) (info : EosUpdateInfo ρ) :
    EosUpdaterData ρ :=
  { data with
    overriddenUrls := info.urls
    results := info.results
    offlineResultsOnly := info.offlineResultsOnly }

/-- `metadata_fetch_finished`, for the properties of an update. -/
def EosUpdater.offerUpdate (updater : EosUpdater) (info : EosUpdateInfo ρ) : EosUpdater :=
  { updater.clearError .updateAvailable with
    updateId := some info.checksum
    updateRefspec := some info.newRefspec
    originalRefspec := some info.oldRefspec
    version := info.version
    updateIsUserVisible := info.isUserVisible
    releaseNotesUri := info.releaseNotesUri
    updateLabel := some info.commit.subject
    updateMessage := some info.commit.body }

/-- `metadata_fetch_finished`, for the sizes: an error is kept, unless it says that there is no size
data. -/
def EosUpdater.offerSizes (updater : EosUpdater) (objects : CommitObjects) :
    EosUpdater × Option GError :=
  match getCommitSizes objects with
  | .ok sizes =>
      ({ updater with
          fullDownloadSize := clampToInt64 sizes.archived
          fullUnpackedSize := clampToInt64 sizes.unpacked
          downloadSize := clampToInt64 sizes.newArchived
          unpackedSize := clampToInt64 sizes.newUnpacked
          downloadedBytes := 0 }, none)
  | .error e =>
      if e.code = .ioNotFound then
        ({ updater with
            fullDownloadSize := -1
            fullUnpackedSize := -1
            downloadSize := -1
            unpackedSize := -1
            downloadedBytes := -1 }, none)
      else (updater, some e)

namespace Daemon

/-- `g_task_propagate_pointer` and `g_task_propagate_boolean`: a task whose cancellable has been
cancelled reports that, whatever its worker returned. -/
def propagate {α : Type} (daemon : Daemon ρ) (task : Task) (result : Except GError α) :
    Except GError α :=
  if task.cancellable ∈ daemon.cancellables.cancelled then
    .error ⟨.ioCancelled, "Operation was cancelled"⟩
  else result

/-- The end of `metadata_fetch_finished`: an error replaces the state that was announced. -/
def setErrorIfAny (daemon : Daemon ρ) (error : Option GError) : Daemon ρ :=
  match error with
  | some e => { daemon with updater := daemon.updater.setError (some e) }
  | none => daemon

/-- `metadata_fetch_finished`. Without an update it announces `Ready` before it looks at the
error. -/
def metadataFetchFinished (daemon : Daemon ρ) (task : Task)
    (result : Except GError (Option (EosUpdateInfo ρ))) (objects : CommitObjects) : Daemon ρ :=
  match daemon.propagate task result with
  | .ok (some info) =>
      let sized := (daemon.updater.offerUpdate info).offerSizes objects
      -- the offer stands, even if the sizes end it in the state `Error`
      { daemon with data := daemon.data.takeInfo info, updater := sized.1 }.setErrorIfAny sized.2
  | .ok none =>
      { daemon with updater := daemon.updater.clearError .ready }.setErrorIfAny none
  | .error e =>
      { daemon with updater := daemon.updater.clearError .ready }.setErrorIfAny (some e)

/-- `content_fetch_finished`. -/
def contentFetchFinished (daemon : Daemon ρ) (task : Task) (result : Except GError Unit) :
    Daemon ρ :=
  match daemon.propagate task result with
  | .error e =>
      -- only a bare `G_IO_ERROR_FAILED` is given an error of the updater in its place
      let error : GError :=
        if e.code = .ioFailed then ⟨.updaterFetching, "Error fetching update: " ++ e.message⟩
        else e
      { daemon with updater := daemon.updater.setError (some error) }
  | .ok () => { daemon with updater := daemon.updater.clearError .updateReady }

/-- `apply_finished`. -/
def applyFinished (daemon : Daemon ρ) (task : Task) (result : Except GError Unit) : Daemon ρ :=
  match daemon.propagate task result with
  | .error e => { daemon with updater := daemon.updater.setError (some e) }
  | .ok () => { daemon with updater := daemon.updater.clearError .updateApplied }

/-- `update_progress`. -/
def updateProgress (daemon : Daemon ρ) (bytes : ℕ) : Daemon ρ :=
  if daemon.updater.state = .fetching then
    { daemon with updater := { daemon.updater with downloadedBytes := clampToInt64 bytes } }
  else daemon

end Daemon

/-! ### Events -/

/-- The methods of `com.endlessm.Updater`. -/
inductive Method
  | poll
  | pollVolume (path : String)
  | fetch
  | fetchFull (options : List (String × Variant))
  | apply
  | cancel
deriving DecidableEq, Repr

/-- What a worker returns. After a poll, `objects` is what libostree says about the commit it
found. -/
inductive Outcome (ρ : Type)
  | metadata (result : Except GError (Option (EosUpdateInfo ρ))) (objects : CommitObjects)
  | boolean (result : Except GError Unit)

/-- What the main thread processes, or a worker does to the world outside. Workers are given by
their position. -/
inductive Event (ρ : Type)
  | call (method : Method)
  | finished (worker : ℕ) (outcome : Outcome ρ)
  | progress (bytes : ℕ)
  | deploy (worker : ℕ)

namespace Daemon

/-- `on_bus_acquired`, from the checksum of the booted deployment and from whether the system is an
installed one. Signals that are emitted before the object is exported reach nobody. -/
def onBusAcquired (bootedChecksum : Except GError String) (installed : Bool) : Daemon ρ :=
  let updater : EosUpdater :=
    match bootedChecksum with
    | .ok sum =>
        { ({} : EosUpdater) with
          currentId := some sum
          downloadSize := 0
          downloadedBytes := 0
          unpackedSize := 0
          updateId := some ""
          updateIsUserVisible := false
          releaseNotesUri := some "" }.clearError .ready
    | .error e =>
        if e.code = .ioNotFound ∨ e.code = .ioFailed then
          ({} : EosUpdater).setError (some
            ⟨.updaterNotOstreeSystem, "Not an OSTree-based system: cannot update it."⟩)
        else ({} : EosUpdater).setError (some e)
  let updater := if installed then updater else updater.setError (some liveBootError)
  { installed
    updater := { updater with stateChanged := [] }
    data := { cancellable := 0 }
    cancellables := { made := 1 } }

/-- The handler of a method, on an installed system or a live one. -/
def call (daemon : Daemon ρ) (method : Method) : Daemon ρ :=
  if daemon.installed then
    match method with
    | .poll => daemon.handlePoll
    | .pollVolume path => daemon.handlePollVolume path
    | .fetch => daemon.handleFetch
    | .fetchFull options => daemon.handleFetchFull (some options)
    | .apply => daemon.handleApply
    | .cancel => daemon.handleCancel
  else daemon.handleOnLiveBoot

/-- The callback of a task, on what its worker has returned. -/
def callback (daemon : Daemon ρ) (task : Task) (outcome : Outcome ρ) : Option (Daemon ρ) :=
  match task.work, outcome with
  | .metadataFetch, .metadata result objects
  | .pollVolume _, .metadata result objects =>
      some (daemon.metadataFetchFinished task result objects)
  | .contentFetch _, .boolean result => some (daemon.contentFetchFinished task result)
  | .apply _, .boolean result => some (daemon.applyFinished task result)
  | _, _ => none

/-- One event. Nothing is returned for an event that cannot happen: there is no such worker, or it
returns no such result. -/
def step (daemon : Daemon ρ) : Event ρ → Option (Daemon ρ)
  | .call method => some (daemon.call method)
  | .finished worker outcome =>
      -- the task is over before its callback looks at the result
      (daemon.workers[worker]?).bind fun task =>
        callback { daemon with workers := daemon.workers.eraseIdx worker } task outcome
  | .progress bytes => some (daemon.updateProgress bytes)
  | .deploy worker =>
      match daemon.workers[worker]? with
      | some ⟨_, .apply data⟩ =>
          -- from another thread, and with the task data alone
          some { daemon with
            deployments := ⟨data.updateId, data.updateRefspec⟩ :: daemon.deployments }
      | _ => none

/-- The daemon once it has acquired the bus. -/
def Started (daemon : Daemon ρ) : Prop :=
  ∃ bootedChecksum installed, daemon = onBusAcquired bootedChecksum installed

end Daemon

end Updater
