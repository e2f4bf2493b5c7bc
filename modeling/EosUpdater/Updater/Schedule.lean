import EosUpdater.Flatpak.Installation
import EosUpdater.Machine.Program
import EosUpdater.Updater.Daemon

/-!
# The download scheduler

Before it downloads anything, a fetch asks the download scheduler of Mogwai for an entry and waits
until the entry says that it may download now, unless it is forced or has found the update offline.

The functions of `fetch.c` hand errors over in variables that may be unset: a function returns its
value and the error that it has set (`Returned`), and to read an error that is not there crashes the
process, as does an assertion that fails, and as may to read memory that was never written
(`Crash`). `checkScheduler` does nothing of this, and what it does with the entry is one of four
things (`checked_of_ends`).

What is dispatched while a fetch waits is given as a list of events for each iteration of the main
context. A fetch that waits forever does not end.
-/

namespace Updater

open Euu Machine Machine.Program

variable {σ : Type}

/-! ### Values and errors -/

/-- How the process can crash: it reads an error that is not there, an assertion fails, or it reads
memory that was never written, after which anything may happen. -/
inductive Crash
  | nullRead
  | assertion
  | undefined
deriving DecidableEq, Repr

/-- What a function returns that can set an error: its value, and the error that it has set. -/
structure Returned where
  value : Bool
  error : Option GError
deriving DecidableEq, Repr

namespace Returned

/-- Return `TRUE`. -/
def success : Returned := ⟨true, none⟩

/-- Set an error and return `FALSE`. -/
def failure (error : GError) : Returned := ⟨false, some error⟩

/-- What a function of a library returns. -/
def of : Except GError Unit → Returned
  | .ok _ => success
  | .error e => failure e

/-- An error is set exactly if `FALSE` is returned. -/
def Consistent (returned : Returned) : Prop := returned.error ≠ none ↔ returned.value = false

/-- Success without an error is consistent. -/
theorem consistent_success : success.Consistent := by simp [Consistent, success]

/-- Failure with an error is consistent. -/
theorem consistent_failure (e : GError) : (failure e).Consistent := by simp [Consistent, failure]

/-- What a result is returned as is consistent. -/
theorem consistent_of (result : Except GError Unit) : (of result).Consistent := by
  cases result with
  | ok _ => exact consistent_success
  | error e => exact consistent_failure e

/-- Only an error is returned as a failure. -/
theorem of_eq_failure {result : Except GError Unit} {e : GError} (h : of result = failure e) :
    result = .error e := by
  cases result with
  | ok _ => cases h
  | error e' => cases h; rfl

/-- What is consistent is a success or a failure. -/
theorem Consistent.eq {returned : Returned} (h : returned.Consistent) :
    returned = success ∨ ∃ e, returned = failure e := by
  obtain ⟨value, error⟩ := returned
  cases value <;> cases error <;> simp_all [Consistent, success, failure]

end Returned

/-- Read the message of an error. -/
def readMessage : Option GError → Program σ Crash String
  | some e => return e.message
  | none => throw .nullRead

/-- Log the error of a function that has returned `FALSE`, with its message. -/
def logFailure (returned : Returned) : Program σ Crash Unit :=
  if returned.value = false then discard (readMessage returned.error) else return ()

/-- Logging a consistent failure does not crash. -/
theorem ends_logFailure {returned : Returned} (h : returned.Consistent) {s t : σ}
    {result : Except Crash Unit} :
    (logFailure returned).Ends s result t ↔ result = .ok () ∧ t = s := by
  rcases h.eq with rfl | ⟨e, rfl⟩ <;> exact ends_pure

/-- Where no error has been set, its message is read all the same. -/
theorem ends_logFailure_unset {s t : σ} {result : Except Crash Unit} :
    (logFailure ⟨false, none⟩).Ends s result t ↔ result = .error .nullRead ∧ t = s := by
  have hlog : (logFailure ⟨false, none⟩ : Program σ Crash Unit) =
      (throw .nullRead >>= fun _ => pure ()) := rfl
  rw [hlog, ends_bind]
  simp only [ends_throw]
  constructor
  · rintro (⟨crash, ⟨heq, rfl⟩, rfl⟩ | ⟨_, _, ⟨heq, -⟩, -⟩)
    · exact ⟨congrArg Except.error (Except.error.inj heq), rfl⟩
    · cases heq
  · rintro ⟨rfl, rfl⟩
    exact Or.inl ⟨_, ⟨rfl, rfl⟩, rfl⟩

/-! ### Fetches -/

/-- What a fetch pulls from: the results of the finders, a remote, or where flatpaks come from. -/
inductive Transfer
  | results
  | remote (name : String) (overrideUrl : Option String)
  | flatpak (transaction : FlatpakTransaction)
deriving DecidableEq, Repr

/-- A transfer that was started, and whether the scheduler had allowed the fetch to download by
then. -/
structure StartedTransfer where
  transfer : Transfer
  downloadNow : Bool
deriving DecidableEq, Repr

/-- The state of a fetch: what its calls depend on, the schedule entry of its `FetchData`, and what
it has done so far. Schedule entries are numbered. -/
structure FetchState (σ : Type) where
  world : σ
  scheduleEntry : Option ℕ := none
  /-- The entries that `mwsc_scheduler_schedule_finish` has returned. -/
  created : List ℕ := []
  /-- The entries that `mwsc_schedule_entry_remove_async` was called on. -/
  removed : List ℕ := []
  /-- `check_scheduler` has seen `download-now` on an entry. -/
  downloadNow : Bool := false
  transfers : List StartedTransfer := []

namespace FetchState

/-- `mwsc_scheduler_schedule_finish`, into `fetch_data->schedule_entry`. -/
def createEntry (s : FetchState σ) : FetchState σ :=
  { s with scheduleEntry := some s.created.length, created := s.created.length :: s.created }

/-- Start a transfer. -/
def start (s : FetchState σ) (transfer : Transfer) : FetchState σ :=
  { s with transfers := ⟨transfer, s.downloadNow⟩ :: s.transfers }

end FetchState

/-! ### Waiting -/

/-- What can be dispatched while a fetch waits for the scheduler. -/
inductive SchedulerEvent
  | downloadNow (value : Bool)
  | invalidated (error : GError)
  | timeout
  | cancelled
deriving DecidableEq, Repr

/-- What the download scheduler does for a fetch, and the events of every iteration of the main
context while the fetch waits. -/
structure DownloadScheduler where
  /-- `mwsc_scheduler_new_finish`. -/
  connect : Except GError Unit
  /-- `mwsc_scheduler_schedule_finish`. -/
  schedule : Except GError Unit
  /-- `mwsc_schedule_entry_get_download_now`, before the fetch waits. -/
  downloadNow : Bool
  /-- `mwsc_schedule_entry_remove_finish`. -/
  remove : Except GError Unit
  /-- The fetch has been cancelled before it waits. -/
  cancelled : Bool
  iterations : List (List SchedulerEvent)

/-- The local variables of `check_scheduler`, and whether the cancellable has been cancelled. -/
structure Waiting where
  downloadNow : Bool
  invalidatedError : Option GError := none
  timedOut : Bool := false
  cancelled : Bool
deriving DecidableEq, Repr

namespace Waiting

/-- `download_now_cb`, `invalidated_cb` and `timeout_cb`. There is no timeout unless its seconds are
positive. -/
def handle (timeoutSeconds : ℕ) (waiting : Waiting) : SchedulerEvent → Waiting
  | .downloadNow value => { waiting with downloadNow := value }
  | .invalidated error => { waiting with invalidatedError := some error }
  | .timeout => { waiting with timedOut := waiting.timedOut || decide (0 < timeoutSeconds) }
  | .cancelled => { waiting with cancelled := true }

/-- The loop of `check_scheduler` is left. -/
def isOver (waiting : Waiting) : Bool :=
  waiting.downloadNow || waiting.cancelled || waiting.timedOut || waiting.invalidatedError.isSome

/-- The loop of `check_scheduler`. -/
def run (timeoutSeconds : ℕ) (waiting : Waiting) : List (List SchedulerEvent) → Option Waiting
  | [] => if waiting.isOver then some waiting else none
  | events :: iterations =>
      if waiting.isOver then some waiting
      else (events.foldl (handle timeoutSeconds) waiting).run timeoutSeconds iterations

/-- `EOS_UPDATER_ERROR_METERED_CONNECTION`. -/
def meteredConnection (message : String) : GError :=
  ⟨.other "eos-updater-error-quark" 8, "Error fetching update: " ++ message⟩

/-- The error that `check_scheduler` sets once the loop is left. The last case is
`g_cancellable_set_error_if_cancelled`. -/
def error (waiting : Waiting) : Option GError :=
  if waiting.timedOut then
    some (meteredConnection "Timed out waiting for download to be scheduled")
  else
    match waiting.invalidatedError with
    | some e => some (meteredConnection
        ("Download scheduler disappeared unexpectedly: " ++ e.message))
    | none =>
        if waiting.cancelled then some ⟨.ioCancelled, "Operation was cancelled"⟩ else none

/-- The loop is left only for one of its reasons. -/
theorem isOver_of_run {timeoutSeconds : ℕ} {waiting waited : Waiting}
    {iterations : List (List SchedulerEvent)}
    (h : waiting.run timeoutSeconds iterations = some waited) : waited.isOver = true := by
  induction iterations generalizing waiting with
  | nil =>
      simp only [run] at h
      split at h
      · next hover => exact Option.some_inj.1 h ▸ hover
      · cases h
  | cons events iterations ih =>
      simp only [run] at h
      split at h
      · next hover => exact Option.some_inj.1 h ▸ hover
      · exact ih h

/-- If the loop is left and the download is not allowed, there is an error to be set. -/
theorem exists_error {waiting : Waiting} (hover : waiting.isOver = true)
    (hnow : waiting.downloadNow = false) : ∃ e, waiting.error = some e := by
  unfold error
  split
  · exact ⟨_, rfl⟩
  · next htimedOut =>
    split
    · exact ⟨_, rfl⟩
    · next hvalid =>
      -- the loop was left, and for none of the other reasons
      have hcancelled : waiting.cancelled = true := by
        simpa [isOver, hnow, htimedOut, hvalid] using hover
      exact ⟨_, if_pos hcancelled⟩

end Waiting

/-! ### The functions -/

section Functions

variable (scheduler : DownloadScheduler) (fetchData : FetchData)

/-- `schedule_download`. -/
def scheduleDownload : Program (FetchState σ) Crash Returned :=
  match scheduler.connect with
  | .error e => return .failure e
  | .ok () =>
      match scheduler.schedule with
      | .error e => return .failure e
      | .ok () => .perform fun s => (.ok .success, s.createEntry)

/-- `MWSC_SCHEDULE_ENTRY_ERROR_INVALIDATED`. -/
def scheduleEntryInvalidated : ErrorCode := .other "MwscScheduleEntryError" 0

/-- What `unschedule_download` returns for an entry. One that was invalidated has been removed
already. -/
def DownloadScheduler.returned : Returned :=
  match scheduler.remove with
  | .ok () => .success
  | .error e => if e.code = scheduleEntryInvalidated then .success else .failure e

/-- `unschedule_download`. It removes the entry even if the fetch has been cancelled. -/
def unscheduleDownload : Program (FetchState σ) Crash Returned :=
  .perform fun s =>
    match s.scheduleEntry with
    | none => (.ok .success, s)
    | some entry =>
        (.ok scheduler.returned,
          { s with scheduleEntry := none, removed := entry :: s.removed })

/-- The loop of `check_scheduler`, from its start. -/
def DownloadScheduler.wait (timeoutSeconds : ℕ) : Option Waiting :=
  Waiting.run timeoutSeconds
    { downloadNow := scheduler.downloadNow, cancelled := scheduler.cancelled } scheduler.iterations

/-- `check_scheduler`, once there is an entry. -/
def waitForScheduler : Program (FetchState σ) Crash Returned := do
  let waited ← .await (scheduler.wait fetchData.schedulingTimeoutSeconds)
  if waited.downloadNow then
    .perform fun s => (.ok .success, { s with downloadNow := true })
  else do
    logFailure (← unscheduleDownload scheduler)
    if waited.error = none then throw .assertion else return ⟨false, waited.error⟩

/-- `check_scheduler`. -/
def checkScheduler (offlineResultsOnly : Bool) : Program (FetchState σ) Crash Returned :=
  if fetchData.force then return .success
  else if offlineResultsOnly then return .success
  else do
    let scheduled ← scheduleDownload scheduler
    if scheduled.value = false then return scheduled
    else waitForScheduler scheduler fetchData

end Functions

/-! ### What happens to the entry -/

section Entry

variable {scheduler : DownloadScheduler} {fetchData : FetchData} {offlineResultsOnly : Bool}
  {s t : FetchState σ}

/-- The entry of a fetch has been removed, if there was one. -/
def FetchState.removeEntry (s : FetchState σ) : FetchState σ :=
  { s with scheduleEntry := none, removed := s.scheduleEntry.toList ++ s.removed }

/-- The scheduler returns consistently. -/
theorem DownloadScheduler.consistent_returned (scheduler : DownloadScheduler) :
    scheduler.returned.Consistent := by
  unfold returned
  split
  · exact Returned.consistent_success
  · split
    · exact Returned.consistent_success
    · exact Returned.consistent_failure _

/-- `unschedule_download` removes the entry, whether or not it reports an error. -/
theorem ends_unscheduleDownload (scheduler : DownloadScheduler) (s : FetchState σ) :
    ∃ returned, returned.Consistent ∧
      (unscheduleDownload scheduler).Ends s (.ok returned) s.removeEntry := by
  cases hentry : s.scheduleEntry with
  | none =>
      refine ⟨.success, Returned.consistent_success, ends_perform.2 ?_⟩
      cases s
      simp_all [FetchState.removeEntry]
  | some entry =>
      refine ⟨scheduler.returned, scheduler.consistent_returned, ends_perform.2 ?_⟩
      simp [hentry, FetchState.removeEntry]

/-- The scheduler lets a fetch with an entry download. -/
def DownloadScheduler.Permits (scheduler : DownloadScheduler) (timeoutSeconds : ℕ) : Prop :=
  scheduler.connect = .ok () ∧ scheduler.schedule = .ok () ∧
    ∃ waited, scheduler.wait timeoutSeconds = some waited ∧ waited.downloadNow = true

/-- What `check_scheduler` comes to: the scheduler is not asked, it gives no entry, or it permits
the download or refuses it, where the entry is removed again. -/
inductive Checked (scheduler : DownloadScheduler) (fetchData : FetchData)
    (offlineResultsOnly : Bool) (s : FetchState σ) : Returned → FetchState σ → Prop
  | bypassed (h : fetchData.force = true ∨ offlineResultsOnly = true) :
      Checked scheduler fetchData offlineResultsOnly s .success s
  | unscheduled {e : GError} (hasked : ¬ (fetchData.force = true ∨ offlineResultsOnly = true))
      (h : ¬ scheduler.Permits fetchData.schedulingTimeoutSeconds) :
      Checked scheduler fetchData offlineResultsOnly s (.failure e) s
  | permitted (hasked : ¬ (fetchData.force = true ∨ offlineResultsOnly = true))
      (h : scheduler.Permits fetchData.schedulingTimeoutSeconds) :
      Checked scheduler fetchData offlineResultsOnly s .success
        { s.createEntry with downloadNow := true }
  | refused {e : GError} (hasked : ¬ (fetchData.force = true ∨ offlineResultsOnly = true))
      (h : ¬ scheduler.Permits fetchData.schedulingTimeoutSeconds) :
      Checked scheduler fetchData offlineResultsOnly s (.failure e) s.createEntry.removeEntry

/-- The check with the scheduler returns consistently. -/
theorem Checked.consistent {returned : Returned}
    (h : Checked scheduler fetchData offlineResultsOnly s returned t) : returned.Consistent := by
  cases h with
  | bypassed _ | permitted _ _ => exact Returned.consistent_success
  | unscheduled _ _ | refused _ _ => exact Returned.consistent_failure _

/-- A fetch gets past the scheduler exactly if it is not asked or permits the download, with the
same world around it. -/
theorem Checked.success_iff {returned : Returned}
    (h : Checked scheduler fetchData offlineResultsOnly s returned t) :
    returned = .success ↔ (fetchData.force = true ∨ offlineResultsOnly = true) ∨
      scheduler.Permits fetchData.schedulingTimeoutSeconds := by
  cases h with
  | bypassed h => exact iff_of_true rfl (Or.inl h)
  | permitted _ h => exact iff_of_true rfl (Or.inr h)
  | unscheduled hasked h | refused hasked h => exact iff_of_false nofun (not_or.2 ⟨hasked, h⟩)

theorem Checked.world_eq {returned : Returned}
    (h : Checked scheduler fetchData offlineResultsOnly s returned t) : t.world = s.world := by
  cases h <;> rfl

/-- Once there is an entry, the fetch waits, and then either goes on or removes the entry. -/
theorem ends_waitForScheduler {result : Except Crash Returned}
    (h : (waitForScheduler scheduler fetchData).Ends s result t) :
    ∃ waited, scheduler.wait fetchData.schedulingTimeoutSeconds = some waited ∧
      (waited.downloadNow = true ∧ result = .ok .success ∧ t = { s with downloadNow := true } ∨
        waited.downloadNow = false ∧ ∃ e, result = .ok (.failure e) ∧ t = s.removeEntry) := by
  rcases ends_bind.1 h with ⟨e, hawait, -⟩ | ⟨waited, s', hawait, hrest⟩
  · simp at hawait
  obtain ⟨_, hwait, heq, rfl⟩ := ends_await.1 hawait
  obtain rfl := Except.ok.inj heq
  refine ⟨waited, hwait, ?_⟩
  cases hnow : waited.downloadNow with
  | true =>
      simp only [hnow, if_true, ends_perform, Prod.mk.injEq] at hrest
      exact Or.inl ⟨rfl, hrest.1.symm, hrest.2.symm⟩
  | false =>
      -- an error is set, so that the assertion holds
      obtain ⟨e, he⟩ := Waiting.exists_error (Waiting.isOver_of_run hwait) hnow
      simp only [hnow, Bool.false_eq_true, if_false, he] at hrest
      obtain ⟨returned, hreturned, hend⟩ := ends_unscheduleDownload scheduler s'
      have hlogged := (ends_bind_of_ok ((ends_logFailure hreturned).2 ⟨rfl, rfl⟩)).1
        ((ends_bind_of_ok hend).1 hrest)
      obtain ⟨rfl, rfl⟩ := ends_pure.1 hlogged
      exact Or.inr ⟨rfl, e, rfl, rfl⟩

/-- **The scheduler.** `check_scheduler` returns, if it ends, and in one of these ways. In
particular its assertion that an error is set holds. -/
theorem checked_of_ends {result : Except Crash Returned}
    (h : (checkScheduler scheduler fetchData offlineResultsOnly).Ends s result t) :
    ∃ returned, result = .ok returned ∧
      Checked scheduler fetchData offlineResultsOnly s returned t := by
  unfold checkScheduler at h
  split at h
  · next hforce =>
    obtain ⟨rfl, rfl⟩ := ends_pure.1 h
    exact ⟨_, rfl, .bypassed (Or.inl hforce)⟩
  next hforce =>
  split at h
  · next hoffline =>
    obtain ⟨rfl, rfl⟩ := ends_pure.1 h
    exact ⟨_, rfl, .bypassed (Or.inr hoffline)⟩
  next hoffline =>
  -- the scheduler is asked: it may be out of reach, refuse an entry, or give one
  have hasked : ¬ (fetchData.force = true ∨ offlineResultsOnly = true) := by tauto
  unfold scheduleDownload at h
  cases hconnect : scheduler.connect with
  | error e =>
      simp only [hconnect] at h
      obtain ⟨rfl, rfl⟩ := ends_pure.1 ((ends_bind_of_ok (ends_pure.2 ⟨rfl, rfl⟩)).1 h)
      exact ⟨_, rfl, .unscheduled hasked fun hpermits => nomatch hconnect.symm.trans hpermits.1⟩
  | ok _ =>
      cases hschedule : scheduler.schedule with
      | error e =>
          simp only [hconnect, hschedule] at h
          obtain ⟨rfl, rfl⟩ := ends_pure.1 ((ends_bind_of_ok (ends_pure.2 ⟨rfl, rfl⟩)).1 h)
          exact ⟨_, rfl, .unscheduled hasked fun hpermits =>
            nomatch hschedule.symm.trans hpermits.2.1⟩
      | ok _ =>
          simp only [hconnect, hschedule] at h
          have h : (waitForScheduler scheduler fetchData).Ends s.createEntry result t :=
            (ends_bind_of_ok (ends_perform.2 rfl)).1 h
          obtain ⟨waited, hwait, ⟨hnow, rfl, rfl⟩ | ⟨hnow, e, rfl, rfl⟩⟩ := ends_waitForScheduler h
          · exact ⟨_, rfl, .permitted hasked ⟨hconnect, hschedule, waited, hwait, hnow⟩⟩
          · refine ⟨_, rfl, .refused hasked ?_⟩
            rintro ⟨-, -, waited', hwait', hnow'⟩
            obtain rfl := Option.some_inj.1 (hwait.symm.trans hwait')
            exact nomatch hnow.symm.trans hnow'

end Entry

end Updater
