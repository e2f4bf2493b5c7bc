import EosUpdater.Updater.Exclusion

/-!
# The details of an update

`com.endlessm.Updater.xml` documents that the properties which describe an update are empty or zero
if no update is available. They are when the daemon starts, and a poll that finds an update sets
them; nothing else does, and nothing resets them. The state `Ready` therefore comes with empty
details as long as no poll finds nothing after another one has found an update, and else with the
details of an update that is not available any more (`blank_of_ready`).
-/

namespace Updater

open Euu Machine

variable {ρ : Type} {daemon daemon' : Daemon ρ} {event : Event ρ}
  {history : History (Daemon ρ) (Event ρ)}

/-- The properties that describe an update. -/
structure UpdateDetails where
  updateId : Option String
  updateRefspec : Option String
  updateLabel : Option String
  updateMessage : Option String
  version : Option String
  releaseNotesUri : Option String
  updateIsUserVisible : Bool
  downloadSize : ℤ
  unpackedSize : ℤ
  fullDownloadSize : ℤ
  fullUnpackedSize : ℤ

/-- The details that the object shows. -/
def EosUpdater.details (updater : EosUpdater) : UpdateDetails where
  updateId := updater.updateId
  updateRefspec := updater.updateRefspec
  updateLabel := updater.updateLabel
  updateMessage := updater.updateMessage
  version := updater.version
  releaseNotesUri := updater.releaseNotesUri
  updateIsUserVisible := updater.updateIsUserVisible
  downloadSize := updater.downloadSize
  unpackedSize := updater.unpackedSize
  fullDownloadSize := updater.fullDownloadSize
  fullUnpackedSize := updater.fullUnpackedSize

/-- A string property is unset or empty. -/
def IsBlank (text : Option String) : Prop := text = none ∨ text = some ""

/-- The details that are documented for when no update is available. -/
structure UpdateDetails.Blank (details : UpdateDetails) : Prop where
  updateId : IsBlank details.updateId
  updateRefspec : IsBlank details.updateRefspec
  updateLabel : IsBlank details.updateLabel
  updateMessage : IsBlank details.updateMessage
  version : IsBlank details.version
  releaseNotesUri : IsBlank details.releaseNotesUri
  updateIsUserVisible : details.updateIsUserVisible = false
  downloadSize : details.downloadSize = 0
  unpackedSize : details.unpackedSize = 0
  fullDownloadSize : details.fullDownloadSize = 0
  fullUnpackedSize : details.fullUnpackedSize = 0

/-- The callback of a poll runs in this step, and there is neither an update nor an error. -/
def FindsNothing (τ : Transition (Daemon ρ) (Event ρ)) : Prop :=
  ∃ worker result objects task, τ.event = .finished worker (.metadata result objects) ∧
    τ.before.workers[worker]? = some task ∧ τ.before.propagate task result = .ok none

/-! ### What a step does to the details -/

namespace Daemon

/-- The daemon starts without any details. -/
theorem Started.blank (h : daemon.Started) : daemon.updater.details.Blank := by
  obtain ⟨bootedChecksum, installed, rfl⟩ := h
  cases bootedChecksum with
  | ok sum =>
      cases installed <;>
        exact ⟨Or.inr rfl, Or.inl rfl, Or.inl rfl, Or.inl rfl, Or.inl rfl, Or.inr rfl, rfl, rfl,
          rfl, rfl, rfl⟩
  | error e =>
      by_cases hcode : e.code = .ioNotFound ∨ e.code = .ioFailed <;> cases installed <;>
        simp only [onBusAcquired, hcode, if_true, if_false] <;>
          exact ⟨Or.inl rfl, Or.inl rfl, Or.inl rfl, Or.inl rfl, Or.inl rfl, Or.inl rfl, rfl, rfl,
            rfl, rfl, rfl⟩

/-- The callback of a poll shows the checksum of an update that was found, and otherwise leaves the
details as they are; it announces `Ready` only if there is neither an update nor an error. -/
theorem metadataFetchFinished_details (daemon : Daemon ρ) (task : Task)
    (result : Except GError (Option (EosUpdateInfo ρ))) (objects : CommitObjects) :
    (∃ info, daemon.propagate task result = .ok (some info) ∧
      (daemon.metadataFetchFinished task result objects).updater.updateId = some info.checksum ∧
      (daemon.metadataFetchFinished task result objects).updater.state ≠ .ready) ∨
    (daemon.propagate task result = .ok none ∧
      (daemon.metadataFetchFinished task result objects).updater.details =
        daemon.updater.details ∧
      (daemon.metadataFetchFinished task result objects).updater.state = .ready) ∨
    ∃ e, daemon.propagate task result = .error e ∧
      (daemon.metadataFetchFinished task result objects).updater.details =
        daemon.updater.details ∧
      (daemon.metadataFetchFinished task result objects).updater.state = .error := by
  unfold metadataFetchFinished
  cases daemon.propagate task result with
  | error e => exact Or.inr (Or.inr ⟨e, rfl, rfl, rfl⟩)
  | ok found =>
      cases found with
      | none => exact Or.inr (Or.inl ⟨rfl, rfl, rfl⟩)
      | some info =>
          -- what the sizes come to may still set an error, but not `Ready`
          obtain ⟨hstate, hid, -, -⟩ :=
            offerSizes_frame (daemon.updater.offerUpdate info) objects
          refine Or.inl ⟨info, rfl, ?_, fun hready => ?_⟩
          · exact (congrArg Offer.updateId (setErrorIfAny_offer _)).trans hid
          · have havailable := hstate.trans (show _ = EosUpdaterState.updateAvailable from rfl)
            rcases setErrorIfAny_state _ with h | h
            · exact absurd (hready.symm.trans (h.trans havailable)) nofun
            · exact absurd (hready.symm.trans h) nofun

end Daemon

/-- What the poll in flight has found, once its callback runs. -/
private theorem foundBy_finished {task : Task} (hworkers : daemon.workers = [task])
    (result : Except GError (Option (EosUpdateInfo ρ))) (objects : CommitObjects)
    {found : Option (EosUpdateInfo ρ)} (h : daemon.propagate task result = .ok found) :
    foundBy ⟨daemon, .finished 0 (.metadata result objects), daemon'⟩ = found := by
  simp [foundBy, hworkers, h]

/-- **The step.** Either a poll finds an update and its checksum is shown, outside of `Ready`; or
the details stay as they are, and `Ready` was the state before or a poll finds nothing. -/
theorem details_of_step (h : daemon.Exclusive) (hstep : daemon.step event = some daemon') :
    (∃ info, foundBy ⟨daemon, event, daemon'⟩ = some info ∧
      daemon'.updater.updateId = some info.checksum ∧ daemon'.updater.state ≠ .ready) ∨
    foundBy ⟨daemon, event, daemon'⟩ = none ∧
      daemon'.updater.details = daemon.updater.details ∧
      (daemon'.updater.state = .ready →
        daemon.updater.state = .ready ∨ FindsNothing ⟨daemon, event, daemon'⟩) := by
  cases event with
  | call method =>
      obtain rfl := Option.some_inj.1 hstep
      right
      refine ⟨rfl, ?_⟩
      rcases daemon.call_inversion method with ⟨e, heq⟩ | ⟨-, -, heq⟩ | ⟨-, work, -, -, heq⟩
      · rw [heq]
        exact ⟨rfl, Or.inl⟩
      · have hupdater := daemon.cancelCancellable.resetCancellable_updater
        rw [heq]
        exact ⟨congrArg EosUpdater.details hupdater,
          fun hready => Or.inl ((congrArg EosUpdater.state hupdater).symm.trans hready)⟩
      · rw [heq]
        refine ⟨?_, fun hready => ?_⟩
        · exact congrArg (fun updater => (updater.clearError work.kind.state).details)
            daemon.resetCancellable_updater
        · rw [daemon.startWorker_state] at hready
          cases hkind : work.kind <;> simp [hkind, WorkerKind.state] at hready
  | finished worker outcome =>
      obtain ⟨task, hworkers, rfl, -, ⟨result, objects, rfl, -, rfl⟩ | ⟨data, result, rfl, -, rfl⟩ |
        ⟨data, result, rfl, -, rfl⟩⟩ := h.finished_inversion hstep
      · rcases Daemon.metadataFetchFinished_details { daemon with workers := [] } task result
          objects with ⟨info, hfound, hid, hstate⟩ | ⟨hfound, hdetails, -⟩ |
            ⟨e, hfound, hdetails, hstate⟩
        · exact Or.inl ⟨info, foundBy_finished hworkers result objects hfound, hid, hstate⟩
        · exact Or.inr ⟨foundBy_finished hworkers result objects hfound, hdetails,
            fun _ => Or.inr ⟨0, result, objects, task, rfl, by simp [hworkers], hfound⟩⟩
        -- an error leaves the details as well, but the state is then `Error`
        · have herror : daemon.propagate task result = .error e := hfound
          exact Or.inr ⟨by simp [foundBy, hworkers, herror], hdetails,
            fun hready => by cases hstate.symm.trans hready⟩
      · right
        refine ⟨rfl, ?_⟩
        unfold Daemon.contentFetchFinished
        split <;> exact ⟨rfl, fun hready => by cases hready⟩
      · right
        refine ⟨rfl, ?_⟩
        unfold Daemon.applyFinished
        split <;> exact ⟨rfl, fun hready => by cases hready⟩
  | progress bytes =>
      obtain rfl := Option.some_inj.1 hstep
      unfold Daemon.updateProgress
      split <;> exact Or.inr ⟨rfl, rfl, Or.inl⟩
  | deploy worker =>
      simp only [Daemon.step] at hstep
      split at hstep
      · obtain rfl := Option.some_inj.1 hstep
        exact Or.inr ⟨rfl, rfl, Or.inl⟩
      · cases hstep

/-- `UpdateID` and `UpdateRefspec` change only when a poll comes to an end that has found an
update. -/
theorem update_of_step (h : daemon.Exclusive) (hstep : daemon.step event = some daemon') :
    (∃ info, foundBy ⟨daemon, event, daemon'⟩ = some info ∧
      daemon'.updater.updateId = some info.checksum ∧
      daemon'.updater.updateRefspec = some info.newRefspec ∧
      daemon.updater.state = .polling ∧ daemon'.updater.state ≠ .polling) ∨
    foundBy ⟨daemon, event, daemon'⟩ = none ∧
      daemon'.updater.updateId = daemon.updater.updateId ∧
      daemon'.updater.updateRefspec = daemon.updater.updateRefspec := by
  rcases details_of_step h hstep with ⟨info, hfound, -⟩ | ⟨hnone, hdetails, -⟩
  · refine .inl ⟨info, hfound, ?_⟩
    cases event with
    | finished worker outcome =>
        obtain ⟨task, hworkers, rfl, hstate, ⟨result, objects, rfl, hkind, rfl⟩ |
          ⟨data, result, rfl, -⟩ | ⟨data, result, rfl, -⟩⟩ := h.finished_inversion hstep
        · simp only [foundBy, hworkers, List.getElem?_cons_zero, Option.bind_some] at hfound
          -- the poll was not cancelled either
          have hresult : daemon.propagate task result = .ok (some info) := by
            split at hfound
            · next found heq => exact heq.trans (congrArg Except.ok hfound)
            · cases hfound
          obtain ⟨hoffer, hstate'⟩ :=
            Daemon.metadataFetchFinished_offer { daemon with workers := [] } objects hresult
          refine ⟨congrArg Offer.updateId hoffer, congrArg Offer.updateRefspec hoffer,
            hstate.trans (congrArg WorkerKind.state hkind), fun hpolling => ?_⟩
          rw [hpolling] at hstate'
          simp at hstate'
        · cases hfound
        · cases hfound
    | call | progress | deploy => cases hfound
  · exact .inr ⟨hnone, congrArg UpdateDetails.updateId hdetails,
      congrArg UpdateDetails.updateRefspec hdetails⟩

/-- Where a poll finds nothing, the daemon announces `Ready`. -/
theorem ready_of_findsNothing (h : daemon.Exclusive) (hstep : daemon.step event = some daemon')
    (hnothing : FindsNothing ⟨daemon, event, daemon'⟩) :
    foundBy ⟨daemon, event, daemon'⟩ = none ∧ daemon'.updater.state = .ready := by
  obtain ⟨worker, result, objects, task, rfl, htask, hfound⟩ := hnothing
  obtain ⟨hworkers, rfl, -⟩ := h.eq_singleton htask
  refine ⟨foundBy_finished hworkers result objects hfound, ?_⟩
  obtain ⟨task', hworkers', -, -, ⟨result', objects', heq, -, rfl⟩ | ⟨data, result', heq, -⟩ |
    ⟨data, result', heq, -⟩⟩ := h.finished_inversion hstep
  · obtain ⟨rfl, rfl⟩ := Outcome.metadata.inj heq
    obtain rfl : task = task' := List.singleton_injective (hworkers.symm.trans hworkers')
    have hfound' : { daemon with workers := [] }.propagate task result = .ok none := hfound
    rw [Daemon.metadataFetchFinished, hfound']
    rfl
  · cases heq
  · cases heq

/-! ### Runs -/

/-- What the details go back to: to nothing, until a poll finds an update. -/
structure DetailsOf (history : History (Daemon ρ) (Event ρ)) (daemon : Daemon ρ) : Prop where
  blank : latest foundBy history = none → daemon.updater.details.Blank
  updateId : ∀ info, latest foundBy history = some info →
    daemon.updater.updateId = some info.checksum

/-- **Runs.** -/
theorem detailsOf_of_run (hrun : Run Daemon.Started Daemon.step history daemon) :
    DetailsOf history daemon := by
  induction hrun with
  | start h => exact ⟨fun _ => h.blank, nofun⟩
  | next hrun hstep ih =>
      rcases details_of_step (consistent_of_run hrun).exclusive hstep with
        ⟨info, hfound, hid, -⟩ | ⟨hfound, hdetails, -⟩
      · refine ⟨fun hnone => ?_, fun info' hinfo => ?_⟩
        · rw [latest_cons_of_some hfound] at hnone
          cases hnone
        · rw [latest_cons_of_some hfound] at hinfo
          exact Option.some_inj.1 hinfo ▸ hid
      · refine ⟨fun hnone => ?_, fun info hinfo => ?_⟩
        · rw [latest_cons_of_none hfound] at hnone
          exact hdetails ▸ ih.blank hnone
        · rw [latest_cons_of_none hfound] at hinfo
          exact (congrArg UpdateDetails.updateId hdetails).trans (ih.updateId info hinfo)

/-- No poll of the run finds nothing after another one has found an update. -/
def NeverWithdrawn (history : History (Daemon ρ) (Event ρ)) : Prop :=
  ∀ recent τ past, history = recent ++ τ :: past → FindsNothing τ → latest foundBy past = none

/-- In such a run, no update has been found wherever the state is `Ready`. -/
theorem NeverWithdrawn.latest_foundBy (h : NeverWithdrawn history)
    (hrun : Run Daemon.Started Daemon.step history daemon)
    (hready : daemon.updater.state = .ready) : latest foundBy history = none := by
  induction hrun with
  | start _ => rfl
  | @next history s t event hrun hstep ih =>
      have hbefore : NeverWithdrawn history := fun recent τ past hpast =>
        h (_ :: recent) τ past (by rw [hpast]; rfl)
      rcases details_of_step (consistent_of_run hrun).exclusive hstep with
        ⟨info, -, -, hstate⟩ | ⟨hfound, -, hstate⟩
      -- a poll that finds an update does not end in `Ready`
      · exact absurd hready hstate
      · rw [latest_cons_of_none hfound]
        rcases hstate hready with hstate | hnothing
        · exact ih hbefore hstate
        -- the poll has found nothing, so nothing was found before it either
        · exact h [] _ history rfl hnothing

/-- **When `Ready` comes without details**: as long as no poll finds nothing after another one has
found an update. Where one does, the daemon announces `Ready` and keeps showing the update. -/
theorem blank_of_ready (hrun : Run Daemon.Started Daemon.step history daemon) :
    (NeverWithdrawn history → daemon.updater.state = .ready → daemon.updater.details.Blank) ∧
      ∀ recent τ past info, history = recent ++ τ :: past → FindsNothing τ →
        latest foundBy past = some info →
        τ.after.updater.state = .ready ∧ τ.after.updater.updateId = some info.checksum := by
  constructor
  · intro hnever hready
    exact (detailsOf_of_run hrun).blank (hnever.latest_foundBy hrun hready)
  · rintro recent τ past info rfl hnothing hfound
    obtain ⟨hpast, hstep⟩ := hrun.transition
    obtain ⟨hnone, hready⟩ :=
      ready_of_findsNothing (consistent_of_run hpast).exclusive hstep hnothing
    refine ⟨hready, (detailsOf_of_run (hpast.next hstep)).updateId info ?_⟩
    rw [latest_cons_of_none hnone]
    exact hfound

/-- Polls that return results, one after the other. -/
def polls (results : List (Option (EosUpdateInfo Unit))) : List (Event Unit) :=
  results.flatMap fun result =>
    [.call .poll, .finished 0 (.metadata (.ok result) ⟨.ok (), .ok []⟩)]

/-- Two polls that find nothing end in `Ready`, without details. -/
theorem polls_blank :
    ∃ history daemon,
      exec Daemon.step [] (Daemon.onBusAcquired (.ok "booted") true) (polls [none, none]) =
        some (history, daemon) ∧
      daemon.updater.state = .ready ∧ daemon.updater.details.Blank := by
  have hpolls : (exec Daemon.step [] (Daemon.onBusAcquired (.ok "booted") true)
      (polls [none, none])).map (fun run => (run.1.map foundBy, run.2.updater.state)) =
        some ([none, none, none, none], .ready) := by decide +kernel
  obtain ⟨⟨history, daemon⟩, hexec, hdaemon⟩ := Option.map_eq_some_iff.1 hpolls
  obtain ⟨hfound, hready⟩ := Prod.mk.inj hdaemon
  refine ⟨history, daemon, hexec, hready,
    (blank_of_ready (Run.of_exec (.start ⟨_, _, rfl⟩) hexec)).1 ?_ hready⟩
  rintro recent τ past rfl -
  refine List.findSome?_eq_none_iff.2 fun τ' hτ' => ?_
  have hmem : foundBy τ' ∈ [none, none, none, none] :=
    hfound ▸ List.mem_map_of_mem (List.mem_append_right _ (List.mem_cons_of_mem _ hτ'))
  simpa using hmem

/-- An update that is found and withdrawn again. -/
def withdrawnUpdate : List (Event Unit) :=
  polls [some
    { checksum := "update", commit := ⟨"", ""⟩, newRefspec := "eos:os", oldRefspec := "eos:os"
      version := none, urls := none, offlineResultsOnly := false, isUserVisible := true
      releaseNotesUri := none, results := some [()] }, none]

/-- The second poll finds nothing, and the daemon is `Ready` with the first one's `UpdateID`. -/
theorem withdrawnUpdate_shown :
    ∃ history daemon,
      exec Daemon.step [] (Daemon.onBusAcquired (.ok "booted") true) withdrawnUpdate =
        some (history, daemon) ∧
      daemon.updater.state = .ready ∧ daemon.updater.updateId = some "update" ∧
      ¬ daemon.updater.details.Blank := by
  have hshown : (exec Daemon.step [] (Daemon.onBusAcquired (.ok "booted") true)
      withdrawnUpdate).map (fun run => (run.2.updater.state, run.2.updater.updateId)) =
        some (.ready, some "update") := by decide +kernel
  obtain ⟨⟨history, daemon⟩, hexec, hdaemon⟩ := Option.map_eq_some_iff.1 hshown
  obtain ⟨hready, hid⟩ := Prod.mk.inj hdaemon
  refine ⟨history, daemon, hexec, hready, hid, fun hblank => ?_⟩
  rcases hblank.updateId with h | h
  · exact absurd (hid.symm.trans h) (by decide)
  · exact absurd (hid.symm.trans h) (by decide)

end Updater
