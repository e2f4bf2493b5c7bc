import EosUpdater.Avahi.ServiceFile

/-!
# Updating the advertisement

`eos-updater-avahi.c`: whether there is something to advertise, and then writing the service file or
deleting it. With it, `eos_updater_sysroot_get_advertisable_commit` of the utility library.

A service file that is there afterwards should be one that the call has just written (`UpToDate`).
The one exception is that of a file from an earlier call when the refs or the timestamp of the
summary cannot be read (`upToDate_iff`).
-/

namespace Avahi

open Euu Updater

/-! ### The sysroot -/

/-- The summary of a repository. -/
inductive Summary
  | corrupt
  /-- A summary, with its metadata `ostree.summary.last-modified`. -/
  | normalForm (lastModified : Option UInt64)
deriving DecidableEq, Repr

/-- What libostree and GLib answer in one call of `update_service_file`. -/
structure Sysroot where
  /-- `ostree_sysroot_load`. -/
  load : Except GError Unit
  /-- `ostree_sysroot_get_repo`, when looking for a commit. -/
  commitRepo : Except GError Unit
  /-- `eos_updater_get_booted_deployment_from_loaded_sysroot`. -/
  bootedDeployment : Except GError OstreeDeployment
  /-- `eos_updater_get_ostree_path`, by the name of the OS. -/
  ostreePath : String → Except GError String
  /-- `ostree_sysroot_get_deployments`. -/
  deployments : List OstreeDeployment
  /-- `ostree_repo_load_commit`: the timestamp of the commit. -/
  loadCommit : String → Except GError UInt64
  /-- `ostree_sysroot_get_repo`, when looking for refs. -/
  refsRepo : Except GError Unit
  /-- `ostree_repo_list_collection_refs`. -/
  listCollectionRefs : Except GError (List OstreeCollectionRef)
  /-- `g_file_load_contents` for the summary. -/
  loadSummary : Except GError Summary
  /-- `g_file_query_info` for the summary: its modification time. -/
  querySummary : Except GError UInt64
  /-- `g_date_time_new_from_unix_utc` accepts the timestamp. -/
  isDateTime : Int64 → Bool

/-- The variables of the loop over the deployments. -/
structure LatestCommit where
  checksum : Option String
  timestamp : UInt64
  loadCommitError : Option GError

/-- One iteration of the loop of `eos_updater_sysroot_get_advertisable_commit`. -/
def latestCommitStep (sysroot : Sysroot) (bootedOsname : String) (latest : LatestCommit)
    (deployment : OstreeDeployment) : LatestCommit :=
  if deployment.osname ≠ bootedOsname then latest
  else
    -- of the errors, the first one is kept
    match sysroot.loadCommit deployment.csum with
    | .error e => { latest with loadCommitError := some (latest.loadCommitError.getD e) }
    | .ok updateCommitTimestamp =>
        if latest.timestamp = 0 || updateCommitTimestamp > latest.timestamp then
          { latest with checksum := some deployment.csum, timestamp := updateCommitTimestamp }
        else latest

/-- What is advertised of a commit. -/
structure AdvertisableCommit where
  checksum : String
  ostreePath : String
  timestamp : UInt64

/-- `eos_updater_sysroot_get_advertisable_commit`. -/
def getAdvertisableCommit (sysroot : Sysroot) : Except Failure AdvertisableCommit := do
  let _ ← Ostree.check sysroot.commitRepo
  let booted ← Ostree.check sysroot.bootedDeployment
  let ostreePath ← Ostree.check (sysroot.ostreePath booted.osname)
  let latest := sysroot.deployments.foldl (latestCommitStep sysroot booted.osname) ⟨none, 0, none⟩
  if latest.timestamp = 0 then
    match latest.loadCommitError with
    | some e => throw (.error e)
    | none => throw .aborted
  else
    -- a commit that was found makes up for errors with others
    match latest.checksum with
    | some checksum => return ⟨checksum, ostreePath, latest.timestamp⟩
    | none => throw .aborted

/-! ### Refs and summary -/

/-- `get_refs`. -/
def getRefs (sysroot : Sysroot) : Except GError (List OstreeCollectionRef) := do
  let refs ← sysroot.listCollectionRefs
  if refs = [] then throw (failed "no refs to advertise")
  return refs

/-- `get_raw_summary_timestamp_from_metadata`. -/
def getRawSummaryTimestampFromMetadata : Summary → Except GError (Option UInt64)
  | .corrupt => .error ⟨.ioNotFound, "Corrupt summary file"⟩
  | .normalForm lastModified => .ok lastModified

/-- `get_summary_timestamp_from_guint64`. -/
def getSummaryTimestampFromGuint64 (sysroot : Sysroot) (modificationTimeSecs : UInt64) :
    Except GError Int64 :=
  if modificationTimeSecs > Int64.maxValue.toUInt64 ||
      !sysroot.isDateTime modificationTimeSecs.toInt64 then
    .error (failed ("Invalid timestamp " ++ toString modificationTimeSecs))
  else .ok modificationTimeSecs.toInt64

/-- `get_summary_timestamp`. -/
def getSummaryTimestamp (sysroot : Sysroot) : Except GError Int64 := do
  let summary ← sysroot.loadSummary
  match ← getRawSummaryTimestampFromMetadata summary with
  | some rawTimestamp => getSummaryTimestampFromGuint64 sysroot rawTimestamp
  | none =>
      match sysroot.querySummary with
      | .ok rawTimestamp => getSummaryTimestampFromGuint64 sysroot rawTimestamp
      | .error localError =>
          if localError.code ≠ .ioNotFound then throw localError
          else throw ⟨.ioNotFound, "No summary file found"⟩

/-- `get_refs_and_summary_timestamp`. -/
def getRefsAndSummaryTimestamp (sysroot : Sysroot) :
    Except GError (List OstreeCollectionRef × Int64) := do
  let _ ← sysroot.refsRepo
  let refs ← getRefs sysroot
  let summaryTimestamp ← getSummaryTimestamp sysroot
  return (refs, summaryTimestamp)

/-! ### The update -/

/-- How `update_service_file` ends. It returns `FALSE` with an error, or without one after a
programming error. -/
inductive Outcome
  | returned (result : Except (Option GError) Unit)
  | aborted
deriving DecidableEq, Repr

/-- The commit to advertise, if there is one. Errors only mean that there is none. -/
def advertisableCommit (sysroot : Sysroot) : Except Failure (Option AdvertisableCommit) :=
  match sysroot.load with
  | .error _ => .ok none
  | .ok () =>
      match getAdvertisableCommit sysroot with
      | .ok commit => .ok (some commit)
      | .error (.error _) => .ok none
      | .error .aborted => .error .aborted

/-- `update_service_file`. -/
def updateServiceFile (env : Environment) (sysroot : Sysroot) (io : DirectoryIO)
    (directory : Directory) (advertiseUpdates : Bool) : Outcome × Directory :=
  match advertisableCommit sysroot with
  | .error _ => (.aborted, directory)
  | .ok commit =>
      -- the file of the old format goes in any case, and errors with it are ignored
      let directory := (fileDelete io directory "eos-updater.service").2
      if advertiseUpdates && commit.isSome then
        match getRefsAndSummaryTimestamp sysroot with
        -- this failure leaves the service file alone
        | .error e => (.returned (.error (some e)), directory)
        | .ok (refs, summaryTimestamp) =>
            match serviceFileGenerate env io directory refs summaryTimestamp .default with
            | (.error e, directory) =>
                (.returned (.error e), (serviceFileDelete io directory 0).2)
            | (.ok (), directory) => (.returned (.ok ()), directory)
      else
        let deleted := serviceFileDelete io directory 0
        (.returned (deleted.1.mapError some), deleted.2)

/-- The service file that a call leaves, if it leaves one, is that which the call has written from
the refs and the summary as they are. -/
def UpToDate (env : Environment) (sysroot : Sysroot) (outcome : Outcome) (directory : Directory) :
    Prop :=
  ∀ contents, directory.lookup (ostreeServiceFile 0) = some contents →
    outcome = .returned (.ok ()) ∧
      ∃ refs summaryTimestamp, getRefsAndSummaryTimestamp sysroot = .ok (refs, summaryTimestamp) ∧
        serviceFileContents env refs summaryTimestamp .default = .ok contents

variable {env : Environment} {sysroot : Sysroot} {io : DirectoryIO} {directory : Directory}
variable {advertiseUpdates : Bool}

/-- The file of the old format has another name. -/
theorem lookup_delete_old : (fileDelete io directory "eos-updater.service").2.lookup
    (ostreeServiceFile 0) = directory.lookup (ostreeServiceFile 0) :=
  lookup_fileDelete_of_ne (by decide +kernel)

theorem upToDate_of_none {outcome : Outcome}
    (h : directory.lookup (ostreeServiceFile 0) = none) :
    UpToDate env sysroot outcome directory := by
  intro contents hcontents
  rw [h] at hcontents
  cases hcontents

/-- Without a commit to advertise, the file is deleted. -/
theorem upToDate_of_delete {commit : Option AdvertisableCommit}
    (hdelete : io.delete (ostreeServiceFile 0) = none)
    (hcommit : advertisableCommit sysroot = .ok commit)
    (hnot : (advertiseUpdates && commit.isSome) = false) :
    UpToDate env sysroot (updateServiceFile env sysroot io directory advertiseUpdates).1
      (updateServiceFile env sysroot io directory advertiseUpdates).2 := by
  refine upToDate_of_none ?_
  rw [updateServiceFile, hcommit]
  simp only [hnot, Bool.false_eq_true, if_false]
  exact lookup_deleteFileIfExists hdelete

/-- With a commit to advertise, and its refs and summary, the file is written or deleted. -/
theorem upToDate_of_generate {commit : AdvertisableCommit} {refs : List OstreeCollectionRef}
    {summaryTimestamp : Int64} (hdelete : io.delete (ostreeServiceFile 0) = none)
    (hcommit : advertisableCommit sysroot = .ok (some commit))
    (hrefs : getRefsAndSummaryTimestamp sysroot = .ok (refs, summaryTimestamp)) :
    UpToDate env sysroot (updateServiceFile env sysroot io directory true).1
      (updateServiceFile env sysroot io directory true).2 := by
  rw [updateServiceFile, hcommit]
  simp only [Bool.true_and, Option.isSome_some, if_true, hrefs]
  cases hgenerate : serviceFileGenerate env io (fileDelete io directory "eos-updater.service").2
      refs summaryTimestamp .default with
  | mk result directory' =>
      cases result with
      | error e => exact upToDate_of_none (lookup_deleteFileIfExists hdelete)
      | ok =>
          obtain ⟨contents, hcontents, hlookup⟩ := serviceFileGenerate_ok hgenerate
          intro contents' hcontents'
          have heq : contents' = contents := by
            rw [show Options.default.repositoryIndex.getD 0 = 0 from rfl] at hlookup
            exact Option.some_inj.1 (hcontents'.symm.trans hlookup)
          subst heq
          exact ⟨rfl, refs, summaryTimestamp, hrefs, hcontents⟩

/-- If the refs or the summary cannot be read, the file stays as it was. -/
theorem lookup_of_refs_error {commit : AdvertisableCommit} {e : GError}
    (hcommit : advertisableCommit sysroot = .ok (some commit))
    (hrefs : getRefsAndSummaryTimestamp sysroot = .error e) :
    (updateServiceFile env sysroot io directory true).2.lookup (ostreeServiceFile 0) =
      directory.lookup (ostreeServiceFile 0) := by
  rw [updateServiceFile, hcommit]
  simp only [Bool.true_and, Option.isSome_some, if_true, hrefs]
  exact lookup_delete_old

/-- **When the advertisement is up to date.** If deleting the service file works, a call that
returns leaves no other file than one it has written, unless updates are advertised and there is a
commit, and then reading the refs or the timestamp of the summary fails, and there was a file. -/
theorem upToDate_iff (env : Environment) (sysroot : Sysroot) (io : DirectoryIO)
    (directory : Directory) (advertiseUpdates : Bool)
    (hdelete : io.delete (ostreeServiceFile 0) = none)
    (hreturns : (updateServiceFile env sysroot io directory advertiseUpdates).1 ≠ .aborted) :
    UpToDate env sysroot (updateServiceFile env sysroot io directory advertiseUpdates).1
        (updateServiceFile env sysroot io directory advertiseUpdates).2 ↔
      ¬ (advertiseUpdates = true ∧ (∃ commit, advertisableCommit sysroot = .ok (some commit)) ∧
        (∃ e, getRefsAndSummaryTimestamp sysroot = .error e) ∧
        (directory.lookup (ostreeServiceFile 0)).isSome = true) := by
  constructor
  · rintro hup ⟨rfl, ⟨commit, hcommit⟩, ⟨e, hrefs⟩, hold⟩
    obtain ⟨contents, hcontents⟩ := Option.isSome_iff_exists.1 hold
    have hkept : (updateServiceFile env sysroot io directory true).2.lookup (ostreeServiceFile 0) =
        directory.lookup (ostreeServiceFile 0) := lookup_of_refs_error hcommit hrefs
    rw [← hkept] at hcontents
    obtain ⟨-, refs, summaryTimestamp, hread, -⟩ := hup contents hcontents
    rw [hrefs] at hread
    cases hread
  · intro hnot
    -- without a commit the file is deleted, and otherwise it depends on the refs and the summary
    cases hcommit : advertisableCommit sysroot with
    | error failure =>
        rw [updateServiceFile, hcommit] at hreturns
        exact absurd rfl hreturns
    | ok commit =>
        cases hpolicy : advertiseUpdates && commit.isSome with
        | false => exact upToDate_of_delete hdelete hcommit hpolicy
        | true =>
            rw [Bool.and_eq_true] at hpolicy
            obtain ⟨rfl, hsome⟩ := hpolicy
            obtain ⟨commit, rfl⟩ := Option.isSome_iff_exists.1 hsome
            cases hrefs : getRefsAndSummaryTimestamp sysroot with
            | ok read => exact upToDate_of_generate hdelete hcommit hrefs
            | error e =>
                refine upToDate_of_none ?_
                rw [lookup_of_refs_error hcommit hrefs, ← Option.not_isSome_iff_eq_none]
                exact fun hold => hnot ⟨rfl, ⟨commit, hcommit⟩, ⟨e, hrefs⟩, hold⟩

/-! ### A repository without refs -/

/-- A system that has booted a commit, with a summary in a repository with the given refs. -/
def bootedSysroot (refs : List OstreeCollectionRef) : Sysroot where
  load := .ok ()
  commitRepo := .ok ()
  bootedDeployment := .ok ⟨"eos", "c1", none⟩
  ostreePath _ := .ok "os/eos/amd64/eos3"
  deployments := [⟨"eos", "c1", none⟩]
  loadCommit _ := .ok 1
  refsRepo := .ok ()
  listCollectionRefs := .ok refs
  loadSummary := .ok (.normalForm (some 1500000000))
  querySummary := .ok 1500000000
  isDateTime _ := true

/-- The services directory after an earlier call. -/
def advertisedDirectory : Directory :=
  GHashTable.empty.replace (ostreeServiceFile 0) "<service-group>\n"

/-- A file that an earlier call has written is still there when there are no refs any more. -/
theorem stale_without_refs :
    (updateServiceFile sampleEnvironment (bootedSysroot []) .reliable advertisedDirectory true).1 =
        .returned (.error (some (failed "no refs to advertise"))) ∧
      ¬ UpToDate sampleEnvironment (bootedSysroot [])
        (updateServiceFile sampleEnvironment (bootedSysroot []) .reliable
          advertisedDirectory true).1
        (updateServiceFile sampleEnvironment (bootedSysroot []) .reliable
          advertisedDirectory true).2 := by
  refine ⟨rfl, fun hup => ?_⟩
  obtain ⟨houtcome, -⟩ := hup "<service-group>\n" (by decide +kernel)
  cases houtcome

/-- With a ref to advertise, the file of the earlier call is replaced. -/
theorem advertises_current :
    UpToDate sampleEnvironment (bootedSysroot [⟨"com.endlessm.Os", "eos3"⟩])
      (updateServiceFile sampleEnvironment (bootedSysroot [⟨"com.endlessm.Os", "eos3"⟩]) .reliable
        advertisedDirectory true).1
      (updateServiceFile sampleEnvironment (bootedSysroot [⟨"com.endlessm.Os", "eos3"⟩]) .reliable
        advertisedDirectory true).2 := by
  refine (upToDate_iff sampleEnvironment (bootedSysroot [⟨"com.endlessm.Os", "eos3"⟩]) .reliable
    advertisedDirectory true rfl (by decide +kernel)).2 ?_
  rintro ⟨-, -, ⟨e, hrefs⟩, -⟩
  cases hrefs

end Avahi
