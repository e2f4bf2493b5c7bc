import EosUpdater.Flatpak.Commit
import EosUpdater.Updater.PrepareFlatpaks
import EosUpdater.Updater.Schedule

/-!
# Fetching

`content_fetch`: once the scheduler allows it, pull the update, from the results of the finders if
there are any and else, or if this fails, from its remote; then pull the flatpaks that it needs. On
every way out the schedule entry is removed.

Both pulls are meant to be tried again without static deltas if some object was not found.
`repo_pull` does so; `repo_pull_from_remotes` clears the error first and then reads its message.
The fetch reads the message of an error that is not there once more, if an autoinstall file of the
commit has an entry with an invalid remote: reading the file fails then, but sets no error.
-/

namespace Updater

open Euu Machine Machine.Program

variable {σ ρ : Type}

/-! ### What a fetch uses -/

/-- The options of `ostree_repo_pull_with_options`, as far as fetches set them. -/
structure FetchPullOptions where
  refs : List String
  overrideUrl : Option String
  disableStaticDeltas : Bool
deriving DecidableEq, Repr

/-- What a fetch uses of libostree, libflatpak and the files of the system. -/
structure FetchServices (σ ρ : Type) where
  /-- `ostree_parse_refspec`: the remote, if there is one, and the ref. -/
  parseRefspec : String → Except GError (Option String × String)
  /-- `g_random_int_range` from zero. -/
  randomInt : σ → ℕ → ℕ
  /-- `ostree_repo_pull_with_options`. -/
  pullWithOptions : String → FetchPullOptions → σ → Except GError Unit × σ
  /-- `ostree_repo_read_commit`. -/
  readCommit : σ → String → Except GError Unit
  /-- `ostree_repo_pull_from_remotes_async`, until it has finished, and whether static deltas are
  disabled. -/
  pullFromRemotes : List ρ → Bool → σ → Except GError Unit × σ
  /-- `euu_flatpak_ref_actions_from_ostree_commit`. -/
  refActionsFromOstreeCommit : σ → Option String → Except ReadFailure RefActionsTable
  /-- `euu_flatpak_ref_action_application_progress_in_state_path`. -/
  refActionApplicationProgress : σ → Except GError Progresses
  /-- `eos_updater_get_flatpak_installation`. -/
  openInstallation : σ → Except GError Unit
  installation : FlatpakInstallation σ

/-- An installation whose transactions are recorded as transfers of a fetch. -/
def recording (installation : FlatpakInstallation σ) : FlatpakInstallation (FetchState σ) where
  getInstalledRef s := installation.getInstalledRef s.world
  repoRemotes s := installation.repoRemotes s.world
  listRemotes s := installation.listRemotes s.world
  transactionNew s := installation.transactionNew s.world
  transactionAdd s := installation.transactionAdd s.world
  transactionReady s := installation.transactionReady s.world
  transactionRun s transaction handler :=
    let run := installation.transactionRun s.world transaction handler
    (run.1, run.2.1, { s.start (.flatpak transaction) with world := run.2.2 })

namespace FetchServices

variable (services : FetchServices σ ρ) (fetchData : FetchData) (data : EosUpdaterData ρ)

/-! ### The pulls -/

/-- `get_options_for_pull`. -/
def getOptionsForPull (ref : String) (urlOverride : Option String) (disableStaticDeltas : Bool) :
    FetchPullOptions :=
  ⟨[ref], urlOverride, disableStaticDeltas⟩

/-- Pull from a remote. -/
def pullRemote (remoteName : String) (options : FetchPullOptions) :
    Program (FetchState σ) Crash (Except GError Unit) :=
  .perform fun s =>
    let pulled := services.pullWithOptions remoteName options s.world
    (.ok pulled.1, { s.start (.remote remoteName options.overrideUrl) with world := pulled.2 })

/-- Pull from the results of finders. -/
def pullResults (results : List ρ) (disableStaticDeltas : Bool) :
    Program (FetchState σ) Crash (Except GError Unit) :=
  .perform fun s =>
    let pulled := services.pullFromRemotes results disableStaticDeltas s.world
    (.ok pulled.1, { s.start .results with world := pulled.2 })

/-- `repo_pull`. -/
def repoPull (remoteName ref : String) (urlOverride : Option String) :
    Program (FetchState σ) Crash Returned := do
  match ← services.pullRemote remoteName (getOptionsForPull ref urlOverride false) with
  | .ok () => return .success
  | .error localError =>
      if localError.code ≠ .ioNotFound then return .failure localError
      else do
        let _ ← readMessage (some localError)
        return .of (← services.pullRemote remoteName (getOptionsForPull ref urlOverride true))

/-- `repo_pull_from_remotes`. -/
def repoPullFromRemotes (results : List ρ) : Program (FetchState σ) Crash Returned := do
  match ← services.pullResults results false with
  | .ok () => return .success
  | .error localError =>
      if localError.code ≠ .ioNotFound then return .failure localError
      else do
        -- `local_error` has been cleared by the time its message is read
        let _ ← readMessage none
        return .of (← services.pullResults results true)

/-- `content_fetch_new`. -/
def contentFetchNew (results : List ρ) : Program (FetchState σ) Crash Returned :=
  services.repoPullFromRemotes results

/-- `G_IO_ERROR_NOT_SUPPORTED`. -/
def notSupported (message : String) : GError := ⟨.other "g-io-error-quark" 15, message⟩

/-- The remote and the commit that `content_fetch_old` pulls. -/
def fetchArguments : Except GError (String × String) := do
  let some refspec := fetchData.updateRefspec.filter (· ≠ "")
    | throw (notSupported "fetch called with empty update refspec")
  let (remote, _) ← services.parseRefspec refspec
  let some remote := remote
    | throw (notSupported ("fetch called with invalid refspec ‘" ++ refspec ++
        "’: did not contain a remote name"))
  let some commitId := fetchData.updateId.filter (· ≠ "")
    | throw (notSupported "fetch called with empty update commit")
  return (remote, commitId)

/-- The URL that overrides the one of the remote: any of those that there are. -/
def urlOverride (s : σ) : Option String :=
  data.overriddenUrls.bind fun urls => urls[services.randomInt s urls.length]?

/-- `content_fetch_old`. -/
def contentFetchOld : Program (FetchState σ) Crash Returned :=
  match services.fetchArguments fetchData with
  | .error e => return .failure e
  | .ok (remote, commitId) => do
      let url ← .query fun s => .ok (services.urlOverride data s.world)
      let pulled ← services.repoPull remote commitId url
      if pulled.value = false then return pulled
      else .query fun s => .ok (.of (services.readCommit s.world commitId))

/-- `prepare_flatpaks_to_deploy`. -/
def prepareFlatpaks : Program (FetchState σ) Crash Returned :=
  .perform fun s =>
    let pulled := prepareFlatpaksToDeploy
      (services.refActionsFromOstreeCommit s.world fetchData.updateId)
      (services.refActionApplicationProgress s.world) (services.openInstallation s.world)
      (recording services.installation) s
    match pulled.result with
    | .ok () => (.ok .success, pulled.state)
    | .error (.unread (.error e)) | .error (.failed (.error e)) =>
        (.ok (.failure e), pulled.state)
    -- `FALSE` is returned, but no error has been set
    | .error (.unread .unset) => (.ok ⟨false, none⟩, pulled.state)
    | .error (.unread .undefined) => (.error .undefined, pulled.state)
    | .error (.failed .aborted) => (.error .assertion, pulled.state)

/-! ### The fetch -/

variable (scheduler : DownloadScheduler)

/-- `content_fetch`, from the label `error`. -/
def contentFetchError (localError : Option GError) : Program (FetchState σ) Crash Returned := do
  logFailure (← unscheduleDownload scheduler)
  return ⟨false, localError⟩

/-- `content_fetch`, once the update has been pulled. -/
def contentFetchFlatpaks : Program (FetchState σ) Crash Returned := do
  let prepared ← services.prepareFlatpaks fetchData
  if prepared.value = false then do
    logFailure prepared
    contentFetchError scheduler prepared.error
  else do
    logFailure (← unscheduleDownload scheduler)
    return .success

/-- `content_fetch`, for the old code and what comes after it. -/
def contentFetchFallback : Program (FetchState σ) Crash Returned := do
  let pulled ← services.contentFetchOld fetchData data
  if pulled.value = false then do
    logFailure pulled
    contentFetchError scheduler pulled.error
  else services.contentFetchFlatpaks fetchData scheduler

/-- `content_fetch`, once the scheduler has been checked. -/
def contentFetchPull : Program (FetchState σ) Crash Returned :=
  match data.results with
  | none => services.contentFetchFallback fetchData data scheduler
  | some results => do
      let pulled ← services.contentFetchNew results
      -- a cancelled pull ends the fetch; after any other error the old code is tried
      if pulled.value = false ∧ pulled.error.map (·.code) = some .ioCancelled then
        contentFetchError scheduler pulled.error
      else do
        logFailure pulled
        if pulled.error ≠ none then services.contentFetchFallback fetchData data scheduler
        else services.contentFetchFlatpaks fetchData scheduler

/-- `content_fetch`. -/
def contentFetch : Program (FetchState σ) Crash Returned := do
  let checked ← checkScheduler scheduler fetchData data.offlineResultsOnly
  if checked.value = false then return checked
  else services.contentFetchPull fetchData data scheduler

end FetchServices

/-! ### Pulls and the schedule entry -/

/-- What pulling leaves as it is: the schedule entry and what the scheduler has said. The transfers
that are started meanwhile are started with its permission or without. -/
structure PullsOnly (s t : FetchState σ) : Prop where
  scheduleEntry : t.scheduleEntry = s.scheduleEntry
  created : t.created = s.created
  removed : t.removed = s.removed
  downloadNow : t.downloadNow = s.downloadNow
  transfers : ∃ started, t.transfers = started ++ s.transfers ∧
    ∀ transfer ∈ started, transfer.downloadNow = s.downloadNow

/-- Doing nothing only pulls. -/
instance : Std.Refl (PullsOnly (σ := σ)) := ⟨fun _ => ⟨rfl, rfl, rfl, rfl, [], rfl, nofun⟩⟩

/-- Two parts that only pull do so together. -/
instance : IsTrans (FetchState σ) PullsOnly where
  trans s t u h h' := by
    obtain ⟨started, hstarted, hnow⟩ := h.transfers
    obtain ⟨started', hstarted', hnow'⟩ := h'.transfers
    refine ⟨h'.scheduleEntry.trans h.scheduleEntry, h'.created.trans h.created,
      h'.removed.trans h.removed, h'.downloadNow.trans h.downloadNow, started' ++ started,
      by rw [hstarted', hstarted, List.append_assoc], fun transfer htransfer => ?_⟩
    rcases List.mem_append.1 htransfer with hmem | hmem
    · exact (hnow' transfer hmem).trans h.downloadNow
    · exact hnow transfer hmem

/-- To start a transfer pulls only. -/
theorem pullsOnly_start (s : FetchState σ) (transfer : Transfer) (world : σ) :
    PullsOnly s { s.start transfer with world } :=
  ⟨rfl, rfl, rfl, rfl, [⟨transfer, s.downloadNow⟩], rfl, by simp⟩

namespace FetchServices

variable {services : FetchServices σ ρ} {fetchData : FetchData} {data : EosUpdaterData ρ}
  {scheduler : DownloadScheduler} {s t : FetchState σ} {result : Except Crash Returned}

theorem keeps_pullRemote (remoteName : String) (options : FetchPullOptions) :
    Keeps PullsOnly (services.pullRemote remoteName options) :=
  keeps_perform fun s => pullsOnly_start s _ _

theorem keeps_pullResults (results : List ρ) (disableStaticDeltas : Bool) :
    Keeps PullsOnly (services.pullResults results disableStaticDeltas) :=
  keeps_perform fun s => pullsOnly_start s _ _

theorem keeps_readMessage (error : Option GError) :
    Keeps PullsOnly (readMessage error : Program (FetchState σ) Crash String) := by
  cases error with
  | none => exact keeps_throw _
  | some e => exact keeps_pure _

theorem keeps_repoPull (remoteName ref : String) (urlOverride : Option String) :
    Keeps PullsOnly (services.repoPull remoteName ref urlOverride) := by
  refine (keeps_pullRemote _ _).bind fun pulled => ?_
  split
  · exact keeps_pure _
  split
  · exact keeps_pure _
  · exact (keeps_readMessage _).bind fun _ => (keeps_pullRemote _ _).bind fun _ => keeps_pure _

theorem keeps_contentFetchNew (results : List ρ) :
    Keeps PullsOnly (services.contentFetchNew results) := by
  refine (keeps_pullResults _ _).bind fun pulled => ?_
  split
  · exact keeps_pure _
  split
  · exact keeps_pure _
  · exact (keeps_readMessage _).bind fun _ => (keeps_pullResults _ _).bind fun _ => keeps_pure _

theorem keeps_contentFetchOld : Keeps PullsOnly (services.contentFetchOld fetchData data) := by
  unfold contentFetchOld
  split
  · exact keeps_pure _
  · refine (keeps_query _).bind fun url => (keeps_repoPull _ _ _).bind fun pulled => ?_
    split
    · exact keeps_pure _
    · exact keeps_query _

theorem keeps_prepareFlatpaks : Keeps PullsOnly (services.prepareFlatpaks fetchData) := by
  refine keeps_perform fun s => ?_
  have hkeeps := prepareFlatpaksToDeploy_keeps (recording services.installation)
    (fun s transaction _ => pullsOnly_start s _ _)
    (services.refActionsFromOstreeCommit s.world fetchData.updateId)
    (services.refActionApplicationProgress s.world) (services.openInstallation s.world) s
  dsimp only
  split <;> exact hkeeps

/-! ### Trying again without static deltas -/

/-- What both pulls are meant to do: try once more, without static deltas, if some object was not
found, and report what the last attempt comes to. -/
def retryWithoutDeltas (pull : Bool → Program (FetchState σ) Crash (Except GError Unit)) :
    Program (FetchState σ) Crash Returned := do
  match ← pull false with
  | .ok () => return .success
  | .error e => if e.code = .ioNotFound then return .of (← pull true) else return .failure e

/-- `repo_pull` tries again. -/
theorem repoPull_eq (services : FetchServices σ ρ) (remoteName ref : String)
    (urlOverride : Option String) :
    services.repoPull remoteName ref urlOverride = retryWithoutDeltas fun disableStaticDeltas =>
      services.pullRemote remoteName (getOptionsForPull ref urlOverride disableStaticDeltas) := by
  unfold repoPull retryWithoutDeltas
  refine bind_congr fun pulled => ?_
  cases pulled with
  | ok _ => rfl
  | error e => by_cases h : e.code = .ioNotFound <;> simp [h, readMessage]

/-- The first pull from the results fails because some object is not found. -/
def MissesObject (services : FetchServices σ ρ) (results : List ρ) (world : σ) : Prop :=
  ∃ e, (services.pullFromRemotes results false world).1 = .error e ∧ e.code = .ioNotFound

/-- What `repo_pull_from_remotes` comes to if some object is not found. -/
theorem ends_repoPullFromRemotes_of_missesObject {results : List ρ}
    (h : services.MissesObject results s.world) :
    (services.repoPullFromRemotes results).Ends s (.error .nullRead)
      { s.start .results with world := (services.pullFromRemotes results false s.world).2 } := by
  obtain ⟨e, he, hcode⟩ := h
  refine (ends_bind_of_ok (ends_perform.2 rfl)).2 ?_
  simp only [he, hcode, ne_eq, not_true_eq_false, if_false]
  exact ends_bind_error.2 (Or.inl (ends_throw.2 ⟨rfl, rfl⟩))

/-- What it comes to otherwise. -/
theorem ends_repoPullFromRemotes_of_not_missesObject {results : List ρ}
    (h : ¬ services.MissesObject results s.world) :
    (services.repoPullFromRemotes results).Ends s
      (.ok (.of (services.pullFromRemotes results false s.world).1))
      { s.start .results with world := (services.pullFromRemotes results false s.world).2 } := by
  refine (ends_bind_of_ok (ends_perform.2 rfl)).2 ?_
  dsimp only
  cases hpull : (services.pullFromRemotes results false s.world).1 with
  | ok _ => exact ends_pure.2 ⟨rfl, rfl⟩
  | error e =>
      have hcode : e.code ≠ .ioNotFound := fun hcode => h ⟨e, hpull, hcode⟩
      simp only [if_pos hcode]
      exact ends_pure.2 ⟨rfl, rfl⟩

/-- Trying again comes to the same then, as there is no second attempt. -/
theorem ends_retryWithoutDeltas_of_not_missesObject {results : List ρ}
    (h : ¬ services.MissesObject results s.world) :
    (retryWithoutDeltas (services.pullResults results)).Ends s
      (.ok (.of (services.pullFromRemotes results false s.world).1))
      { s.start .results with world := (services.pullFromRemotes results false s.world).2 } := by
  refine (ends_bind_of_ok (ends_perform.2 rfl)).2 ?_
  dsimp only
  cases hpull : (services.pullFromRemotes results false s.world).1 with
  | ok _ => exact ends_pure.2 ⟨rfl, rfl⟩
  | error e =>
      have hcode : e.code ≠ .ioNotFound := fun hcode => h ⟨e, hpull, hcode⟩
      simp only [if_neg hcode]
      exact ends_pure.2 ⟨rfl, rfl⟩

/-- `repo_pull_from_remotes` does what it is meant to do unless some object is not found. -/
theorem repoPullFromRemotes_retries_iff {results : List ρ} :
    (∀ result t, (services.repoPullFromRemotes results).Ends s result t ↔
      (retryWithoutDeltas (services.pullResults results)).Ends s result t) ↔
      ¬ services.MissesObject results s.world := by
  constructor
  · intro hretries hmisses
    -- the retry would return, whatever it comes to
    have hcrash := (hretries _ _).1 (ends_repoPullFromRemotes_of_missesObject hmisses)
    obtain ⟨e, he, hcode⟩ := hmisses
    have hrest := (ends_bind_of_ok (ends_perform.2 rfl)).1 hcrash
    simp only [he, hcode, if_true] at hrest
    rcases ends_bind_error.1 hrest with hpull | ⟨pulled, s', -, hpure⟩
    · cases ends_perform.1 hpull
    · cases (ends_pure.1 hpure).1
  · intro hfound result t
    -- both come to what the first attempt returns
    have hretry := ends_retryWithoutDeltas_of_not_missesObject hfound
    have hpull := ends_repoPullFromRemotes_of_not_missesObject hfound
    constructor
    · intro hend
      obtain ⟨rfl, rfl⟩ := hpull.unique hend
      exact hretry
    · intro hend
      obtain ⟨rfl, rfl⟩ := hretry.unique hend
      exact hpull

/-! ### What the parts of a fetch return -/

/-- A program returns, if it ends, and sets an error exactly if it returns `FALSE`. -/
def Returns (program : Program (FetchState σ) Crash Returned) : Prop :=
  ∀ s result t, program.Ends s result t → ∃ returned, result = .ok returned ∧ returned.Consistent

theorem returns_pure {returned : Returned} (h : returned.Consistent) :
    Returns (pure returned : Program (FetchState σ) Crash Returned) := by
  intro s result t hend
  exact ⟨returned, (ends_pure.1 hend).1, h⟩

/-- The older pull returns consistently. -/
theorem returns_repoPull (remoteName ref : String) (urlOverride : Option String) :
    Returns (services.repoPull remoteName ref urlOverride) := by
  intro s result t hend
  have hrest := (ends_bind_of_ok (ends_perform.2 rfl)).1 hend
  split at hrest
  · exact returns_pure Returned.consistent_success _ _ _ hrest
  split at hrest
  · exact returns_pure (Returned.consistent_failure _) _ _ _ hrest
  · have hretry := (ends_bind_of_ok (ends_perform.2 rfl)).1
      ((ends_bind_of_ok (ends_pure.2 ⟨rfl, rfl⟩)).1 hrest)
    exact returns_pure (Returned.consistent_of _) _ _ _ hretry

/-- The older fetch returns consistently. -/
theorem returns_contentFetchOld : Returns (services.contentFetchOld fetchData data) := by
  intro s result t hend
  unfold contentFetchOld at hend
  split at hend
  · exact returns_pure (Returned.consistent_failure _) _ _ _ hend
  · have hrest := (ends_bind_of_ok (ends_query.2 ⟨rfl, rfl⟩)).1 hend
    rcases ends_bind.1 hrest with ⟨crash, hpull, -⟩ | ⟨pulled, s', hpull, hrest⟩
    · obtain ⟨_, heq, -⟩ := returns_repoPull _ _ _ _ _ _ hpull
      cases heq
    obtain ⟨_, heq, hconsistent⟩ := returns_repoPull _ _ _ _ _ _ hpull
    obtain rfl := Except.ok.inj heq
    split at hrest
    · exact returns_pure hconsistent _ _ _ hrest
    · exact ⟨_, (ends_query.1 hrest).1, Returned.consistent_of _⟩

/-- The autoinstall files of the commit cannot be read, and no error is set, or it is undefined
what reading them does. -/
def Misreads (services : FetchServices σ ρ) (fetchData : FetchData) (world : σ) : Prop :=
  services.refActionsFromOstreeCommit world fetchData.updateId = .error .unset ∨
    services.refActionsFromOstreeCommit world fetchData.updateId = .error .undefined

/-- The preparation of the flatpaks returns, unless one of its assertions fails or it is undefined
what it does, and sets an error if it fails, unless the files are not read. -/
theorem prepareFlatpaks_cases (h : (services.prepareFlatpaks fetchData).Ends s result t) :
    services.Misreads fetchData s.world ∧
        (result = .ok ⟨false, none⟩ ∨ result = .error .undefined) ∨
      ¬ services.Misreads fetchData s.world ∧
        (result = .error .assertion ∨ ∃ returned, result = .ok returned ∧ returned.Consistent) := by
  have heq := congrArg Prod.fst (ends_perform.1 h)
  dsimp only at heq
  have hread : ∀ {outcome : Except PreparationFailure Unit},
      (prepareFlatpaksToDeploy (services.refActionsFromOstreeCommit s.world fetchData.updateId)
        (services.refActionApplicationProgress s.world) (services.openInstallation s.world)
        (recording services.installation) s).result = outcome →
      (services.Misreads fetchData s.world ↔ outcome = .error (.unread .unset) ∨
        outcome = .error (.unread .undefined)) := by
    rintro _ rfl
    rw [prepareFlatpaksToDeploy_eq_unread, prepareFlatpaksToDeploy_eq_unread]
    exact Iff.rfl
  split at heq
  · next hresult =>
      exact Or.inr ⟨by simp [hread hresult], Or.inr ⟨_, heq.symm, Returned.consistent_success⟩⟩
  · next hresult =>
      exact Or.inr ⟨by simp [hread hresult], Or.inr ⟨_, heq.symm, Returned.consistent_failure _⟩⟩
  · next hresult =>
      exact Or.inr ⟨by simp [hread hresult], Or.inr ⟨_, heq.symm, Returned.consistent_failure _⟩⟩
  · next hresult => exact Or.inl ⟨(hread hresult).2 (Or.inl rfl), Or.inl heq.symm⟩
  · next hresult => exact Or.inl ⟨(hread hresult).2 (Or.inr rfl), Or.inr heq.symm⟩
  · next hresult => exact Or.inr ⟨by simp [hread hresult], Or.inl heq.symm⟩

/-- The pull from the results returns, unless some object is not found. -/
theorem contentFetchNew_cases {results : List ρ}
    (h : (services.contentFetchNew results).Ends s result t) :
    services.MissesObject results s.world ∧ result = .error .nullRead ∨
      ¬ services.MissesObject results s.world ∧
        ∃ returned, result = .ok returned ∧ returned.Consistent := by
  by_cases hmisses : services.MissesObject results s.world
  · exact Or.inl ⟨hmisses, ((ends_repoPullFromRemotes_of_missesObject hmisses).unique h).1.symm⟩
  · exact Or.inr ⟨hmisses, _,
      ((ends_repoPullFromRemotes_of_not_missesObject hmisses).unique h).1.symm,
      Returned.consistent_of _⟩

/-! ### Runs -/

section Runs

variable (services : FetchServices σ ρ) (fetchData : FetchData) (data : EosUpdaterData ρ)
  (scheduler : DownloadScheduler)

/-- The old code is reached: there are no results, or the pull from them has failed and was not
cancelled. -/
def FallsBack (s t : FetchState σ) : Prop :=
  (data.results = none ∧ t = s) ∨
    ∃ results e, data.results = some results ∧
      (services.contentFetchNew results).Ends s (.ok (.failure e)) t ∧ e.code ≠ .ioCancelled

/-- One of the pull paths succeeds. -/
def PullSucceeds (s t : FetchState σ) : Prop :=
  (∃ results, data.results = some results ∧
    (services.contentFetchNew results).Ends s (.ok .success) t) ∨
  ∃ s', services.FallsBack data s s' ∧
    (services.contentFetchOld fetchData data).Ends s' (.ok .success) t

/-- What a fetch comes to: it is refused by the scheduler, a pull crashes, is cancelled or fails for
good, or the flatpaks are not prepared, with an error, without one or in a crash, or are. -/
inductive Fetched (s : FetchState σ) : Except Crash Returned → FetchState σ → Prop
  | refused {e : GError} {t : FetchState σ}
      (hchecked : (checkScheduler scheduler fetchData data.offlineResultsOnly).Ends s
        (.ok (.failure e)) t) :
      Fetched s (.ok (.failure e)) t
  | crashed {s₁ t : FetchState σ} {results : List ρ}
      (hchecked : (checkScheduler scheduler fetchData data.offlineResultsOnly).Ends s
        (.ok .success) s₁)
      (hresults : data.results = some results)
      (hpull : (services.contentFetchNew results).Ends s₁ (.error .nullRead) t) :
      Fetched s (.error .nullRead) t
  | cancelled {s₁ s₂ : FetchState σ} {results : List ρ} {e : GError}
      (hchecked : (checkScheduler scheduler fetchData data.offlineResultsOnly).Ends s
        (.ok .success) s₁)
      (hresults : data.results = some results)
      (hpull : (services.contentFetchNew results).Ends s₁ (.ok (.failure e)) s₂)
      (hcode : e.code = .ioCancelled) :
      Fetched s (.ok (.failure e)) s₂.removeEntry
  | failed {s₁ s₂ s₃ : FetchState σ} {e : GError}
      (hchecked : (checkScheduler scheduler fetchData data.offlineResultsOnly).Ends s
        (.ok .success) s₁)
      (hfallback : services.FallsBack data s₁ s₂)
      (hpull : (services.contentFetchOld fetchData data).Ends s₂ (.ok (.failure e)) s₃) :
      Fetched s (.ok (.failure e)) s₃.removeEntry
  | notPrepared {s₁ s₂ s₃ : FetchState σ} {e : GError}
      (hchecked : (checkScheduler scheduler fetchData data.offlineResultsOnly).Ends s
        (.ok .success) s₁)
      (hpull : services.PullSucceeds fetchData data s₁ s₂)
      (hprepare : (services.prepareFlatpaks fetchData).Ends s₂ (.ok (.failure e)) s₃) :
      Fetched s (.ok (.failure e)) s₃.removeEntry
  | unread {s₁ s₂ s₃ : FetchState σ}
      (hchecked : (checkScheduler scheduler fetchData data.offlineResultsOnly).Ends s
        (.ok .success) s₁)
      (hpull : services.PullSucceeds fetchData data s₁ s₂)
      (hprepare : (services.prepareFlatpaks fetchData).Ends s₂ (.ok ⟨false, none⟩) s₃) :
      Fetched s (.error .nullRead) s₃
  | aborted {s₁ s₂ s₃ : FetchState σ} {crash : Crash}
      (hchecked : (checkScheduler scheduler fetchData data.offlineResultsOnly).Ends s
        (.ok .success) s₁)
      (hpull : services.PullSucceeds fetchData data s₁ s₂)
      (hprepare : (services.prepareFlatpaks fetchData).Ends s₂ (.error crash) s₃) :
      Fetched s (.error crash) s₃
  | fetched {s₁ s₂ s₃ : FetchState σ}
      (hchecked : (checkScheduler scheduler fetchData data.offlineResultsOnly).Ends s
        (.ok .success) s₁)
      (hpull : services.PullSucceeds fetchData data s₁ s₂)
      (hprepare : (services.prepareFlatpaks fetchData).Ends s₂ (.ok .success) s₃) :
      Fetched s (.ok .success) s₃.removeEntry

variable {services fetchData data scheduler} {s₁ s₂ : FetchState σ}

/-- The label `error` hands the error over and removes the entry. -/
theorem ends_contentFetchError {localError : Option GError}
    (h : (contentFetchError scheduler localError).Ends s result t) :
    result = .ok ⟨false, localError⟩ ∧ t = s.removeEntry := by
  obtain ⟨returned, hreturned, hend⟩ := ends_unscheduleDownload scheduler s
  have hrest := (ends_bind_of_ok ((ends_logFailure hreturned).2 ⟨rfl, rfl⟩)).1
    ((ends_bind_of_ok hend).1 h)
  exact ends_pure.1 hrest

/-- Once one of the pull paths has succeeded. -/
theorem fetched_of_contentFetchFlatpaks
    (hchecked : (checkScheduler scheduler fetchData data.offlineResultsOnly).Ends s
      (.ok .success) s₁)
    (hpull : services.PullSucceeds fetchData data s₁ s₂)
    (h : (services.contentFetchFlatpaks fetchData scheduler).Ends s₂ result t) :
    services.Fetched fetchData data scheduler s result t := by
  rcases ends_bind.1 h with ⟨crash, hprepare, rfl⟩ | ⟨prepared, s₃, hprepare, hrest⟩
  · exact .aborted hchecked hpull hprepare
  · rcases prepareFlatpaks_cases hprepare with
      ⟨-, heq | heq⟩ | ⟨-, heq | ⟨_, heq, hconsistent⟩⟩
    · -- the message of the error is read that has not been set
      obtain rfl := Except.ok.inj heq
      rcases ends_bind.1 hrest with ⟨crash, hlog, rfl⟩ | ⟨_, _, hlog, -⟩
      · obtain ⟨heq, rfl⟩ := ends_logFailure_unset.1 hlog
        obtain rfl := Except.error.inj heq
        exact .unread hchecked hpull hprepare
      · cases (ends_logFailure_unset.1 hlog).1
    · cases heq
    · cases heq
    obtain rfl := Except.ok.inj heq
    -- an error of the preparation is set, so that its message can be read
    rcases hconsistent.eq with rfl | ⟨e, rfl⟩
    · obtain ⟨returned, hreturned, hend⟩ := ends_unscheduleDownload scheduler s₃
      have hlogged := (ends_bind_of_ok ((ends_logFailure hreturned).2 ⟨rfl, rfl⟩)).1
        ((ends_bind_of_ok hend).1 hrest)
      obtain ⟨rfl, rfl⟩ := ends_pure.1 hlogged
      exact .fetched hchecked hpull hprepare
    · obtain ⟨rfl, rfl⟩ := ends_contentFetchError
        ((ends_bind_of_ok ((ends_logFailure hconsistent).2 ⟨rfl, rfl⟩)).1 hrest)
      exact .notPrepared hchecked hpull hprepare

/-- Once the old code is reached. -/
theorem fetched_of_contentFetchFallback
    (hchecked : (checkScheduler scheduler fetchData data.offlineResultsOnly).Ends s
      (.ok .success) s₁)
    (hfallback : services.FallsBack data s₁ s₂)
    (h : (services.contentFetchFallback fetchData data scheduler).Ends s₂ result t) :
    services.Fetched fetchData data scheduler s result t := by
  rcases ends_bind.1 h with ⟨crash, hpull, -⟩ | ⟨pulled, s₃, hpull, hrest⟩
  · obtain ⟨_, heq, -⟩ := returns_contentFetchOld _ _ _ hpull
    cases heq
  · obtain ⟨_, heq, hconsistent⟩ := returns_contentFetchOld _ _ _ hpull
    obtain rfl := Except.ok.inj heq
    rcases hconsistent.eq with rfl | ⟨e, rfl⟩
    · exact fetched_of_contentFetchFlatpaks hchecked (Or.inr ⟨s₂, hfallback, hpull⟩) hrest
    · obtain ⟨rfl, rfl⟩ := ends_contentFetchError
        ((ends_bind_of_ok ((ends_logFailure hconsistent).2 ⟨rfl, rfl⟩)).1 hrest)
      exact .failed hchecked hfallback hpull

/-- **Fetches.** A fetch that ends is one of these. -/
theorem fetched_of_ends (h : (services.contentFetch fetchData data scheduler).Ends s result t) :
    services.Fetched fetchData data scheduler s result t := by
  rcases ends_bind.1 h with ⟨crash, hcheck, -⟩ | ⟨checked, s₁, hcheck, hrest⟩
  · obtain ⟨_, heq, -⟩ := checked_of_ends hcheck
    cases heq
  obtain ⟨_, heq, hchecked⟩ := checked_of_ends hcheck
  obtain rfl := Except.ok.inj heq
  rcases hchecked.consistent.eq with rfl | ⟨e, rfl⟩
  · replace hrest : (services.contentFetchPull fetchData data scheduler).Ends s₁ result t := hrest
    unfold contentFetchPull at hrest
    cases hresults : data.results with
    | none =>
        rw [hresults] at hrest
        exact fetched_of_contentFetchFallback hcheck (Or.inl ⟨hresults, rfl⟩) hrest
    | some results =>
        rw [hresults] at hrest
        rcases ends_bind.1 hrest with ⟨crash, hpull, rfl⟩ | ⟨pulled, s₂, hpull, hrest⟩
        · rcases contentFetchNew_cases hpull with ⟨-, heq⟩ | ⟨-, _, heq, -⟩
          · obtain rfl := Except.error.inj heq
            exact .crashed hcheck hresults hpull
          · cases heq
        · rcases contentFetchNew_cases hpull with ⟨-, heq⟩ | ⟨-, _, heq, hpulled⟩
          · cases heq
          obtain rfl := Except.ok.inj heq
          rcases hpulled.eq with rfl | ⟨e, rfl⟩
          · exact fetched_of_contentFetchFlatpaks hcheck (Or.inl ⟨results, hresults, hpull⟩) hrest
          -- any error but a cancellation makes way for the old code
          · by_cases hcode : e.code = .ioCancelled
            · rw [if_pos ⟨rfl, congrArg some hcode⟩] at hrest
              obtain ⟨rfl, rfl⟩ := ends_contentFetchError hrest
              exact .cancelled hcheck hresults hpull hcode
            · rw [if_neg fun h => hcode (Option.some_inj.1 h.2)] at hrest
              exact fetched_of_contentFetchFallback hcheck
                (Or.inr ⟨results, e, hresults, hpull, hcode⟩)
                ((ends_bind_of_ok ((ends_logFailure hpulled).2 ⟨rfl, rfl⟩)).1 hrest)
  · obtain ⟨rfl, rfl⟩ := ends_pure.1 hrest
    exact .refused hcheck

end Runs

/-! ### What a fetch reports -/

section Reports

variable {s₁ s₂ s₂' : FetchState σ}

theorem FallsBack.unique (h : services.FallsBack data s₁ s₂)
    (h' : services.FallsBack data s₁ s₂') : s₂ = s₂' := by
  rcases h with ⟨hnone, rfl⟩ | ⟨results, e, hsome, hpull, -⟩
  · rcases h' with ⟨-, rfl⟩ | ⟨results, e, hsome, -⟩
    · rfl
    · cases hnone.symm.trans hsome
  · rcases h' with ⟨hnone, -⟩ | ⟨results', e', hsome', hpull', -⟩
    · cases hsome.symm.trans hnone
    · obtain rfl := Option.some_inj.1 (hsome.symm.trans hsome')
      exact (hpull.unique hpull').2

/-- Where the old code is reached, only it can succeed. -/
theorem PullSucceeds.of_fallsBack (h : services.PullSucceeds fetchData data s₁ s₂)
    (hfallback : services.FallsBack data s₁ s₂') :
    (services.contentFetchOld fetchData data).Ends s₂' (.ok .success) s₂ := by
  rcases h with ⟨results, hsome, hnew⟩ | ⟨s', hfallback', hold⟩
  · rcases hfallback with ⟨hnone, -⟩ | ⟨results', e, hsome', hnew', -⟩
    · cases hsome.symm.trans hnone
    · obtain rfl := Option.some_inj.1 (hsome.symm.trans hsome')
      cases (hnew.unique hnew').1
  · obtain rfl := hfallback.unique hfallback'
    exact hold

theorem PullSucceeds.unique (h : services.PullSucceeds fetchData data s₁ s₂)
    (h' : services.PullSucceeds fetchData data s₁ s₂') : s₂ = s₂' := by
  rcases h with ⟨results, hsome, hnew⟩ | ⟨s', hfallback, hold⟩
  · rcases h' with ⟨results', hsome', hnew'⟩ | ⟨s', hfallback', hold'⟩
    · obtain rfl := Option.some_inj.1 (hsome.symm.trans hsome')
      exact (hnew.unique hnew').2
    -- a success of the pull from the results rules out that the old code is reached
    · have hold : (services.contentFetchOld fetchData data).Ends s' (.ok .success) s₂ :=
        PullSucceeds.of_fallsBack (Or.inl ⟨results, hsome, hnew⟩) hfallback'
      exact (hold.unique hold').2
  · exact (hold.unique (h'.of_fallsBack hfallback)).2

/-- Where the pull from the results is cancelled, no pull path succeeds. -/
theorem not_pullSucceeds_of_cancelled {results : List ρ} {e : GError}
    (hresults : data.results = some results)
    (hpull : (services.contentFetchNew results).Ends s₁ (.ok (.failure e)) s₂)
    (hcode : e.code = .ioCancelled) : ¬ services.PullSucceeds fetchData data s₁ s₂' := by
  rintro (⟨results', hsome, hnew⟩ | ⟨s', ⟨hnone, -⟩ | ⟨results', e', hsome, hnew, hcode'⟩, -⟩)
  · obtain rfl := Option.some_inj.1 (hresults.symm.trans hsome)
    cases (hpull.unique hnew).1
  · cases hresults.symm.trans hnone
  · obtain rfl := Option.some_inj.1 (hresults.symm.trans hsome)
    cases (hpull.unique hnew).1
    exact hcode' hcode

variable (services fetchData data scheduler)

/-- A fetch may download: it is forced or has found the update offline, or the scheduler permits
it. -/
def MayFetch : Prop :=
  (fetchData.force = true ∨ data.offlineResultsOnly = true) ∨
    scheduler.Permits fetchData.schedulingTimeoutSeconds

/-- The scheduler allows the fetch, one of the pull paths succeeds, and so does the preparation of
the flatpaks. -/
def Succeeds (s : FetchState σ) : Prop :=
  ∃ s₁ s₂ s₃,
    (checkScheduler scheduler fetchData data.offlineResultsOnly).Ends s (.ok .success) s₁ ∧
    services.PullSucceeds fetchData data s₁ s₂ ∧
    (services.prepareFlatpaks fetchData).Ends s₂ (.ok .success) s₃

/-- A fetch reports what it has come to: no error is read that is not there, nor memory that was
never written, `TRUE` is returned exactly if it succeeds and an error is set exactly if `FALSE` is
returned, and both pulls try again without static deltas. -/
structure Reports (s : FetchState σ) (result : Except Crash Returned) : Prop where
  read : result ≠ .error .nullRead
  defined : result ≠ .error .undefined
  value : ∀ returned, result = .ok returned →
    (returned.value = true ↔ services.Succeeds fetchData data scheduler s)
  error : ∀ returned, result = .ok returned → returned.Consistent
  repoPull : ∀ remoteName ref urlOverride, services.repoPull remoteName ref urlOverride =
    retryWithoutDeltas fun disableStaticDeltas =>
      services.pullRemote remoteName (getOptionsForPull ref urlOverride disableStaticDeltas)
  repoPullFromRemotes : ∀ results s₁, data.results = some results →
    (checkScheduler scheduler fetchData data.offlineResultsOnly).Ends s (.ok .success) s₁ →
    ∀ result t, (services.repoPullFromRemotes results).Ends s₁ result t ↔
      (retryWithoutDeltas (services.pullResults results)).Ends s₁ result t

variable {services fetchData data scheduler}

/-- What a fetch returns is consistent, and `TRUE` exactly if it succeeds. -/
theorem Fetched.returned {returned : Returned}
    (h : services.Fetched fetchData data scheduler s (.ok returned) t) :
    returned.Consistent ∧
      (returned.value = true ↔ services.Succeeds fetchData data scheduler s) := by
  have hfails {e : GError} (hnot : ¬ services.Succeeds fetchData data scheduler s) :
      (Returned.failure e).Consistent ∧
        ((Returned.failure e).value = true ↔ services.Succeeds fetchData data scheduler s) :=
    ⟨Returned.consistent_failure e, iff_of_false nofun hnot⟩
  -- each step ends in one way only, so that where one has failed no run succeeds
  cases h with
  | refused hchecked =>
      refine hfails ?_
      rintro ⟨s₁, s₂, s₃, hsuccess, -⟩
      cases (hchecked.unique hsuccess).1
  | cancelled hchecked hresults hpull hcode =>
      refine hfails ?_
      rintro ⟨s₁, s₂, s₃, hsuccess, hpulls, -⟩
      obtain rfl := (hchecked.unique hsuccess).2
      exact not_pullSucceeds_of_cancelled hresults hpull hcode hpulls
  | failed hchecked hfallback hpull =>
      refine hfails ?_
      rintro ⟨s₁, s₂, s₃, hsuccess, hpulls, -⟩
      obtain rfl := (hchecked.unique hsuccess).2
      cases (hpull.unique (hpulls.of_fallsBack hfallback)).1
  | notPrepared hchecked hpull hprepare =>
      refine hfails ?_
      rintro ⟨s₁, s₂, s₃, hsuccess, hpulls, hprepared⟩
      obtain rfl := (hchecked.unique hsuccess).2
      obtain rfl := hpull.unique hpulls
      cases (hprepare.unique hprepared).1
  | fetched hchecked hpull hprepare =>
      exact ⟨Returned.consistent_success,
        iff_of_true rfl ⟨_, _, _, hchecked, hpull, hprepare⟩⟩

/-- A fetch that may download gets past the scheduler. -/
theorem Fetched.exists_checked (h : services.Fetched fetchData data scheduler s result t)
    (hmay : MayFetch fetchData data scheduler) :
    ∃ s₁,
      (checkScheduler scheduler fetchData data.offlineResultsOnly).Ends s (.ok .success) s₁ := by
  cases h with
  | refused hchecked =>
      obtain ⟨_, heq, hcases⟩ := checked_of_ends hchecked
      obtain rfl := Except.ok.inj heq
      exact nomatch hcases.success_iff.2 hmay
  | crashed hchecked | cancelled hchecked | failed hchecked | notPrepared hchecked
  | unread hchecked | aborted hchecked | fetched hchecked => exact ⟨_, hchecked⟩

variable (services fetchData data scheduler) in
/-- One of the pull paths succeeds, and then the autoinstall files of the commit are not read and no
error is set, or it is undefined what happens. -/
def PullsMisread (s : FetchState σ) : Prop :=
  ∃ s₁ s₂,
    (checkScheduler scheduler fetchData data.offlineResultsOnly).Ends s (.ok .success) s₁ ∧
    services.PullSucceeds fetchData data s₁ s₂ ∧ services.Misreads fetchData s₂.world

/-- To misread the files is no way to report anything. -/
theorem Fetched.of_pullsMisread (h : services.Fetched fetchData data scheduler s result t)
    (hmisread : services.PullsMisread fetchData data scheduler s) :
    result = .error .nullRead ∨ result = .error .undefined := by
  obtain ⟨s₁, s₂, hsuccess, hpulls, hfiles⟩ := hmisread
  have hprepared {pulled t : FetchState σ} {result : Except Crash Returned}
      (hchecked : (checkScheduler scheduler fetchData data.offlineResultsOnly).Ends s
        (.ok .success) s₁)
      (hpull : services.PullSucceeds fetchData data s₁ pulled)
      (hprepare : (services.prepareFlatpaks fetchData).Ends pulled result t) :
      result = .ok ⟨false, none⟩ ∨ result = .error .undefined := by
    obtain rfl := hpulls.unique hpull
    rcases prepareFlatpaks_cases hprepare with ⟨-, hresult⟩ | ⟨hnot, -⟩
    · exact hresult
    · exact absurd hfiles hnot
  -- each step ends in one way only
  cases h with
  | refused hchecked => cases (hchecked.unique hsuccess).1
  | crashed => exact Or.inl rfl
  | cancelled hchecked hresults hpull hcode =>
      obtain rfl := (hchecked.unique hsuccess).2
      exact absurd hpulls (not_pullSucceeds_of_cancelled hresults hpull hcode)
  | failed hchecked hfallback hpull =>
      obtain rfl := (hchecked.unique hsuccess).2
      cases (hpull.unique (hpulls.of_fallsBack hfallback)).1
  | unread => exact Or.inl rfl
  | notPrepared hchecked hpull hprepare =>
      obtain rfl := (hchecked.unique hsuccess).2
      rcases hprepared hchecked hpull hprepare with heq | heq <;> cases heq
  | aborted hchecked hpull hprepare =>
      obtain rfl := (hchecked.unique hsuccess).2
      rcases hprepared hchecked hpull hprepare with heq | heq <;> cases heq
      exact Or.inr rfl
  | fetched hchecked hpull hprepare =>
      obtain rfl := (hchecked.unique hsuccess).2
      rcases hprepared hchecked hpull hprepare with heq | heq <;> cases heq

/-- A crash comes from the pull from the results, or from the preparation of the flatpaks. -/
theorem Fetched.of_crash {crash : Crash}
    (h : services.Fetched fetchData data scheduler s (.error crash) t) :
    (∃ s₁ results, (checkScheduler scheduler fetchData data.offlineResultsOnly).Ends s
          (.ok .success) s₁ ∧ data.results = some results ∧
        services.MissesObject results s₁.world) ∨
      services.PullsMisread fetchData data scheduler s ∨ crash = .assertion := by
  cases h with
  | crashed hchecked hresults hpull =>
      rcases contentFetchNew_cases hpull with ⟨hmisses, -⟩ | ⟨-, _, heq, -⟩
      · exact Or.inl ⟨_, _, hchecked, hresults, hmisses⟩
      · cases heq
  | unread hchecked hpull hprepare =>
      rcases prepareFlatpaks_cases hprepare with
        ⟨hmisread, -⟩ | ⟨-, heq | ⟨returned, heq, hconsistent⟩⟩
      · exact Or.inr (Or.inl ⟨_, _, hchecked, hpull, hmisread⟩)
      · cases heq
      · obtain rfl := Except.ok.inj heq
        exact absurd rfl (hconsistent.2 rfl)
  | aborted hchecked hpull hprepare =>
      rcases prepareFlatpaks_cases hprepare with ⟨hmisread, -⟩ | ⟨-, heq | ⟨_, heq, -⟩⟩
      · exact Or.inr (Or.inl ⟨_, _, hchecked, hpull, hmisread⟩)
      · exact Or.inr (Or.inr (Except.error.inj heq))
      · cases heq

/-- **When a fetch reports what it has come to**: unless it may download and the first pull from the
results of the finders fails because some object is not found, or a pull path succeeds and the
autoinstall files are misread. Such a fetch crashes. -/
theorem contentFetch_reports_iff
    (hend : (services.contentFetch fetchData data scheduler).Ends s result t) :
    services.Reports fetchData data scheduler s result ↔
      ¬ (MayFetch fetchData data scheduler ∧
        ∃ results, data.results = some results ∧ services.MissesObject results s.world) ∧
      ¬ services.PullsMisread fetchData data scheduler s := by
  have hfetched := fetched_of_ends hend
  -- to wait for the scheduler changes nothing that the pulls depend on
  have hworld {s₁ : FetchState σ}
      (hchecked : (checkScheduler scheduler fetchData data.offlineResultsOnly).Ends s
        (.ok .success) s₁) : MayFetch fetchData data scheduler ∧ s₁.world = s.world := by
    obtain ⟨_, heq, hcases⟩ := checked_of_ends hchecked
    obtain rfl := Except.ok.inj heq
    exact ⟨hcases.success_iff.1 rfl, hcases.world_eq⟩
  constructor
  · refine fun hreports => ⟨?_, fun hmisread => ?_⟩
    · rintro ⟨hmay, results, hresults, hmisses⟩
      obtain ⟨s₁, hchecked⟩ := hfetched.exists_checked hmay
      refine repoPullFromRemotes_retries_iff.1
        (hreports.repoPullFromRemotes results s₁ hresults hchecked) ?_
      rwa [(hworld hchecked).2]
    · exact (hfetched.of_pullsMisread hmisread).elim hreports.read hreports.defined
  · rintro ⟨hfound, hread⟩
    have hcrash {crash : Crash} (hresult : result = .error crash) : crash = .assertion := by
      subst hresult
      rcases hfetched.of_crash with ⟨s₁, results, hchecked, hresults, hmisses⟩ | hrest
      · rw [(hworld hchecked).2] at hmisses
        exact absurd ⟨(hworld hchecked).1, results, hresults, hmisses⟩ hfound
      · exact hrest.resolve_left hread
    refine ⟨fun h => (nomatch hcrash h), fun h => (nomatch hcrash h), fun returned hreturned => ?_,
      fun returned hreturned => ?_, repoPull_eq services, fun results s₁ hresults hchecked =>
        repoPullFromRemotes_retries_iff.2 fun hmisses => ?_⟩
    · subst hreturned
      exact hfetched.returned.2
    · subst hreturned
      exact hfetched.returned.1
    · rw [(hworld hchecked).2] at hmisses
      exact hfound ⟨(hworld hchecked).1, results, hresults, hmisses⟩

end Reports

end FetchServices

/-- A system with an update of one commit on `eos:os`, which needs no flatpaks; pulls from finder
results succeed or fail as given, with static deltas and without. -/
def plainServices (pullFromRemotes : Bool → Except GError Unit) : FetchServices Unit Unit where
  parseRefspec _ := .ok (some "eos", "os")
  randomInt _ _ := 0
  pullWithOptions _ _ s := (.ok (), s)
  readCommit _ _ := .ok ()
  pullFromRemotes _ disableStaticDeltas s := (pullFromRemotes disableStaticDeltas, s)
  refActionsFromOstreeCommit _ _ := .ok .empty
  refActionApplicationProgress _ := .ok .empty
  openInstallation _ := .ok ()
  installation := reportingInstallation (fun _ => false) fun _ => []

/-- A scheduler that cannot be reached. -/
def noScheduler : DownloadScheduler where
  connect := .error ⟨.ioFailed, "no scheduler"⟩
  schedule := .ok ()
  downloadNow := false
  remove := .ok ()
  cancelled := false
  iterations := []

/-- A fetch of the update that a poll has found. -/
def sampleFetch (force : Bool) : FetchData := ⟨some "update", some "eos:os", force, 0⟩

/-- What the poll has left. -/
def foundBySample (offlineResultsOnly : Bool) : EosUpdaterData Unit :=
  { results := some [()], offlineResultsOnly, cancellable := 0 }

/-- A forced fetch whose pull from the results fails without missing an object falls back to the
remote, and reports that it has succeeded. -/
theorem fallback_reported :
    ∃ t, ((plainServices fun _ => .error ⟨.ioFailed, "peer is gone"⟩).contentFetch
        (sampleFetch true) (foundBySample false) noScheduler).Ends { world := () }
        (.ok .success) t ∧
      (plainServices fun _ => .error ⟨.ioFailed, "peer is gone"⟩).Reports (sampleFetch true)
        (foundBySample false) noScheduler { world := () } (.ok .success) := by
  have hrun : (((plainServices fun _ => .error ⟨.ioFailed, "peer is gone"⟩).contentFetch
      (sampleFetch true) (foundBySample false) noScheduler).run.run
        { world := () }).map (fun run => run.1.toOption) =
      some (some .success) := by decide +kernel
  obtain ⟨⟨result, t⟩, hend, hresult⟩ := Option.map_eq_some_iff.1 hrun
  obtain rfl := except_toOption_eq_some.1 hresult
  refine ⟨t, hend, (FetchServices.contentFetch_reports_iff hend).2 ⟨?_, ?_⟩⟩
  · rintro ⟨-, results, -, e, he, hcode⟩
    cases he
    cases hcode
  · rintro ⟨_, _, -, -, hmisread | hmisread⟩ <;> cases hmisread

/-- An entry whose remote has no valid name. -/
def badRemoteEntry : JsonNode :=
  .object [("action", .string "install"), ("serial", .int 1), ("name", .string "org.example.App"),
    ("branch", .string "stable"), ("ref-kind", .string "app"),
    ("collection-id", .string "com.example.Apps"), ("remote", .string "example apps")]

/-- The system with an update, the commit of which has an autoinstall file with this entry. -/
def badRemoteServices : FetchServices Unit Unit :=
  { plainServices fun _ => .ok () with
    refActionsFromOstreeCommit := fun _ _ =>
      flatpakRefActionsFromOstreeCommit plainEnvironment emptySystem sampleOverridePaths
        { sampleCheckout with checkoutAt := .ok (singleFile (.array [badRemoteEntry])) } }

/-- A forced fetch whose pull from the results misses an object crashes, although it would succeed
without static deltas; and so does one that has pulled a commit with an invalid remote. -/
theorem contentFetch_crashes :
    (∃ t, ((plainServices fun disableStaticDeltas =>
        if disableStaticDeltas then .ok () else .error ⟨.ioNotFound, "no such object"⟩).contentFetch
        (sampleFetch true) (foundBySample false) noScheduler).Ends { world := () }
        (.error .nullRead) t ∧
      ¬ (plainServices fun disableStaticDeltas =>
        if disableStaticDeltas then .ok () else .error ⟨.ioNotFound, "no such object"⟩).Reports
        (sampleFetch true) (foundBySample false) noScheduler { world := () }
        (.error .nullRead)) ∧
      ∃ t, (badRemoteServices.contentFetch (sampleFetch true) (foundBySample false)
          noScheduler).Ends { world := () } (.error .nullRead) t ∧
        ¬ badRemoteServices.Reports (sampleFetch true) (foundBySample false) noScheduler
          { world := () } (.error .nullRead) := by
  refine ⟨⟨_, rfl, fun hreports => hreports.read rfl⟩, ?_⟩
  have hrun : ((badRemoteServices.contentFetch (sampleFetch true) (foundBySample false)
      noScheduler).run.run { world := () }).map
        (fun run => match run.1 with | .error crash => some crash | .ok _ => none) =
      some (some .nullRead) := by decide +kernel
  obtain ⟨⟨result, t⟩, hend, hresult⟩ := Option.map_eq_some_iff.1 hrun
  cases result with
  | ok returned => cases hresult
  | error crash =>
      obtain rfl : crash = .nullRead := Option.some.inj hresult
      exact ⟨t, hend, fun hreports => hreports.read rfl⟩

end Updater
