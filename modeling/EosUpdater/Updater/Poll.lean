import EosUpdater.Updater.Cancellation
import EosUpdater.Updater.CheckForUpdate
import EosUpdater.Updater.Details

/-!
# Polling

A poll searches the sources that are configured: first without the Internet, if this is possible,
then with it, and if neither has found an update, the main source again with an older search. An
error of one search makes way for the next one, and some errors are dropped on the way. A poll
therefore ends in `Ready` although nothing could be searched, exactly if nothing is left that could
report the failure (`poll_reports_failures_iff`).

A search is a program that is given the finders to be used, or none for the older search; polls run
`checkForUpdateFollowingCheckpointIfAllowed`.
-/

namespace Updater

open Euu Machine Machine.Program

variable {σ ρ α : Type}

/-! ### The configuration -/

/-- `EosUpdaterDownloadSource`. -/
inductive DownloadSource
  | main
  | lan
  | volume
deriving DecidableEq, Repr

/-- `EOS_UPDATER_ERROR_WRONG_CONFIGURATION`. -/
def wrongConfiguration (message : String) : GError :=
  ⟨.other "eos-updater-error-quark" 2, message⟩

/-- `string_to_download_source`. -/
def stringToDownloadSource (text : String) : Except GError DownloadSource :=
  if text = "main" then .ok .main
  else if text = "lan" then .ok .lan
  else if text = "volume" then .ok .volume
  else .error (wrongConfiguration ("Unknown download source " ++ text))

/-- `g_strstrip`. -/
def strStrip (text : String) : String :=
  String.ofList ((text.toList.dropWhile asciiIsSpace).reverse.dropWhile asciiIsSpace).reverse

/-- The loop of `strv_to_download_order`, from the sources that it has found. -/
def addDownloadSources : List DownloadSource → List String → Except GError (List DownloadSource)
  | found, [] => .ok found
  | found, text :: texts => do
      let source ← stringToDownloadSource (strStrip text)
      if source ∈ found then
        throw (wrongConfiguration ("Duplicated download source " ++ strStrip text))
      addDownloadSources (found ++ [source]) texts

/-- `strv_to_download_order`. -/
def strvToDownloadOrder (sources : List String) : Except GError (List DownloadSource) := do
  let order ← addDownloadSources [] sources
  if order = [] then throw (wrongConfiguration "No download sources")
  return order

/-- `SourcesConfig`: there is a source, none is there twice, and if there are URIs that override
them, there is at least one. -/
structure SourcesConfig where
  downloadOrder : List DownloadSource
  overrideUris : Option (List String)
  order_ne_nil : downloadOrder ≠ []
  order_nodup : downloadOrder.Nodup
  uris_ne_nil : overrideUris ≠ some []

/-! ### The finders -/

/-- A `GPtrArray` that is terminated with `NULL` unless it is empty: the elements that precede the
terminator, if there is one. -/
abbrev Terminated (α : Type) := Option (List α)

/-- Terminate an array. -/
def terminate (array : List α) : Terminated α := if array = [] then none else some array

/-- `get_finders`, for the offline finders that the configuration asks for. -/
def SourcesConfig.offlineFinders (config : SourcesConfig) : List OstreeRepoFinder :=
  match config.overrideUris with
  | some _ => []
  | none => config.downloadOrder.filterMap fun
      | .main => none
      | .lan => some .avahi
      | .volume => some .mount

/-- `get_finders`, for the online finders. It is not known whether URIs that override the sources
are on the Internet, so they are taken to be. -/
def SourcesConfig.onlineFinders (config : SourcesConfig) : List OstreeRepoFinder :=
  match config.overrideUris with
  | some uris => [.override uris]
  | none => config.downloadOrder.filterMap fun
      | .main => some .config
      | .lan | .volume => none

/-- `get_finders`, from what `ostree_repo_finder_avahi_start` returns if there is an Avahi finder:
the offline and the online finders. If it cannot be started, the finder is removed from an array
that has been terminated before. -/
def getFinders (config : SourcesConfig) (avahiStart : Except GError Unit) :
    Terminated OstreeRepoFinder × Terminated OstreeRepoFinder :=
  let offline := terminate config.offlineFinders
  let offline :=
    match avahiStart with
    | .ok _ => offline
    | .error _ => offline.map (·.erase .avahi)
  (offline, terminate config.onlineFinders)

/-! ### The searches of a poll -/

/-- A program whose error can be looked at, like an error in a local variable. -/
def attempt (program : Program σ Failure α) : Program σ Failure (Except GError α) :=
  ExceptT.mk do
    match ← program.run with
    | .ok a => return .ok (.ok a)
    | .error (.error e) => return .ok (.error e)
    | .error .aborted => return .error .aborted

/-- An attempt ends with the result of its program, crashes set apart. -/
theorem ends_attempt {program : Program σ Failure α} {s t : σ} {result : Except GError α} :
    (attempt program).Ends s (.ok result) t ↔ program.Ends s (result.mapError .error) t := by
  simp only [Ends, attempt, ExceptT.run_mk, StateT.run_bind]
  cases h : program.run.run s with
  | none => simp
  | some ended =>
      obtain ⟨ended, s'⟩ := ended
      cases ended with
      | ok a => cases result <;> simp [Except.mapError]
      | error failure => cases failure <;> cases result <;> simp [Except.mapError]

/-- Only a crash cannot be looked at. -/
theorem aborted_of_attempt {program : Program σ Failure α} {s t : σ} {failure : Failure}
    (h : (attempt program).Ends s (.error failure) t) : failure = .aborted := by
  simp only [Ends, attempt, ExceptT.run_mk, StateT.run_bind] at h
  cases hrun : program.run.run s with
  | none => simp [hrun] at h
  | some ended =>
      obtain ⟨ended, s'⟩ := ended
      rcases ended with (e | _) | a
      · simp [hrun] at h
      · exact (by simpa [hrun] using h : Failure.aborted = failure ∧ s' = t).1.symm
      · simp [hrun] at h

/-- What has been found can be used: there is a commit and a remote that has it. -/
def UpdateRefInfo.IsUsable (info : UpdateRefInfo ρ) : Prop :=
  info.commit ≠ none ∧ info.results ≠ none ∧ info.results ≠ some []

/-- The commit and the results are looked at. -/
instance (info : UpdateRefInfo ρ) : Decidable info.IsUsable :=
  decidable_of_iff (info.commit.isSome ∧ info.results.isSome ∧
    ¬ (info.results.any List.isEmpty)) (by
      unfold UpdateRefInfo.IsUsable
      cases info.commit <;> cases info.results <;> simp)

/-- `eos_update_info_new`, with what both of its callers pass. It returns nothing without one of the
texts that it requires, or without a commit. -/
def UpdateRefInfo.toUpdateInfo (info : UpdateRefInfo ρ) (offlineResultsOnly : Bool)
    (results : Option (List ρ)) : Option (EosUpdateInfo ρ) := do
  let checksum ← info.checksum
  let commit ← info.commit
  let newRefspec ← info.newRefspec
  let oldRefspec ← info.refspec
  return {
    checksum
    commit := commit.toOstreeCommit
    newRefspec
    oldRefspec
    version := info.version
    urls := none
    offlineResultsOnly
    isUserVisible := info.isUserVisible
    releaseNotesUri := info.releaseNotesUri
    results }

/-- A search with finders, or without, of what a record can be written to. -/
abbrev Search (σ ρ : Type) :=
  Option (List OstreeRepoFinder) → UpdateRefInfo ρ → Program σ Failure (UpdateRefInfo ρ)

section Searches

variable (search : Search σ ρ)

/-- The second half of `metadata_fetch_new`: check online, once there is nothing usable offline. -/
def metadataFetchOnline (onlineFinders : Terminated OstreeRepoFinder) (info : UpdateRefInfo ρ) :
    Program σ Failure (Option (EosUpdateInfo ρ)) := do
  let online ←
    if onlineFinders.isSome then search onlineFinders info.clear else pure info.clear
  if online.IsUsable then return online.toUpdateInfo false online.results else return none

/-- `metadata_fetch_new`. -/
def metadataFetchNew (config : SourcesConfig) (avahiStart : Except GError Unit) :
    Program σ Failure (Option (EosUpdateInfo ρ)) := do
  let (offlineFinders, onlineFinders) := getFinders config avahiStart
  if offlineFinders = none ∧ onlineFinders = none then
    throw (.error ⟨.ioFailed, "All configured update sources failed to initialize."⟩)
  let offline ← if offlineFinders.isSome then search offlineFinders {} else pure {}
  if offline.IsUsable then return offline.toUpdateInfo true offline.results
  else metadataFetchOnline search onlineFinders offline

/-- An update with the timestamp of its commit, which `eos_update_info_get_commit_timestamp`
returns. -/
structure TimedUpdate (ρ : Type) where
  info : EosUpdateInfo ρ
  timestamp : ℕ

/-- `metadata_fetch_from_main`. -/
def metadataFetchFromMain : Program σ Failure (Option (TimedUpdate ρ)) := do
  let found ← search none {}
  return do
    let commit ← found.commit
    let info ← found.toUpdateInfo false none
    return ⟨info, commit.timestamp⟩

/-- `get_latest_update`, for updates in the order of their sources: the first one of the latest. -/
def getLatestUpdate (updates : List (TimedUpdate ρ)) : Option (TimedUpdate ρ) :=
  updates.find? fun update => updates.all fun other => other.timestamp ≤ update.timestamp

/-- The loop of `run_fetchers`: a fetcher that fails is passed over, unless it was cancelled. -/
def runFetchersLoop (found : List (TimedUpdate ρ)) :
    List (Program σ Failure (Option (TimedUpdate ρ))) →
      Program σ Failure (List (TimedUpdate ρ))
  | [] => return found
  | fetcher :: fetchers => do
      match ← attempt fetcher with
      | .error e =>
          if e.code = .ioCancelled then throw (.error e) else runFetchersLoop found fetchers
      | .ok info => runFetchersLoop (found ++ info.toList) fetchers

/-- `run_fetchers`. -/
def runFetchers (fetchers : List (Program σ Failure (Option (TimedUpdate ρ)))) :
    Program σ Failure (Option (EosUpdateInfo ρ)) := do
  let found ← runFetchersLoop [] fetchers
  return (getLatestUpdate found).map (·.info)

/-- `metadata_fetch_internal`, for the check that the system is not a converted one. -/
def checkOstreeSystem (booted : Except GError OstreeDeployment) : Except GError Unit :=
  match booted with
  | .ok _ => .ok ()
  | .error e =>
      if e.code = .ioNotFound ∨ e.code = .ioFailed then
        .error ⟨.updaterNotOstreeSystem, "Not an OSTree-based system: cannot update it."⟩
      else .ok ()

/-- `metadata_fetch_internal`, for the new code: an error is dropped, unless it was cancelled. -/
def metadataFetchUsingFinders (config : SourcesConfig) (avahiStart : Except GError Unit) :
    Program σ Failure (Option (EosUpdateInfo ρ)) := do
  match ← attempt (metadataFetchNew search config avahiStart) with
  | .ok info => return info
  | .error e => if e.code = .ioCancelled then throw (.error e) else return none

/-- `metadata_fetch_internal`, for the fallback to the old code path. -/
def metadataFetchFallback (config : SourcesConfig) (disableOldCode : Bool)
    (info : Option (EosUpdateInfo ρ)) : Program σ Failure (Option (EosUpdateInfo ρ)) :=
  if info = none ∧ ¬ disableOldCode ∧ .main ∈ config.downloadOrder then
    runFetchers [metadataFetchFromMain search]
  else return info

/-- `metadata_fetch_internal`, from the booted deployment, the configuration that is read, and
whether fallback fetchers are disabled. -/
def metadataFetchInternal (booted : Except GError OstreeDeployment)
    (config : Except GError SourcesConfig) (avahiStart : Except GError Unit)
    (disableOldCode : Bool) : Program σ Failure (Option (EosUpdateInfo ρ)) := do
  .query fun _ => (checkOstreeSystem booted).mapError .error
  let config ← .query fun _ => config.mapError .error
  let info ← metadataFetchUsingFinders search config avahiStart
  metadataFetchFallback search config disableOldCode info

end Searches

/-! ### What the searches of a poll return -/

/-- The searches that a poll can make: with the offline finders, with the online ones and
without. -/
inductive SearchKind
  | offline
  | online
  | main
deriving DecidableEq, Repr

/-- A finder may use the Internet. -/
def OstreeRepoFinder.isOnline : OstreeRepoFinder → Bool
  | .config | .override _ => true
  | .avahi | .mount => false

/-- Which search has some finders. -/
def SearchKind.ofFinders : Option (List OstreeRepoFinder) → SearchKind
  | none => .main
  | some finders => if finders.any (·.isOnline) then .online else .offline

/-- What a search returns is complete: with a commit there are the texts that an update requires. -/
def UpdateRefInfo.Complete (info : UpdateRefInfo ρ) : Prop :=
  info.commit ≠ none → info.checksum ≠ none ∧ info.newRefspec ≠ none ∧ info.refspec ≠ none

/-- What polls search with returns complete records. -/
theorem Ostree.complete_of_checkForUpdateOn {ostree : Ostree σ ρ} {bound : ℕ}
    {finders : Option (List OstreeRepoFinder)} {info info' : UpdateRefInfo ρ}
    {booted upgrade : Refspec} {found : Bool} {s t : σ}
    (hend : (ostree.checkForUpdateOn bound finders info booted upgrade).Ends s
      (.ok (found, info')) t) : info'.Complete := by
  simp only [checkForUpdateOn, ends_bind_ok] at hend
  obtain ⟨latest, s₁, -, parsed, s₂, -, update, s₃, -, hresult⟩ := hend
  split at hresult
  · obtain rfl := (Prod.mk.inj (Except.ok.inj (ends_pure.1 hresult).1)).2
    exact fun _ => ⟨nofun, nofun, nofun⟩
  · obtain rfl := (Prod.mk.inj (Except.ok.inj (ends_pure.1 hresult).1)).2
    exact fun hcommit => absurd rfl hcommit

/-- The record of a search that succeeds is complete. -/
theorem Ostree.complete_of_ends {ostree : Ostree σ ρ} {platform : Platform} {bound : ℕ}
    {finders : Option (List OstreeRepoFinder)} {info info' : UpdateRefInfo ρ} {s t : σ}
    (hend : (ostree.checkForUpdateFollowingCheckpointIfAllowed platform bound finders info).Ends s
      (.ok info') t) : info'.Complete := by
  simp only [checkForUpdateFollowingCheckpointIfAllowed, checkForUpdateUsingBootedBranch,
    ends_bind_ok] at hend
  obtain ⟨⟨found, info₁⟩, s₁, ⟨booted, s₂, -, hbranch⟩, hrest⟩ := hend
  cases found with
  | true =>
      obtain ⟨heq, -⟩ := ends_pure.1 hrest
      exact Except.ok.inj heq ▸ complete_of_checkForUpdateOn hbranch
  | false =>
      simp only [Bool.false_eq_true, if_false, checkForUpdateFollowingCheckpointCommits,
        ends_bind_ok] at hrest
      obtain ⟨booted', s₃, -, upgrade, s₄, -, ⟨found, info₂⟩, s₅, hsearch, hresult⟩ := hrest
      exact Except.ok.inj (ends_pure.1 hresult).1 ▸ complete_of_checkForUpdateOn hsearch

/-- What each search returns if it is made. No poll makes one of them twice. -/
structure Outcomes (ρ : Type) where
  of : SearchKind → Except GError (UpdateRefInfo ρ)
  complete : ∀ kind info, of kind = .ok info → info.Complete

/-- Outcomes are applied to the kind of a search. -/
instance : CoeFun (Outcomes ρ) fun _ => SearchKind → Except GError (UpdateRefInfo ρ) :=
  ⟨Outcomes.of⟩

/-- The search with given outcomes, which records the searches that are made, the most recent one
first. -/
def Outcomes.search (outcomes : Outcomes ρ) : Search (List SearchKind) ρ := fun finders _ =>
  .perform fun made =>
    ((outcomes (.ofFinders finders)).mapError .error, .ofFinders finders :: made)

/-- What a search has found is an update: with finders it has to be usable. -/
def SearchKind.Finds (kind : SearchKind) (info : UpdateRefInfo ρ) : Prop :=
  if kind = .main then info.commit ≠ none else info.IsUsable

/-- A search has been completed: it has returned no error, and it had a finder, or needs none. -/
def Outcomes.Completed (outcomes : Outcomes ρ) (offline : Terminated OstreeRepoFinder)
    (kind : SearchKind) : Prop :=
  (∃ info, outcomes kind = .ok info) ∧ (kind = .offline → offline ≠ some [])

/-- A search has failed, and was not cancelled. -/
def Outcomes.Fails (outcomes : Outcomes ρ) (kind : SearchKind) : Prop :=
  ∃ e, outcomes kind = .error e ∧ e.code ≠ .ioCancelled

/-- Neither of the searches with finders can be completed: the offline one fails, or there is none,
or only one that has lost its finder, and then the online one fails or there is none. -/
def Outcomes.FindersFail (outcomes : Outcomes ρ)
    (offline online : Terminated OstreeRepoFinder) : Prop :=
  match offline with
  | some finders => outcomes.Fails .offline ∨
      finders = [] ∧ (∃ info, outcomes .offline = .ok info) ∧
        (online = none ∨ outcomes.Fails .online)
  | none => outcomes.Fails .online

/-! ### The finders of a configuration -/

section Finders

variable (config : SourcesConfig) (avahiStart : Except GError Unit)

/-- The finders for the first search are offline ones. -/
theorem ofFinders_offline {finders : List OstreeRepoFinder}
    (h : (getFinders config avahiStart).1 = some finders) :
    SearchKind.ofFinders (some finders) = .offline := by
  have hoffline : ∀ finder ∈ config.offlineFinders, finder.isOnline = false := by
    unfold SourcesConfig.offlineFinders
    intro finder hfinder
    split at hfinder
    · simp at hfinder
    · obtain ⟨source, -, hsource⟩ := List.mem_filterMap.1 hfinder
      cases source with
      | main => cases hsource
      | lan | volume => exact Option.some_inj.1 hsource ▸ rfl
  have hsub : ∀ finder ∈ finders, finder ∈ config.offlineFinders := by
    unfold getFinders terminate at h
    intro finder hfinder
    split at h <;> split at h <;> simp at h
    · exact h ▸ hfinder
    · exact List.mem_of_mem_erase (h ▸ hfinder)
  have hnone : finders.any (·.isOnline) = false := List.any_eq_false.2 fun finder hfinder => by
    simp [hoffline finder (hsub finder hfinder)]
  simp [SearchKind.ofFinders, hnone]

/-- The finders for the second search are online ones. -/
theorem ofFinders_online {finders : List OstreeRepoFinder}
    (h : (getFinders config avahiStart).2 = some finders) :
    SearchKind.ofFinders (some finders) = .online := by
  have honline : ∀ finder ∈ config.onlineFinders, finder.isOnline := by
    unfold SourcesConfig.onlineFinders
    intro finder hfinder
    split at hfinder
    · simp only [List.mem_singleton] at hfinder
      exact hfinder ▸ rfl
    · obtain ⟨source, -, hsource⟩ := List.mem_filterMap.1 hfinder
      cases source with
      | main => exact Option.some_inj.1 hsource ▸ rfl
      | lan | volume => cases hsource
  have hfinders : config.onlineFinders ≠ [] ∧ config.onlineFinders = finders := by
    simp only [getFinders, terminate] at h
    split at h
    · cases h
    · next hne => exact ⟨hne, Option.some_inj.1 h⟩
  obtain ⟨hne, rfl⟩ := hfinders
  obtain ⟨finder, hfinder⟩ := List.exists_mem_of_ne_nil _ hne
  have hany : config.onlineFinders.any (·.isOnline) = true :=
    List.any_eq_true.2 ⟨finder, hfinder, honline finder hfinder⟩
  simp [SearchKind.ofFinders, hany]

/-- With the main source there are online finders. -/
theorem main_onlineFinders (h : .main ∈ config.downloadOrder) :
    (getFinders config avahiStart).2 ≠ none := by
  have hne : config.onlineFinders ≠ [] := by
    unfold SourcesConfig.onlineFinders
    split
    · simp
    · exact List.ne_nil_of_mem (List.mem_filterMap.2 ⟨.main, h, rfl⟩)
  simp [getFinders, terminate, hne]

/-- There is always something to search with. -/
theorem getFinders_ne_none :
    ¬ ((getFinders config avahiStart).1 = none ∧ (getFinders config avahiStart).2 = none) := by
  rintro ⟨hoffline, honline⟩
  have hoffline : config.offlineFinders = [] := by
    simp only [getFinders, terminate] at hoffline
    by_contra hne
    cases avahiStart <;> simp [hne] at hoffline
  have honline : config.onlineFinders = [] := by
    simpa [getFinders, terminate] using honline
  unfold SourcesConfig.offlineFinders at hoffline
  unfold SourcesConfig.onlineFinders at honline
  split at honline
  · cases honline
  · next huris =>
    simp only [huris] at hoffline
    -- every source has a finder, offline or online
    obtain ⟨source, hsource⟩ := List.exists_mem_of_ne_nil _ config.order_ne_nil
    have hno := List.filterMap_eq_nil_iff.1 hoffline source hsource
    have hno' := List.filterMap_eq_nil_iff.1 honline source hsource
    cases source <;> simp at hno hno'

end Finders

/-! ### The searches with finders -/

variable {outcomes : Outcomes ρ} {made : List SearchKind}

/-- A search ends as its outcome says, and is noted. -/
theorem ends_search (outcomes : Outcomes ρ) (finders : Option (List OstreeRepoFinder))
    (info : UpdateRefInfo ρ) (made : List SearchKind) :
    (outcomes.search finders info).Ends made
      ((outcomes (.ofFinders finders)).mapError .error) (.ofFinders finders :: made) :=
  ends_perform.2 rfl

/-- A usable record makes an update. -/
theorem UpdateRefInfo.Complete.toUpdateInfo {info : UpdateRefInfo ρ} (h : info.Complete)
    (hcommit : info.commit ≠ none) (offlineResultsOnly : Bool) (results : Option (List ρ)) :
    ∃ update, info.toUpdateInfo offlineResultsOnly results = some update := by
  obtain ⟨hchecksum, hnew, hold⟩ := h hcommit
  obtain ⟨checksum, hchecksum⟩ := Option.ne_none_iff_exists'.1 hchecksum
  obtain ⟨newRefspec, hnew⟩ := Option.ne_none_iff_exists'.1 hnew
  obtain ⟨refspec, hold⟩ := Option.ne_none_iff_exists'.1 hold
  obtain ⟨commit, hcommit⟩ := Option.ne_none_iff_exists'.1 hcommit
  simp [UpdateRefInfo.toUpdateInfo, hchecksum, hnew, hold, hcommit]

/-- The online search is made if there are online finders, and finds an update or not. -/
theorem ends_metadataFetchOnline (outcomes : Outcomes ρ) {finders : Terminated OstreeRepoFinder}
    (hfinders : ∀ fs, finders = some fs → SearchKind.ofFinders (some fs) = .online)
    (info : UpdateRefInfo ρ) (made : List SearchKind) :
    (finders = none ∧
      (metadataFetchOnline outcomes.search finders info).Ends made (.ok none) made) ∨
    finders ≠ none ∧
      ((∃ e, outcomes .online = .error e ∧
        (metadataFetchOnline outcomes.search finders info).Ends made (.error (.error e))
          (.online :: made)) ∨
      ∃ found, outcomes .online = .ok found ∧
        ((found.IsUsable ∧ ∃ update,
          (metadataFetchOnline outcomes.search finders info).Ends made (.ok (some update))
            (.online :: made)) ∨
        ¬ found.IsUsable ∧
          (metadataFetchOnline outcomes.search finders info).Ends made (.ok none)
            (.online :: made))) := by
  cases finders with
  | none =>
      -- a record that has been cleared has no commit
      have hclear : ¬ info.clear.IsUsable := fun h => h.1 rfl
      refine Or.inl ⟨rfl, (ends_bind_of_ok (ends_pure.2 ⟨rfl, rfl⟩)).2 ?_⟩
      simp only [if_neg hclear]
      exact ends_pure.2 ⟨rfl, rfl⟩
  | some fs =>
      refine Or.inr ⟨nofun, ?_⟩
      have hsearch := ends_search outcomes (some fs) info.clear made
      rw [hfinders fs rfl] at hsearch
      cases honline : outcomes .online with
      | error e =>
          rw [honline] at hsearch
          exact Or.inl ⟨e, rfl, ends_bind_error.2 (Or.inl hsearch)⟩
      | ok found =>
          rw [honline] at hsearch
          refine Or.inr ⟨found, rfl, ?_⟩
          -- the search of what is on the Internet is the last one with finders
          by_cases husable : found.IsUsable
          · obtain ⟨update, hupdate⟩ := (outcomes.complete _ _ honline).toUpdateInfo husable.1 false
              found.results
            refine Or.inl ⟨husable, update, (ends_bind_of_ok hsearch).2 ?_⟩
            simp only [if_pos husable]
            exact ends_pure.2 ⟨congrArg Except.ok hupdate.symm, rfl⟩
          · refine Or.inr ⟨husable, (ends_bind_of_ok hsearch).2 ?_⟩
            simp only [if_neg husable]
            exact ends_pure.2 ⟨rfl, rfl⟩

/-- What the searches with finders come to: the searches that were made, whether one of them was
completed, and what they have found. -/
structure Outcomes.Tried (outcomes : Outcomes ρ) (config : SourcesConfig)
    (offline online : Terminated OstreeRepoFinder)
    (result : Except GError (Option (EosUpdateInfo ρ))) (made : List SearchKind) : Prop where
  main : .main ∉ made
  found : ∀ update, result = .ok (some update) → ∃ kind ∈ made, outcomes.Completed offline kind
  nothing : (∀ update, result ≠ .ok (some update)) →
    ∀ kind ∈ made, ∀ info, outcomes kind = .ok info → ¬ info.IsUsable
  fail_iff : outcomes.FindersFail offline online ↔
    (¬ ∃ kind ∈ made, outcomes.Completed offline kind) ∧
      ∀ e, result = .error e → e.code ≠ .ioCancelled
  online : .main ∈ config.downloadOrder → .offline ∈ made → .online ∈ made ∨
    (∃ info, outcomes .offline = .ok info ∧ info.IsUsable) ∨
      ∃ e, outcomes .offline = .error e ∧ result = .error e

/-- What is found online, where there is nothing to be searched offline. -/
theorem tried_of_online (outcomes : Outcomes ρ) (config : SourcesConfig)
    {online : Terminated OstreeRepoFinder} (hne : online ≠ none)
    (honlineKind : ∀ fs, online = some fs → SearchKind.ofFinders (some fs) = .online) :
    ∃ result made, (metadataFetchOnline outcomes.search online {}).Ends []
        (result.mapError .error) made ∧
      outcomes.Tried config none online result made := by
  rcases ends_metadataFetchOnline outcomes honlineKind {} [] with
    ⟨hnone, -⟩ | ⟨-, ⟨e, he, hend⟩ | ⟨info, hinfo, ⟨husable, update, hend⟩ | ⟨husable, hend⟩⟩⟩
  · exact absurd hnone hne
  · exact ⟨.error e, [.online], hend, by simp, by simp, by simp [he],
      by simp [Outcomes.FindersFail, Outcomes.Fails, Outcomes.Completed, he], by simp⟩
  · exact ⟨.ok (some update), [.online], hend, by simp,
      by simp [Outcomes.Completed, hinfo], fun h => absurd rfl (h update),
      by simp [Outcomes.FindersFail, Outcomes.Fails, Outcomes.Completed, hinfo], by simp⟩
  · exact ⟨.ok none, [.online], hend, by simp, by simp, by simp [hinfo, husable],
      by simp [Outcomes.FindersFail, Outcomes.Fails, Outcomes.Completed, hinfo], by simp⟩

/-- What is found online, where the offline search has found nothing that can be used. -/
theorem tried_after_offline (outcomes : Outcomes ρ) (config : SourcesConfig)
    {fs : List OstreeRepoFinder} {online : Terminated OstreeRepoFinder}
    (honlineKind : ∀ fs, online = some fs → SearchKind.ofFinders (some fs) = .online)
    (hmain : .main ∈ config.downloadOrder → online ≠ none) {info : UpdateRefInfo ρ}
    (hoffline : outcomes .offline = .ok info) (husable : ¬ info.IsUsable) :
    ∃ result made, (metadataFetchOnline outcomes.search online info).Ends [.offline]
        (result.mapError .error) made ∧
      outcomes.Tried config (some fs) online result made := by
  -- what is found offline cannot be used, so the outcome is that of the search online
  rcases ends_metadataFetchOnline outcomes honlineKind info [.offline] with
    ⟨hnone, hend⟩ | ⟨hne, ⟨e, he, hend⟩ |
      ⟨found, hfound, ⟨hfoundUsable, update, hend⟩ | ⟨hfoundUsable, hend⟩⟩⟩
  · exact ⟨.ok none, [.offline], hend, by simp, by simp, by simp [hoffline, husable],
      by simp [Outcomes.FindersFail, Outcomes.Fails, Outcomes.Completed, hoffline, hnone],
      fun h => absurd hnone (hmain h)⟩
  · exact ⟨.error e, [.online, .offline], hend, by simp, by simp,
      by simp [hoffline, husable, he],
      by simp [Outcomes.FindersFail, Outcomes.Fails, Outcomes.Completed, hoffline, hne, he],
      by simp⟩
  · exact ⟨.ok (some update), [.online, .offline], hend, by simp,
      by simp [Outcomes.Completed, hfound], fun h => absurd rfl (h update),
      by simp [Outcomes.FindersFail, Outcomes.Fails, Outcomes.Completed, hoffline, hne, hfound],
      by simp⟩
  · exact ⟨.ok none, [.online, .offline], hend, by simp, by simp,
      by simp [hoffline, husable, hfound, hfoundUsable],
      by simp [Outcomes.FindersFail, Outcomes.Fails, Outcomes.Completed, hoffline, hne, hfound],
      by simp⟩

/-- **The searches with finders.** -/
theorem tried_of_metadataFetchNew (outcomes : Outcomes ρ) (config : SourcesConfig)
    (avahiStart : Except GError Unit)
    (hempty : (getFinders config avahiStart).1 = some [] →
      ∀ info, outcomes .offline = .ok info → ¬ info.IsUsable) :
    ∃ result made, (metadataFetchNew outcomes.search config avahiStart).Ends []
        (result.mapError .error) made ∧
      outcomes.Tried config (getFinders config avahiStart).1 (getFinders config avahiStart).2
        result made := by
  have hsome := getFinders_ne_none config avahiStart
  have honlineKind fs (h : (getFinders config avahiStart).2 = some fs) :=
    ofFinders_online config avahiStart h
  have hofflineKind fs (h : (getFinders config avahiStart).1 = some fs) :=
    ofFinders_offline config avahiStart h
  have hmain := main_onlineFinders config avahiStart
  unfold metadataFetchNew
  generalize getFinders config avahiStart = both at hempty hsome honlineKind hofflineKind hmain ⊢
  obtain ⟨offline, online⟩ := both
  dsimp only at hempty hsome honlineKind hofflineKind hmain ⊢
  rw [if_neg hsome]
  cases offline with
  | none =>
      -- no offline search: what is looked at in its place is an empty record
      have hunusable : ¬ ({} : UpdateRefInfo ρ).IsUsable := fun h => h.1 rfl
      obtain ⟨result, made, hend, htried⟩ :=
        tried_of_online outcomes config (fun hnone => hsome ⟨rfl, hnone⟩) honlineKind
      refine ⟨result, made, (ends_bind_of_ok (ends_pure.2 ⟨rfl, rfl⟩)).2 ?_, htried⟩
      simpa only [if_neg hunusable] using hend
  | some fs =>
      have hsearch := ends_search outcomes (some fs) {} []
      rw [hofflineKind fs rfl] at hsearch
      cases hoffline : outcomes .offline with
      | error e =>
          rw [hoffline] at hsearch
          exact ⟨.error e, [.offline], ends_bind_error.2 (Or.inl hsearch), by simp, by simp,
            by simp [hoffline],
            by simp [Outcomes.FindersFail, Outcomes.Fails, Outcomes.Completed, hoffline],
            by simp [hoffline]⟩
      | ok info =>
          rw [hoffline] at hsearch
          by_cases husable : info.IsUsable
          -- an array that has lost its only finder has found nothing that can be used
          · have hfs : fs ≠ [] := fun hfs => hempty (hfs ▸ rfl) info hoffline husable
            obtain ⟨update, hupdate⟩ := (outcomes.complete _ _ hoffline).toUpdateInfo husable.1 true
              info.results
            refine ⟨.ok (some update), [.offline], (ends_bind_of_ok hsearch).2 ?_, by simp,
              by simp [Outcomes.Completed, hoffline, hfs], fun h => absurd rfl (h update),
              by simp [Outcomes.FindersFail, Outcomes.Fails, Outcomes.Completed, hoffline, hfs],
              by simp [hoffline, husable]⟩
            simp only [if_pos husable]
            exact ends_pure.2 ⟨congrArg Except.ok hupdate.symm, rfl⟩
          · obtain ⟨result, made, hend, htried⟩ :=
              tried_after_offline outcomes config honlineKind hmain hoffline husable
            refine ⟨result, made, (ends_bind_of_ok hsearch).2 ?_, htried⟩
            simpa only [if_neg husable] using hend

/-! ### The search without finders -/

/-- `run_fetchers` passes over an error of its only fetcher, unless this was cancelled. -/
theorem ends_runFetchers_error {fetcher : Program σ Failure (Option (TimedUpdate ρ))} {s t : σ}
    {e : GError} (h : fetcher.Ends s (.error (.error e)) t) :
    (runFetchers [fetcher]).Ends s
      (if e.code = .ioCancelled then .error (.error e) else .ok none) t := by
  have hattempt : (attempt fetcher).Ends s (.ok (.error e)) t := ends_attempt.2 h
  split
  · next hcancelled =>
    refine ends_bind_error.2 (Or.inl ((ends_bind_of_ok hattempt).2 ?_))
    simp only [if_pos hcancelled]
    exact ends_throw.2 ⟨rfl, rfl⟩
  · next hcancelled =>
    refine ends_bind_ok.2 ⟨[], t, (ends_bind_of_ok hattempt).2 ?_, ends_pure.2 ⟨rfl, rfl⟩⟩
    simp only [if_neg hcancelled]
    exact ends_pure.2 ⟨rfl, rfl⟩

/-- It returns what its only fetcher has found. -/
theorem ends_runFetchers_ok {fetcher : Program σ Failure (Option (TimedUpdate ρ))} {s t : σ}
    {found : Option (TimedUpdate ρ)} (h : fetcher.Ends s (.ok found) t) :
    (runFetchers [fetcher]).Ends s (.ok (found.map (·.info))) t := by
  have hattempt : (attempt fetcher).Ends s (.ok (.ok found)) t := ends_attempt.2 h
  have hlatest : getLatestUpdate found.toList = found := by
    cases found <;> simp [getLatestUpdate]
  exact ends_bind_ok.2 ⟨found.toList, t, (ends_bind_of_ok hattempt).2 (ends_pure.2 ⟨rfl, rfl⟩),
    ends_pure.2 ⟨by rw [hlatest], rfl⟩⟩

/-- What the search of the main source comes to: an error makes way for no update, unless it was
cancelled, and a commit is an update. -/
theorem ends_runFetchers (outcomes : Outcomes ρ) (made : List SearchKind) :
    ∃ result : Except GError (Option (EosUpdateInfo ρ)),
      (runFetchers [metadataFetchFromMain outcomes.search]).Ends made
        (result.mapError .error) (.main :: made) ∧
      ((∃ e, outcomes .main = .error e ∧ e.code = .ioCancelled ∧ result = .error e) ∨
        outcomes.Fails .main ∧ result = .ok none ∨
        ∃ info, outcomes .main = .ok info ∧
          (info.commit = none ∧ result = .ok none ∨
            info.commit ≠ none ∧ ∃ update, result = .ok (some update))) := by
  have hsearch := ends_search outcomes none {} made
  rw [show SearchKind.ofFinders none = .main from rfl] at hsearch
  cases hmain : outcomes .main with
  | error e =>
      rw [hmain] at hsearch
      have hend := ends_runFetchers_error
        (ends_bind_error.2 (Or.inl hsearch) : (metadataFetchFromMain outcomes.search).Ends _ _ _)
      -- the loop over the fetchers drops all other errors
      by_cases hcancelled : e.code = .ioCancelled
      · rw [if_pos hcancelled] at hend
        exact ⟨.error e, hend, Or.inl ⟨e, rfl, hcancelled, rfl⟩⟩
      · rw [if_neg hcancelled] at hend
        exact ⟨.ok none, hend, Or.inr (Or.inl ⟨⟨e, hmain, hcancelled⟩, rfl⟩)⟩
  | ok info =>
      rw [hmain] at hsearch
      have hend := ends_runFetchers_ok ((ends_bind_of_ok hsearch).2 (ends_pure.2 ⟨rfl, rfl⟩) :
        (metadataFetchFromMain outcomes.search).Ends _ _ _)
      by_cases hcommit : info.commit = none
      · simp only [hcommit, Option.bind_eq_bind, Option.bind_none, Option.map_none] at hend
        exact ⟨.ok none, hend, Or.inr (Or.inr ⟨info, rfl, Or.inl ⟨hcommit, rfl⟩⟩)⟩
      · obtain ⟨update, hupdate⟩ := (outcomes.complete _ _ hmain).toUpdateInfo hcommit false none
        obtain ⟨commit, hcommit'⟩ := Option.ne_none_iff_exists'.1 hcommit
        simp only [hcommit', hupdate, Option.bind_eq_bind, Option.bind_some] at hend
        exact ⟨.ok (some update), hend,
          Or.inr (Or.inr ⟨info, rfl, Or.inr ⟨hcommit, update, rfl⟩⟩)⟩

/-! ### The fallback, and what a poll comes to -/

/-- What the fallback comes to, after the searches with finders have found nothing: it is not tried,
or its search is cancelled, fails otherwise or is completed. -/
inductive Outcomes.Fallback (outcomes : Outcomes ρ) (config : SourcesConfig) (disableOldCode : Bool)
    (made : List SearchKind) : Except GError (Option (EosUpdateInfo ρ)) → List SearchKind → Prop
  | untried (h : disableOldCode = true ∨ .main ∉ config.downloadOrder) :
      outcomes.Fallback config disableOldCode made (.ok none) made
  | cancelled {e : GError} (htried : ¬ (disableOldCode = true ∨ .main ∉ config.downloadOrder))
      (h : outcomes .main = .error e) (hcode : e.code = .ioCancelled) :
      outcomes.Fallback config disableOldCode made (.error e) (.main :: made)
  | failed (htried : ¬ (disableOldCode = true ∨ .main ∉ config.downloadOrder))
      (h : outcomes.Fails .main) :
      outcomes.Fallback config disableOldCode made (.ok none) (.main :: made)
  | completed {info : UpdateRefInfo ρ} {found : Option (EosUpdateInfo ρ)}
      (htried : ¬ (disableOldCode = true ∨ .main ∉ config.downloadOrder))
      (h : outcomes .main = .ok info) (hfound : found = none ↔ info.commit = none) :
      outcomes.Fallback config disableOldCode made (.ok found) (.main :: made)

/-- The fall-back ends as the outcomes say. -/
theorem ends_metadataFetchFallback (outcomes : Outcomes ρ) (config : SourcesConfig)
    (disableOldCode : Bool) (made : List SearchKind) :
    ∃ result made',
      (metadataFetchFallback outcomes.search config disableOldCode none).Ends made
        (result.mapError .error) made' ∧
      outcomes.Fallback config disableOldCode made result made' := by
  unfold metadataFetchFallback
  by_cases h : disableOldCode = true ∨ .main ∉ config.downloadOrder
  · rw [if_neg (by tauto)]
    exact ⟨.ok none, made, ends_pure.2 ⟨rfl, rfl⟩, .untried h⟩
  · rw [if_pos (by tauto)]
    obtain ⟨result, hend, ⟨e, he, hcode, rfl⟩ | ⟨hfails, rfl⟩ | ⟨info, hinfo, hresult⟩⟩ :=
      ends_runFetchers outcomes made
    · exact ⟨_, _, hend, .cancelled h he hcode⟩
    · exact ⟨_, _, hend, .failed h hfails⟩
    · rcases hresult with ⟨hcommit, rfl⟩ | ⟨hcommit, update, rfl⟩
      · exact ⟨_, _, hend, .completed h hinfo ⟨fun _ => hcommit, fun _ => rfl⟩⟩
      · exact ⟨_, _, hend, .completed h hinfo ⟨nofun, fun hnone => absurd hnone hcommit⟩⟩

/-- What a poll comes to: the searches that were made, whether one of them was completed, and
whether an update was found. -/
structure Outcomes.Polled (outcomes : Outcomes ρ) (config : SourcesConfig)
    (offline online : Terminated OstreeRepoFinder) (disableOldCode : Bool)
    (result : Except GError (Option (EosUpdateInfo ρ))) (made : List SearchKind) : Prop where
  found : ∀ update, result = .ok (some update) → ∃ kind ∈ made, outcomes.Completed offline kind
  nothing : result = .ok none →
    ∀ kind ∈ made, ∀ info, outcomes kind = .ok info → ¬ kind.Finds info
  fail_iff : (result = .ok none ∧ ¬ ∃ kind ∈ made, outcomes.Completed offline kind) ↔
    outcomes.FindersFail offline online ∧
      (disableOldCode = true ∨ .main ∉ config.downloadOrder ∨ outcomes.Fails .main)
  online : .main ∈ config.downloadOrder → .offline ∈ made →
    (∀ info, outcomes .offline = .ok info → ¬ info.IsUsable) →
    .online ∈ made ∨ .main ∈ made ∨ disableOldCode = true ∨
      ∃ e, outcomes .offline = .error e ∧ e.code = .ioCancelled

section Polled

variable {config : SourcesConfig} {offline online : Terminated OstreeRepoFinder}
  {tried result : Except GError (Option (EosUpdateInfo ρ))} {made' : List SearchKind}
  {disableOldCode : Bool}

/-- No search without finders has been made among those with finders. -/
theorem Outcomes.Tried.not_finds (h : outcomes.Tried config offline online tried made)
    (hnothing : ∀ update, tried ≠ .ok (some update)) :
    ∀ kind ∈ made, ∀ info, outcomes kind = .ok info → ¬ kind.Finds info := by
  intro kind hkind info hinfo hfinds
  have hne : kind ≠ .main := fun hmain => h.main (hmain ▸ hkind)
  rw [SearchKind.Finds, if_neg hne] at hfinds
  exact h.nothing hnothing kind hkind info hinfo hfinds

/-- A poll whose searches with finders were cancelled. -/
theorem Outcomes.Tried.polled_of_cancelled {e : GError}
    (h : outcomes.Tried config offline online (.error e) made) (hcode : e.code = .ioCancelled) :
    outcomes.Polled config offline online disableOldCode (.error e) made where
  found := nofun
  nothing := nofun
  fail_iff := ⟨fun h => (nomatch h.1), fun hfail => absurd hcode ((h.fail_iff.1 hfail.1).2 e rfl)⟩
  online := by
    intro hmain hoffline husable
    rcases h.online hmain hoffline with honline | ⟨info, hinfo, hinfo'⟩ | ⟨e', he', heq⟩
    · exact Or.inl honline
    · exact absurd hinfo' (husable info hinfo)
    · cases heq
      exact Or.inr (Or.inr (Or.inr ⟨e, he', hcode⟩))

/-- A poll whose searches with finders have found an update. -/
theorem Outcomes.Tried.polled_of_found {update : EosUpdateInfo ρ}
    (h : outcomes.Tried config offline online (.ok (some update)) made) :
    outcomes.Polled config offline online disableOldCode (.ok (some update)) made where
  found _ _ := h.found update rfl
  nothing := nofun
  fail_iff :=
    ⟨fun h => (nomatch h.1), fun hfail => absurd (h.found update rfl) (h.fail_iff.1 hfail.1).1⟩
  online := by
    intro hmain hoffline husable
    rcases h.online hmain hoffline with honline | ⟨info, hinfo, hinfo'⟩ | ⟨e, -, heq⟩
    · exact Or.inl honline
    · exact absurd hinfo' (husable info hinfo)
    · cases heq

/-- A poll whose searches with finders have come to nothing. -/
theorem Outcomes.Tried.polled_of_fallback (h : outcomes.Tried config offline online tried made)
    (hnothing : ∀ update, tried ≠ .ok (some update))
    (hcancelled : ∀ e, tried = .error e → e.code ≠ .ioCancelled)
    (hfallback : outcomes.Fallback config disableOldCode made result made') :
    outcomes.Polled config offline online disableOldCode result made' := by
  -- the searches with finders were not cancelled, so only their completion matters
  have hfail : outcomes.FindersFail offline online ↔
      ¬ ∃ kind ∈ made, outcomes.Completed offline kind :=
    h.fail_iff.trans (and_iff_left hcancelled)
  have hnot := h.not_finds hnothing
  cases hfallback with
  | untried huntried =>
      refine ⟨nofun, fun _ => hnot, ?_, fun hmain _ _ => ?_⟩
      · rw [hfail]
        tauto
      · exact Or.inr (Or.inr (Or.inl (huntried.resolve_right (not_not_intro hmain))))
  | cancelled htried he hcode =>
      refine ⟨nofun, nofun, ⟨fun h => (nomatch h.1), ?_⟩, fun _ _ _ => Or.inr (Or.inl (by simp))⟩
      rintro ⟨-, hdisabled | hmain | ⟨e', he', hcode'⟩⟩
      · exact absurd (Or.inl hdisabled) htried
      · exact absurd (Or.inr hmain) htried
      · cases he.symm.trans he'
        exact absurd hcode hcode'
  | failed htried hfails =>
      refine ⟨nofun, fun _ kind hkind info hinfo => ?_, ?_, fun _ _ _ => Or.inr (Or.inl (by simp))⟩
      · obtain ⟨e, he, -⟩ := hfails
        rcases List.mem_cons.1 hkind with rfl | hkind
        · cases he.symm.trans hinfo
        · exact hnot kind hkind info hinfo
      -- the search of the fallback is one more that was not completed
      · have hmain : ¬ outcomes.Completed offline .main := by
          rintro ⟨⟨info, hinfo⟩, -⟩
          obtain ⟨e, he, -⟩ := hfails
          cases he.symm.trans hinfo
        simp only [List.mem_cons, exists_eq_or_imp, hmain, false_or, true_and, hfail, hfails,
          or_true, and_true]
  | @completed info found htried hinfo hfound =>
      have hmain : outcomes.Completed offline .main := ⟨⟨info, hinfo⟩, nofun⟩
      refine ⟨fun _ _ => ⟨.main, by simp, hmain⟩, fun hnone kind hkind info' hinfo' => ?_,
        ⟨fun h => absurd ⟨.main, by simp, hmain⟩ h.2, ?_⟩, fun _ _ _ => Or.inr (Or.inl (by simp))⟩
      · rcases List.mem_cons.1 hkind with rfl | hkind
        · cases hinfo.symm.trans hinfo'
          exact fun hfinds => hfinds (hfound.1 (Except.ok.inj hnone))
        · exact hnot kind hkind info' hinfo'
      · rintro ⟨-, hdisabled | hnot | ⟨e, he, -⟩⟩
        · exact absurd (Or.inl hdisabled) htried
        · exact absurd (Or.inr hnot) htried
        · cases hinfo.symm.trans he

end Polled

/-! ### Polls -/

/-- The system is none that can be updated, as far as a poll looks at it. -/
def NotOstreeSystem (booted : Except GError OstreeDeployment) : Prop :=
  ∃ e, booted = .error e ∧ (e.code = .ioNotFound ∨ e.code = .ioFailed)

/-- The system is an OSTree system or the check fails. -/
theorem checkOstreeSystem_cases (booted : Except GError OstreeDeployment) :
    (¬ NotOstreeSystem booted ∧ checkOstreeSystem booted = .ok ()) ∨
      NotOstreeSystem booted ∧ ∃ e, checkOstreeSystem booted = .error e := by
  unfold NotOstreeSystem checkOstreeSystem
  cases booted with
  | ok deployment => exact Or.inl ⟨by simp, rfl⟩
  | error e =>
      by_cases h : e.code = .ioNotFound ∨ e.code = .ioFailed
      · exact Or.inr ⟨⟨e, rfl, h⟩, _, if_pos h⟩
      · exact Or.inl ⟨by simpa using h, if_neg h⟩

/-- On a system that cannot be updated, a poll fails before it searches. -/
theorem ends_of_notOstreeSystem (outcomes : Outcomes ρ) {booted : Except GError OstreeDeployment}
    (h : NotOstreeSystem booted) (config : Except GError SourcesConfig)
    (avahiStart : Except GError Unit) (disableOldCode : Bool) :
    ∃ e, (metadataFetchInternal outcomes.search booted config avahiStart disableOldCode).Ends []
      (.error (.error e)) [] := by
  rcases checkOstreeSystem_cases booted with ⟨hnot, -⟩ | ⟨-, e, he⟩
  · exact absurd h hnot
  · exact ⟨e, ends_bind_error.2 (Or.inl (ends_query.2 ⟨by rw [he]; rfl, rfl⟩))⟩

/-- On other systems, a poll goes on with its searches. -/
theorem ends_metadataFetchInternal {search : Search σ ρ} {booted : Except GError OstreeDeployment}
    (hostree : ¬ NotOstreeSystem booted) {config : SourcesConfig} {avahiStart : Except GError Unit}
    {disableOldCode : Bool} {s t : σ} {result : Except Failure (Option (EosUpdateInfo ρ))}
    (h : (metadataFetchUsingFinders search config avahiStart >>=
      metadataFetchFallback search config disableOldCode).Ends s result t) :
    (metadataFetchInternal search booted (.ok config) avahiStart disableOldCode).Ends s result
      t := by
  have hcheck : checkOstreeSystem booted = .ok () := by
    rcases checkOstreeSystem_cases booted with ⟨-, h⟩ | ⟨h, -⟩
    · exact h
    · exact absurd h hostree
  exact (ends_bind_of_ok (ends_query.2 ⟨by rw [hcheck]; rfl, rfl⟩)).2
    ((ends_bind_of_ok (ends_query.2 ⟨rfl, rfl⟩)).2 h)

/-- An error of the searches with finders is dropped, unless they were cancelled. -/
theorem ends_metadataFetchUsingFinders_error {search : Search σ ρ} {config : SourcesConfig}
    {avahiStart : Except GError Unit} {s t : σ} {e : GError}
    (h : (metadataFetchNew search config avahiStart).Ends s (.error (.error e)) t) :
    (metadataFetchUsingFinders search config avahiStart).Ends s
      (if e.code = .ioCancelled then .error (.error e) else .ok none) t := by
  have hattempt : (attempt (metadataFetchNew search config avahiStart)).Ends s (.ok (.error e)) t :=
    ends_attempt.2 h
  refine (ends_bind_of_ok hattempt).2 ?_
  dsimp only
  split
  · exact ends_throw.2 ⟨rfl, rfl⟩
  · exact ends_pure.2 ⟨rfl, rfl⟩

/-- A fetch that succeeds with the finders is returned. -/
theorem ends_metadataFetchUsingFinders_ok {search : Search σ ρ} {config : SourcesConfig}
    {avahiStart : Except GError Unit} {s t : σ} {found : Option (EosUpdateInfo ρ)}
    (h : (metadataFetchNew search config avahiStart).Ends s (.ok found) t) :
    (metadataFetchUsingFinders search config avahiStart).Ends s (.ok found) t := by
  have hattempt : (attempt (metadataFetchNew search config avahiStart)).Ends s
      (.ok (.ok found)) t := ends_attempt.2 h
  exact (ends_bind_of_ok hattempt).2 (ends_pure.2 ⟨rfl, rfl⟩)

/-- **Polls.** -/
theorem polled_of_metadataFetchInternal (outcomes : Outcomes ρ)
    {booted : Except GError OstreeDeployment} (hostree : ¬ NotOstreeSystem booted)
    (config : SourcesConfig) (avahiStart : Except GError Unit) (disableOldCode : Bool)
    (hempty : (getFinders config avahiStart).1 = some [] →
      ∀ info, outcomes .offline = .ok info → ¬ info.IsUsable) :
    ∃ result made,
      (metadataFetchInternal outcomes.search booted (.ok config) avahiStart disableOldCode).Ends []
        (result.mapError .error) made ∧
      outcomes.Polled config (getFinders config avahiStart).1 (getFinders config avahiStart).2
        disableOldCode result made := by
  obtain ⟨tried, made, hnew, htried⟩ :=
    tried_of_metadataFetchNew outcomes config avahiStart hempty
  -- the fallback, once the searches with finders have come to nothing
  have hnothing (hnone : ∀ update, tried ≠ .ok (some update))
      (hcancelled : ∀ e, tried = .error e → e.code ≠ .ioCancelled)
      (hend : (metadataFetchUsingFinders outcomes.search config avahiStart).Ends []
        (.ok none) made) :
      ∃ result made',
        (metadataFetchInternal outcomes.search booted (.ok config) avahiStart
          disableOldCode).Ends [] (result.mapError .error) made' ∧
        outcomes.Polled config (getFinders config avahiStart).1 (getFinders config avahiStart).2
          disableOldCode result made' := by
    obtain ⟨result, made', hfallback, hcases⟩ :=
      ends_metadataFetchFallback outcomes config disableOldCode made
    exact ⟨result, made',
      ends_metadataFetchInternal hostree ((ends_bind_of_ok hend).2 hfallback),
      htried.polled_of_fallback hnone hcancelled hcases⟩
  cases tried with
  | error e =>
      have hend := ends_metadataFetchUsingFinders_error hnew
      by_cases hcode : e.code = .ioCancelled
      · rw [if_pos hcode] at hend
        exact ⟨.error e, made,
          ends_metadataFetchInternal hostree (ends_bind_error.2 (Or.inl hend)),
          htried.polled_of_cancelled hcode⟩
      · rw [if_neg hcode] at hend
        exact hnothing nofun (fun e' he' => Except.error.inj he' ▸ hcode) hend
  | ok found =>
      have hend := ends_metadataFetchUsingFinders_ok hnew
      cases found with
      | none => exact hnothing nofun nofun hend
      | some update =>
          refine ⟨.ok (some update), made,
            ends_metadataFetchInternal hostree ((ends_bind_of_ok hend).2 ?_),
            htried.polled_of_found⟩
          -- the fallback is not tried once there is an update
          rw [metadataFetchFallback, if_neg fun h => nomatch h.1]
          exact ends_pure.2 ⟨rfl, rfl⟩

/-- The callback of a poll ends in `Ready` exactly if the poll returns no update, and is not
cancelled. -/
theorem Daemon.metadataFetchFinished_ready_iff (daemon : Daemon ρ) (task : Task)
    (result : Except GError (Option (EosUpdateInfo ρ))) (objects : CommitObjects) :
    (daemon.metadataFetchFinished task result objects).updater.state = .ready ↔
      task.cancellable ∉ daemon.cancellables.cancelled ∧ result = .ok none := by
  by_cases hcancelled : task.cancellable ∈ daemon.cancellables.cancelled
  · refine iff_of_false (fun hready => ?_) fun h => h.1 hcancelled
    rw [metadataFetchFinished, daemon.propagate_of_cancelled hcancelled] at hready
    cases hready
  · have hpropagate : daemon.propagate task result = result := if_neg hcancelled
    rcases daemon.metadataFetchFinished_details task result objects with
      ⟨info, hfound, -, hstate⟩ | ⟨hfound, -, hstate⟩ | ⟨e, hfound, -, hstate⟩
    · obtain rfl : result = .ok (some info) := hpropagate.symm.trans hfound
      exact iff_of_false hstate fun h => by cases h.2
    · exact iff_of_true hstate ⟨hcancelled, hpropagate.symm.trans hfound⟩
    · obtain rfl : result = .error e := hpropagate.symm.trans hfound
      exact iff_of_false (fun hready => by cases hstate.symm.trans hready) fun h => by cases h.2

/-- It ends in `Error` if the poll fails or is cancelled. -/
theorem Daemon.metadataFetchFinished_error (daemon : Daemon ρ) {task : Task}
    {result : Except GError (Option (EosUpdateInfo ρ))} (objects : CommitObjects)
    (h : task.cancellable ∈ daemon.cancellables.cancelled ∨ ∃ e, result = .error e) :
    (daemon.metadataFetchFinished task result objects).updater.state = .error := by
  obtain ⟨e, he⟩ : ∃ e, daemon.propagate task result = .error e := by
    rcases h with hcancelled | ⟨e, rfl⟩
    · exact ⟨_, daemon.propagate_of_cancelled hcancelled⟩
    · unfold propagate
      split <;> exact ⟨_, rfl⟩
  rw [metadataFetchFinished, he]
  rfl

/-- How a poll reports what its searches have come to, in the state that it ends in: `Ready` if one
of them was completed and none has found an update, `Error` if none was completed. -/
structure Outcomes.ReportsFailures (outcomes : Outcomes ρ) (config : SourcesConfig)
    (offline : Terminated OstreeRepoFinder) (disableOldCode : Bool) (made : List SearchKind)
    (state : EosUpdaterState) : Prop where
  completed : state = .ready → ∃ kind ∈ made, outcomes.Completed offline kind
  nothing : state = .ready → ∀ kind ∈ made, ∀ info, outcomes kind = .ok info → ¬ kind.Finds info
  failed : (¬ ∃ kind ∈ made, outcomes.Completed offline kind) → state = .error
  online : .main ∈ config.downloadOrder → .offline ∈ made →
    (∀ info, outcomes .offline = .ok info → ¬ info.IsUsable) →
    .online ∈ made ∨ .main ∈ made ∨ disableOldCode = true ∨
      ∃ e, outcomes .offline = .error e ∧ e.code = .ioCancelled

/-- **When polls report failures**: unless, on an OSTree-based system, the searches with finders all
fail and the fallback is not tried or fails as well. Such a poll ends in `Ready`, if it is not
cancelled. -/
theorem poll_reports_failures_iff (outcomes : Outcomes ρ) (booted : Except GError OstreeDeployment)
    (config : SourcesConfig) (avahiStart : Except GError Unit) (disableOldCode : Bool)
    (hempty : (getFinders config avahiStart).1 = some [] →
      ∀ info, outcomes .offline = .ok info → ¬ info.IsUsable)
    (daemon : Daemon ρ) (task : Task) (objects : CommitObjects) :
    ∃ result made,
      (metadataFetchInternal outcomes.search booted (.ok config) avahiStart disableOldCode).Ends []
        (result.mapError .error) made ∧
      (outcomes.ReportsFailures config (getFinders config avahiStart).1 disableOldCode made
          (daemon.metadataFetchFinished task result objects).updater.state ↔
        ¬ (¬ NotOstreeSystem booted ∧ task.cancellable ∉ daemon.cancellables.cancelled ∧
          outcomes.FindersFail (getFinders config avahiStart).1 (getFinders config avahiStart).2 ∧
          (disableOldCode = true ∨ .main ∉ config.downloadOrder ∨ outcomes.Fails .main))) := by
  -- a system that is none of OSTree is reported before any search
  by_cases hostree : NotOstreeSystem booted
  · obtain ⟨e, hend⟩ :=
      ends_of_notOstreeSystem outcomes hostree (.ok config) avahiStart disableOldCode
    refine ⟨.error e, [], hend, iff_of_true ?_ fun h => h.1 hostree⟩
    rw [daemon.metadataFetchFinished_error objects (Or.inr ⟨e, rfl⟩)]
    exact ⟨nofun, nofun, fun _ => rfl, fun _ h => absurd h (by simp)⟩
  · obtain ⟨result, made, hend, hpolled⟩ :=
      polled_of_metadataFetchInternal outcomes hostree config avahiStart disableOldCode hempty
    refine ⟨result, made, hend, ?_⟩
    have hready := daemon.metadataFetchFinished_ready_iff task result objects
    -- a poll that was cancelled is reported as such, whatever it has found
    by_cases hcancelled : task.cancellable ∈ daemon.cancellables.cancelled
    · refine iff_of_true ?_ fun h => h.2.1 hcancelled
      rw [daemon.metadataFetchFinished_error objects (Or.inl hcancelled)]
      exact ⟨nofun, nofun, fun _ => rfl, hpolled.online⟩
    · simp only [hostree, hcancelled, not_false_eq_true, true_and, ← hpolled.fail_iff]
      constructor
      · rintro hreports ⟨hnone, hnot⟩
        exact hnot (hreports.completed (hready.2 ⟨hcancelled, hnone⟩))
      · intro h
        refine ⟨fun hstate => ?_, fun hstate => hpolled.nothing (hready.1 hstate).2, fun hnot => ?_,
          hpolled.online⟩
        · by_contra hnot
          exact h ⟨(hready.1 hstate).2, hnot⟩
        · match result, hpolled, h with
          | .error e, _, _ => exact daemon.metadataFetchFinished_error objects (Or.inr ⟨e, rfl⟩)
          | .ok none, _, h => exact absurd ⟨rfl, hnot⟩ h
          | .ok (some update), hpolled, _ => exact absurd (hpolled.found update rfl) hnot

/-- A configuration with the main source only. -/
def defaultConfig : SourcesConfig := ⟨[.main], none, by decide, by decide, by decide⟩

/-- Searches with one outcome, that a system without an update can have. -/
def allSearches (outcome : Except GError Unit) : Outcomes Unit where
  of _ := outcome.map fun _ => {}
  complete _ info h := by
    cases outcome with
    | error e => cases h
    | ok _ => exact Except.ok.inj h ▸ fun hcommit => absurd rfl hcommit

/-- The daemon while a poll runs. -/
def polling : Daemon Unit := (Daemon.onBusAcquired (.ok "booted") true).call .poll

/-- On an up-to-date system a poll of the main source searches it and ends in `Ready`. -/
theorem upToDate_reports :
    ∃ result made,
      (metadataFetchInternal (allSearches (.ok ())).search
        (.ok ⟨"eos", "booted", some (.ok "eos:eos3")⟩) (.ok defaultConfig) (.ok ()) false).Ends []
        (result.mapError .error) made ∧
      (allSearches (.ok ())).ReportsFailures defaultConfig none false made
        (polling.metadataFetchFinished ⟨0, .metadataFetch⟩ result
          ⟨.ok (), .ok []⟩).updater.state := by
  obtain ⟨result, made, hend, hreports⟩ := poll_reports_failures_iff (allSearches (.ok ()))
    (.ok ⟨"eos", "booted", some (.ok "eos:eos3")⟩) defaultConfig (.ok ()) false
    (fun h => nomatch h) polling ⟨0, .metadataFetch⟩ ⟨.ok (), .ok []⟩
  refine ⟨result, made, hend, hreports.2 fun hfail => ?_⟩
  obtain ⟨e, he, -⟩ : (allSearches (.ok ())).Fails .online := hfail.2.2.1
  cases he

/-- Without a network, every search of a poll of the main source fails, and it ends in `Ready`. -/
theorem noNetwork_ready :
    ∃ result made,
      (metadataFetchInternal (allSearches (.error ⟨.ioFailed, "no network"⟩)).search
        (.ok ⟨"eos", "booted", some (.ok "eos:eos3")⟩) (.ok defaultConfig) (.ok ()) false).Ends []
        (result.mapError .error) made ∧
      made = [.main, .online] ∧
      (∀ kind, (allSearches (.error ⟨.ioFailed, "no network"⟩)).Fails kind) ∧
      (polling.metadataFetchFinished ⟨0, .metadataFetch⟩ result ⟨.ok (), .ok []⟩).updater.state =
        .ready ∧
      ¬ (allSearches (.error ⟨.ioFailed, "no network"⟩)).ReportsFailures defaultConfig none false
        made (polling.metadataFetchFinished ⟨0, .metadataFetch⟩ result
          ⟨.ok (), .ok []⟩).updater.state := by
  have hready : (polling.metadataFetchFinished ⟨0, .metadataFetch⟩ (.ok none)
      ⟨.ok (), .ok []⟩).updater.state = .ready := rfl
  refine ⟨.ok none, [.main, .online], rfl, rfl, fun kind => ⟨_, rfl, nofun⟩, hready,
    fun hreports => ?_⟩
  obtain ⟨kind, -, ⟨info, hinfo⟩, -⟩ := hreports.completed hready
  cases hinfo

end Updater
