import EosUpdater.Updater.Fetch

/-!
# What a fetch owes the scheduler

A fetch that returns has removed every schedule entry that it was given, exactly once
(`entries_released`).

It is not to use the Internet before the scheduler allows it. A fetch of an update that was found
offline does not ask the scheduler, but may fall back to the remote and pull flatpaks all the same
(`contentFetch_scheduled_iff`).
-/

namespace Updater

open Euu Machine Machine.Program

variable {σ ρ : Type}

/-! ### Schedule entries -/

/-- Each entry that was created has been removed once, or is the present one. -/
structure FetchState.Tracked (s : FetchState σ) : Prop where
  created : s.created = s.scheduleEntry.toList ++ s.removed
  nodup : s.created.Nodup
  lt : ∀ entry ∈ s.created, entry < s.created.length

namespace FetchState.Tracked

variable {s t : FetchState σ}

/-- At the start no entry has been created. -/
theorem initial (world : σ) : ({ world } : FetchState σ).Tracked := ⟨rfl, List.nodup_nil, nofun⟩

/-- Creating an entry keeps track of it. -/
theorem createEntry (h : s.Tracked) (hnone : s.scheduleEntry = none) : s.createEntry.Tracked where
  created := by
    have hcreated := h.created
    rw [hnone] at hcreated
    simp [FetchState.createEntry, hcreated]
  -- the new entry has the next number, which no earlier one has
  nodup := List.nodup_cons.2 ⟨fun hmem => absurd (h.lt _ hmem) (lt_irrefl _), h.nodup⟩
  lt entry hentry := by
    rcases List.mem_cons.1 hentry with rfl | hentry
    · exact Nat.lt_succ_self _
    · exact Nat.lt_succ_of_lt (h.lt entry hentry)

/-- Removing an entry keeps track of it. -/
theorem removeEntry (h : s.Tracked) : s.removeEntry.Tracked := ⟨h.created, h.nodup, h.lt⟩

/-- Pulls keep track of the entries. -/
theorem of_pullsOnly (h : s.Tracked) (hpulls : PullsOnly s t) : t.Tracked := by
  constructor
  · rw [hpulls.created, hpulls.scheduleEntry, hpulls.removed, h.created]
  · rw [hpulls.created]
    exact h.nodup
  · rw [hpulls.created]
    exact h.lt

/-- Once the entry is removed, every entry has been removed exactly once. -/
theorem released (h : s.Tracked) (hnone : s.scheduleEntry = none) :
    ∀ entry ∈ s.created, s.removed.count entry = 1 := by
  intro entry hentry
  -- without a present entry, the removed ones are all that were created
  have hcreated : s.created = s.removed := by simpa [hnone] using h.created
  rw [← hcreated]
  exact List.count_eq_one_of_mem h.nodup hentry

end FetchState.Tracked

section Released

variable {services : FetchServices σ ρ} {fetchData : FetchData} {data : EosUpdaterData ρ}
  {scheduler : DownloadScheduler} {s s₁ t : FetchState σ}

/-- The check with the scheduler keeps track of the entries. -/
theorem Checked.tracked {returned : Returned} {offlineResultsOnly : Bool}
    (h : Checked scheduler fetchData offlineResultsOnly s returned t) (hs : s.Tracked)
    (hnone : s.scheduleEntry = none) : t.Tracked := by
  cases h with
  -- in these cases no entry is created
  | bypassed _ | unscheduled _ _ => exact hs
  | permitted _ _ =>
      have hentry := hs.createEntry hnone
      exact ⟨hentry.created, hentry.nodup, hentry.lt⟩
  | refused _ _ => exact (hs.createEntry hnone).removeEntry

/-- The pulls of a fetch pull only. -/
theorem FetchServices.FallsBack.pullsOnly (h : services.FallsBack data s t) : PullsOnly s t := by
  rcases h with ⟨-, rfl⟩ | ⟨results, e, -, hpull, -⟩
  · exact Std.Refl.refl _
  · exact FetchServices.keeps_contentFetchNew _ _ _ _ hpull

/-- A pull that succeeds only pulls. -/
theorem FetchServices.PullSucceeds.pullsOnly (h : services.PullSucceeds fetchData data s t) :
    PullsOnly s t := by
  rcases h with ⟨results, -, hpull⟩ | ⟨s', hfallback, hpull⟩
  · exact FetchServices.keeps_contentFetchNew _ _ _ _ hpull
  · exact IsTrans.trans s s' t hfallback.pullsOnly
      (FetchServices.keeps_contentFetchOld _ _ _ hpull)

/-- What a fetch does between asking the scheduler and removing the entry. -/
theorem FetchServices.Fetched.pullsOnly {result : Except Crash Returned}
    (h : services.Fetched fetchData data scheduler s result t) :
    (∃ e, result = .ok (.failure e) ∧
      (checkScheduler scheduler fetchData data.offlineResultsOnly).Ends s (.ok (.failure e)) t) ∨
    ∃ s₁ s₂, (checkScheduler scheduler fetchData data.offlineResultsOnly).Ends s
        (.ok .success) s₁ ∧ PullsOnly s₁ s₂ ∧
      ((∃ returned, result = .ok returned) ∧ t = s₂.removeEntry ∨
        (∃ crash, result = .error crash) ∧ t = s₂) := by
  -- neither the pull nor the preparation of the flatpaks asks the scheduler
  have hprepared {s₁ s₂ s₃ : FetchState σ} {result : Except Crash Returned}
      (hpull : services.PullSucceeds fetchData data s₁ s₂)
      (hprepare : (services.prepareFlatpaks fetchData).Ends s₂ result s₃) : PullsOnly s₁ s₃ :=
    IsTrans.trans s₁ s₂ s₃ hpull.pullsOnly (FetchServices.keeps_prepareFlatpaks _ _ _ hprepare)
  cases h with
  | refused hchecked => exact Or.inl ⟨_, rfl, hchecked⟩
  | crashed hchecked hresults hpull =>
      exact Or.inr ⟨_, _, hchecked, FetchServices.keeps_contentFetchNew _ _ _ _ hpull,
        Or.inr ⟨⟨_, rfl⟩, rfl⟩⟩
  | cancelled hchecked hresults hpull hcode =>
      exact Or.inr ⟨_, _, hchecked, FetchServices.keeps_contentFetchNew _ _ _ _ hpull,
        Or.inl ⟨⟨_, rfl⟩, rfl⟩⟩
  | failed hchecked hfallback hpull =>
      exact Or.inr ⟨_, _, hchecked, IsTrans.trans _ _ _ hfallback.pullsOnly
        (FetchServices.keeps_contentFetchOld _ _ _ hpull), Or.inl ⟨⟨_, rfl⟩, rfl⟩⟩
  | notPrepared hchecked hpull hprepare | fetched hchecked hpull hprepare =>
      exact Or.inr ⟨_, _, hchecked, hprepared hpull hprepare, Or.inl ⟨⟨_, rfl⟩, rfl⟩⟩
  | unread hchecked hpull hprepare | aborted hchecked hpull hprepare =>
      exact Or.inr ⟨_, _, hchecked, hprepared hpull hprepare, Or.inr ⟨⟨_, rfl⟩, rfl⟩⟩

/-- **Schedule entries are released.** Once a fetch returns there is no entry any more, and each one
that was created has been removed exactly once; and where the scheduler refuses the download, an
error is set. -/
theorem entries_released (world : σ) {returned : Returned}
    (hend : (services.contentFetch fetchData data scheduler).Ends { world } (.ok returned) t) :
    t.scheduleEntry = none ∧ (∀ entry ∈ t.created, t.removed.count entry = 1) ∧
      ∀ result s₁, (checkScheduler scheduler fetchData data.offlineResultsOnly).Ends { world }
          result s₁ →
        ∃ checked, result = .ok checked ∧ (checked.value = false → checked.error ≠ none) := by
  have hreleased : t.Tracked ∧ t.scheduleEntry = none := by
    rcases (FetchServices.fetched_of_ends hend).pullsOnly with
      ⟨e, -, hchecked⟩ | ⟨s₁, s₂, hchecked, hpulls, ⟨-, rfl⟩ | ⟨⟨crash, heq⟩, -⟩⟩
    · obtain ⟨_, heq, hcases⟩ := checked_of_ends hchecked
      obtain rfl := Except.ok.inj heq
      refine ⟨hcases.tracked (.initial world) rfl, ?_⟩
      cases hcases <;> rfl
    · obtain ⟨_, heq, hcases⟩ := checked_of_ends hchecked
      exact ⟨((hcases.tracked (.initial world) rfl).of_pullsOnly hpulls).removeEntry, rfl⟩
    · cases heq
  refine ⟨hreleased.2, hreleased.1.released hreleased.2, fun result s₁ hchecked => ?_⟩
  obtain ⟨checked, rfl, hcases⟩ := checked_of_ends hchecked
  exact ⟨checked, rfl, hcases.consistent.2⟩

end Released

/-- A scheduler that permits the download after a while, and cannot remove the entry. -/
def hesitantScheduler : DownloadScheduler where
  connect := .ok ()
  schedule := .ok ()
  downloadNow := false
  remove := .error ⟨.ioFailed, "no scheduler"⟩
  cancelled := false
  iterations := [[], [.timeout], [.downloadNow true]]

/-- A fetch that waits for this scheduler removes its entry. -/
theorem hesitantScheduler_released :
    ∃ returned t, ((plainServices fun _ => .ok ()).contentFetch (sampleFetch false)
        (foundBySample false) hesitantScheduler).Ends { world := () } (.ok returned) t ∧
      t.created = [0] ∧ t.scheduleEntry = none ∧ t.removed.count 0 = 1 := by
  have hrun : (((plainServices fun _ => .ok ()).contentFetch (sampleFetch false)
      (foundBySample false) hesitantScheduler).run.run { world := () }).map
        (fun run => (run.1.toOption, run.2.created)) = some (some .success, [0]) := by
    decide +kernel
  obtain ⟨⟨result, t⟩, hend, hpair⟩ := Option.map_eq_some_iff.1 hrun
  obtain ⟨hresult, hcreated⟩ := Prod.mk.inj hpair
  obtain rfl := except_toOption_eq_some.1 hresult
  obtain ⟨hnone, hremoved, -⟩ := entries_released () hend
  refine ⟨.success, t, hend, hcreated, hnone, hremoved 0 ?_⟩
  have hcreated : t.created = [0] := hcreated
  simp [hcreated]

/-! ### Flatpaks -/

section Flatpaks

variable {installation : FlatpakInstallation σ}

/-- The error of a transaction that is not started, from `flatpak_transaction_new_for_installation`
or the request that is added. -/
def startError (installation : FlatpakInstallation σ) (s : σ) (transaction : FlatpakTransaction) :
    Option GError :=
  match installation.transactionNew s with
  | .error e => some e
  | .ok () =>
      match installation.transactionAdd s transaction with
      | .error e => some e
      | .ok () => none

/-- A transaction fails to start, or its operation is run. -/
theorem flatpakTransaction_eq (installation : FlatpakInstallation σ) (s : σ)
    (transaction : FlatpakTransaction) :
    flatpakTransaction installation s transaction =
      match startError installation s transaction with
      | some e => (.error e, s)
      | none => transactionRunSingleOp installation s transaction := by
  unfold startError flatpakTransaction
  cases installation.transactionNew s with
  | error e => rfl
  | ok _ =>
      cases installation.transactionAdd s transaction with
      | error e => rfl
      | ok _ => rfl

/-- The transaction that prepares an install. -/
def installTransaction (action : FlatpakRemoteRefAction) : FlatpakTransaction where
  request := .install action.ref.remote action.ref.ref
  noDeploy := !action.isDependency
  noPull := false
  disablePrune := false

/-- The transaction that prepares an update. -/
def updateTransaction (action : FlatpakRemoteRefAction) : FlatpakTransaction where
  request := .update action.ref.ref
  noDeploy := !action.isDependency
  noPull := false
  disablePrune := true

/-- Preparing the actions starts to pull one of them. What is installed already is updated, and what
is not installed is not updated. -/
def startsPull (installation : FlatpakInstallation σ) (s : σ) : List FlatpakRemoteRefAction → Bool
  | [] => false
  | action :: actions =>
      match action.type with
      | .uninstall => startsPull installation s actions
      | .install =>
          match startError installation s (installTransaction action) with
          | none => true
          | some e => e.code = .flatpakAlreadyInstalled &&
              (startError installation s (updateTransaction action)).isNone
      | .update =>
          match startError installation s (updateTransaction action) with
          | none => true
          | some e => e.code = .flatpakNotInstalled && startsPull installation s actions

/-- A transaction that is run has been recorded, with whether the scheduler had allowed it. -/
theorem recorded_transactionRunSingleOp (installation : FlatpakInstallation σ) (s : FetchState σ)
    (transaction : FlatpakTransaction) :
    ⟨.flatpak transaction, s.downloadNow⟩ ∈
      (transactionRunSingleOp (recording installation) s transaction).2.transfers := by
  unfold transactionRunSingleOp
  split
  · next heq =>
    obtain ⟨-, -, rfl⟩ := Prod.mk.inj heq |>.imp_right Prod.mk.inj
    simp [FetchState.start]
  · next heq =>
    obtain ⟨-, -, rfl⟩ := Prod.mk.inj heq |>.imp_right Prod.mk.inj
    split <;> simp [FetchState.start]

/-- From a state on, a flatpak has begun to be pulled. -/
def HasPulledFlatpak (s t : FetchState σ) : Prop :=
  ∃ transaction, transaction.noPull = false ∧ ⟨.flatpak transaction, s.downloadNow⟩ ∈ t.transfers

theorem HasPulledFlatpak.mono {s t u : FetchState σ} (h : HasPulledFlatpak s t)
    (hpulls : PullsOnly t u) : HasPulledFlatpak s u := by
  obtain ⟨transaction, hpull, hmem⟩ := h
  obtain ⟨started, hstarted, -⟩ := hpulls.transfers
  exact ⟨transaction, hpull, hstarted ▸ List.mem_append_right _ hmem⟩

/-- A recorded transaction only pulls. -/
theorem recording_pullsOnly (installation : FlatpakInstallation σ) (s : FetchState σ)
    (transaction : FlatpakTransaction) (handler : OperationError → Bool) :
    PullsOnly s ((recording installation).transactionRun s transaction handler).2.2 :=
  pullsOnly_start s _ _

/-- A transaction that is started has begun to pull. -/
theorem hasPulled_of_started (installation : FlatpakInstallation σ) {s : FetchState σ}
    {transaction : FlatpakTransaction}
    (hpull : transaction.noPull = false)
    (h : startError installation s.world transaction = none) :
    HasPulledFlatpak s (flatpakTransaction (recording installation) s transaction).2 := by
  have hstart : startError (recording installation) s transaction = none := h
  rw [flatpakTransaction_eq, hstart]
  exact ⟨transaction, hpull, recorded_transactionRunSingleOp installation s transaction⟩

/-- A transaction that is not started leaves the fetch as it is. -/
theorem recording_of_startError {s : FetchState σ} {transaction : FlatpakTransaction} {e : GError}
    (h : startError installation s.world transaction = some e) :
    flatpakTransaction (recording installation) s transaction = (.error e, s) := by
  have hstart : startError (recording installation) s transaction = some e := h
  rw [flatpakTransaction_eq, hstart]

/-- Preparing an install has begun to pull, or has failed without that. -/
theorem performInstallPreparation_cases (installation : FlatpakInstallation σ) (s : FetchState σ)
    {action : FlatpakRemoteRefAction} (htype : action.type = .install)
    (actions : List FlatpakRemoteRefAction) :
    startsPull installation s.world (action :: actions) = true ∧
        HasPulledFlatpak s (performActionPreparation (recording installation) s action).2 ∨
      startsPull installation s.world (action :: actions) = false ∧
        ∃ e, performActionPreparation (recording installation) s action = (.error e, s) := by
  have hinstall : flatpakTransactionInstall (recording installation) s action.ref.remote
      action.ref.ref (!action.isDependency) false =
        flatpakTransaction (recording installation) s (installTransaction action) := rfl
  have hupdate s : flatpakTransactionUpdate (recording installation) s action.ref.ref
      (!action.isDependency) false true =
        flatpakTransaction (recording installation) s (updateTransaction action) := rfl
  simp only [startsPull, performActionPreparation, htype, performInstallPreparation, hinstall,
    hupdate]
  -- the install is started; or it is installed already, and is updated; or it fails
  cases hstart : startError installation s.world (installTransaction action) with
  | none =>
      have hpulled := hasPulled_of_started installation rfl hstart
      refine Or.inl ⟨rfl, ?_⟩
      split
      · next heq => rwa [heq] at hpulled
      · next s' heq =>
        rw [heq] at hpulled
        split
        · exact hpulled.mono (flatpakTransaction_keeps (recording_pullsOnly installation) s' _)
        · exact hpulled
  | some e =>
      rw [recording_of_startError hstart]
      dsimp only
      by_cases hcode : e.code = .flatpakAlreadyInstalled
      · simp only [hcode, decide_true, Bool.true_and, if_true]
        cases hagain : startError installation s.world (updateTransaction action) with
        | none => exact Or.inl ⟨rfl, hasPulled_of_started installation rfl hagain⟩
        | some e' => exact Or.inr ⟨rfl, e', recording_of_startError hagain⟩
      · exact Or.inr ⟨by simp [hcode], e, by simp [hcode]⟩

/-- Preparing an update has begun to pull; or it has failed without that, or is passed over. -/
theorem performUpdatePreparation_cases (installation : FlatpakInstallation σ) (s : FetchState σ)
    {action : FlatpakRemoteRefAction} (htype : action.type = .update)
    (actions : List FlatpakRemoteRefAction) :
    startsPull installation s.world (action :: actions) = true ∧
        HasPulledFlatpak s (performActionPreparation (recording installation) s action).2 ∨
      startsPull installation s.world (action :: actions) = false ∧
        (∃ e, performActionPreparation (recording installation) s action = (.error e, s)) ∨
      startsPull installation s.world (action :: actions) =
          startsPull installation s.world actions ∧
        performActionPreparation (recording installation) s action = (.ok (), s) := by
  have hupdate : flatpakTransactionUpdate (recording installation) s action.ref.ref
      (!action.isDependency) false true =
        flatpakTransaction (recording installation) s (updateTransaction action) := rfl
  simp only [startsPull, performActionPreparation, htype, performUpdatePreparation, hupdate]
  -- the update is started; or it is not installed, and is passed over; or it fails
  cases hstart : startError installation s.world (updateTransaction action) with
  | none =>
      have hpulled := hasPulled_of_started installation rfl hstart
      refine Or.inl ⟨rfl, ?_⟩
      split
      · next heq => rwa [heq] at hpulled
      · next heq =>
        rw [heq] at hpulled
        split <;> exact hpulled
  | some e =>
      rw [recording_of_startError hstart]
      dsimp only
      by_cases hcode : e.code = .flatpakNotInstalled
      · exact Or.inr (Or.inr ⟨by simp [hcode], by simp [hcode]⟩)
      · exact Or.inr (Or.inl ⟨by simp [hcode], e, by simp [hcode]⟩)

/-- **Flatpaks.** The loop has begun to pull exactly if one of the actions does, and otherwise
leaves the fetch as it is. -/
theorem pullLoop_cases (installation : FlatpakInstallation σ)
    (actions : List FlatpakRemoteRefAction) (s : FetchState σ)
    (prepared : List FlatpakRemoteRefAction) :
    startsPull installation s.world actions = true ∧
        HasPulledFlatpak s (pullLoop (recording installation) actions s prepared).state ∨
      startsPull installation s.world actions = false ∧
        (pullLoop (recording installation) actions s prepared).state = s := by
  induction actions generalizing prepared with
  | nil => exact Or.inr ⟨rfl, rfl⟩
  | cons action actions ih =>
      -- once a pull has begun, the rest of the loop does not undo that
      have hpulled (hui : action.isUpdateOrInstall = true)
          (h : HasPulledFlatpak s
            (performActionPreparation (recording installation) s action).2) :
          HasPulledFlatpak s
            (pullLoop (recording installation) (action :: actions) s prepared).state := by
        rw [pullLoop, if_pos hui]
        split
        · next s' heq =>
          rw [heq] at h
          exact h.mono (pullLoop_keeps (recording_pullsOnly installation) actions s' _)
        · next heq => rwa [heq] at h
      cases htype : action.type with
      | uninstall =>
          have hui : action.isUpdateOrInstall = false :=
            FlatpakRemoteRefAction.isUpdateOrInstall_eq_false_iff.2 htype
          simpa only [pullLoop, startsPull, htype, hui, Bool.false_eq_true, if_false] using
            ih prepared
      | install =>
          have hui : action.isUpdateOrInstall = true :=
            FlatpakRemoteRefAction.isUpdateOrInstall_of_install htype
          rcases performInstallPreparation_cases installation s htype actions with
            ⟨hstarts, h⟩ | ⟨hstarts, e, he⟩
          · exact Or.inl ⟨hstarts, hpulled hui h⟩
          · exact Or.inr ⟨hstarts, by rw [pullLoop, if_pos hui, he]⟩
      | update =>
          have hui : action.isUpdateOrInstall = true := by
            simp [FlatpakRemoteRefAction.isUpdateOrInstall, htype]
          rcases performUpdatePreparation_cases installation s htype actions with
            ⟨hstarts, h⟩ | ⟨hstarts, e, he⟩ | ⟨hstarts, heq⟩
          · exact Or.inl ⟨hstarts, hpulled hui h⟩
          · exact Or.inr ⟨hstarts, by rw [pullLoop, if_pos hui, he]⟩
          · rw [hstarts, pullLoop, if_pos hui, heq]
            exact ih (prepared ++ [action])

/-- The flatpaks that `pull_flatpaks` goes through, if what comes before it succeeds. -/
def flatpaksToPull (refActionsThisCommitWants : Except ReadFailure RefActionsTable)
    (progresses : Except GError Progresses) (openInstallation : Except GError Unit)
    (installation : FlatpakInstallation σ) (s : σ) :
    Except PreparationFailure (List FlatpakRemoteRefAction) := do
  let wants ← refActionsThisCommitWants.mapError .unread
  let progresses ← progresses.mapError fun e => .failed (.error e)
  openInstallation.mapError fun e => .failed (.error e)
  let withDependencies ← (addDependencyRefActionsForInstallation installation s
    (flattenFlatpakRefActionsTable (filterForNewFlatpakRefActions wants progresses))).mapError
      .failed
  (transitionCollectionIds installation s .empty withDependencies).mapError .failed
  return withDependencies

theorem prepareFlatpaksToDeploy_eq (refActionsThisCommitWants : Except ReadFailure RefActionsTable)
    (progresses : Except GError Progresses) (openInstallation : Except GError Unit)
    (installation : FlatpakInstallation σ) (s : σ) :
    prepareFlatpaksToDeploy refActionsThisCommitWants progresses openInstallation installation s =
      match flatpaksToPull refActionsThisCommitWants progresses openInstallation installation s with
      | .error e => ⟨.error e, s, []⟩
      | .ok actions => pullLoop installation actions s [] := by
  unfold prepareFlatpaksToDeploy flatpaksToPull
  cases refActionsThisCommitWants with
  | error e => rfl
  | ok wants =>
      cases progresses with
      | error e => rfl
      | ok progresses =>
          cases openInstallation with
          | error e => rfl
          | ok _ =>
              simp only [Except.mapError, bind, Except.bind, pullFlatpaks]
              cases addDependencyRefActionsForInstallation installation s
                (flattenFlatpakRefActionsTable
                  (filterForNewFlatpakRefActions wants progresses)) with
              | error e => rfl
              | ok actions =>
                  dsimp only
                  cases transitionCollectionIds installation s .empty actions <;> rfl

/-- Recording does not matter for the check of the remotes. -/
theorem transitionCollectionIds_recording (installation : FlatpakInstallation σ) (s : FetchState σ)
    (cache : GHashTable String (Option String)) (actions : List FlatpakRemoteRefAction) :
    transitionCollectionIds (recording installation) s cache actions =
      transitionCollectionIds installation s.world cache actions := by
  induction actions generalizing cache with
  | nil => rfl
  | cons action actions ih =>
      have hcandidate : candidateRemote (recording installation) s cache action.ref.collectionId =
          candidateRemote installation s.world cache action.ref.collectionId := rfl
      simp only [transitionCollectionIds, hcandidate, ih]

/-- Recording the transactions does not change which flatpaks are gone through. -/
theorem flatpaksToPull_recording (refActionsThisCommitWants : Except ReadFailure RefActionsTable)
    (progresses : Except GError Progresses) (openInstallation : Except GError Unit)
    (installation : FlatpakInstallation σ) (s : FetchState σ) :
    flatpaksToPull refActionsThisCommitWants progresses openInstallation
        (recording installation) s =
      flatpaksToPull refActionsThisCommitWants progresses openInstallation installation
        s.world := by
  have hdependencies (actions : List FlatpakRemoteRefAction) :
      addDependencyRefActionsForInstallation (recording installation) s actions =
        addDependencyRefActionsForInstallation installation s.world actions := rfl
  simp only [flatpaksToPull, hdependencies, transitionCollectionIds_recording]

end Flatpaks

/-! ### Transfers -/

/-- A transfer has its source on the Internet. What finders have found there is, if it is not found
offline only; a remote is, and so are the sources of flatpaks. -/
def Transfer.UsesInternet (offlineResultsOnly : Bool) : Transfer → Prop
  | .results => offlineResultsOnly = false
  | .remote _ _ => True
  | .flatpak transaction => transaction.noPull = false

/-- Every transfer from the Internet was started once the scheduler had allowed it. -/
def FetchState.Scheduled (offlineResultsOnly : Bool) (s : FetchState σ) : Prop :=
  ∀ started ∈ s.transfers, started.transfer.UsesInternet offlineResultsOnly →
    started.downloadNow = true

namespace FetchState

variable {s t : FetchState σ} {offlineResultsOnly : Bool}

/-- Pulls that the scheduler has allowed leave the transfers scheduled. -/
theorem scheduled_of_pullsOnly (h : PullsOnly s t) (hnow : s.downloadNow = true)
    (hs : s.Scheduled offlineResultsOnly) : t.Scheduled offlineResultsOnly := by
  obtain ⟨started, hstarted, hflags⟩ := h.transfers
  intro transfer htransfer huses
  rw [hstarted] at htransfer
  rcases List.mem_append.1 htransfer with hmem | hmem
  · exact (hflags transfer hmem).trans hnow
  · exact hs transfer hmem huses

/-- What is found offline is not on the Internet. -/
theorem scheduled_start_results {world : σ} :
    ({ s.start .results with world } : FetchState σ).Scheduled true ↔ s.Scheduled true := by
  simp [Scheduled, FetchState.start, Transfer.UsesInternet]

/-- One transfer from the Internet that the scheduler has not allowed, and those that were started
after it. -/
theorem not_scheduled {transfer : Transfer} (huses : transfer.UsesInternet offlineResultsOnly)
    (hmem : ⟨transfer, false⟩ ∈ s.transfers) (h : PullsOnly s t) :
    ¬ t.Scheduled offlineResultsOnly := by
  obtain ⟨started, hstarted, -⟩ := h.transfers
  intro hscheduled
  have hnow := hscheduled ⟨transfer, false⟩ (hstarted ▸ List.mem_append_right _ hmem) huses
  cases hnow

end FetchState

namespace FetchServices

variable (services : FetchServices σ ρ) (fetchData : FetchData) (data : EosUpdaterData ρ)

/-- The old code starts its pull if it knows a remote and a commit. -/
def StartsRemote : Prop := ∃ arguments, services.fetchArguments fetchData = .ok arguments

/-- The preparation of the flatpaks starts to pull one. -/
def StartsFlatpak (world : σ) : Prop :=
  ∃ actions, flatpaksToPull (services.refActionsFromOstreeCommit world fetchData.updateId)
      (services.refActionApplicationProgress world) (services.openInstallation world)
      services.installation world = .ok actions ∧
    startsPull services.installation world actions = true

/-- A fetch that gets past the scheduler starts a transfer other than from the results: there are
none, or the pull from them fails otherwise than by a cancellation or a missing object, and the old
code can pull; or the pull succeeds and there is a flatpak to pull. -/
def NeedsInternet (world : σ) : Prop :=
  match data.results with
  | none => services.StartsRemote fetchData
  | some results =>
      match services.pullFromRemotes results false world with
      | (.ok (), world') => services.StartsFlatpak fetchData world'
      | (.error e, _) =>
          e.code ≠ .ioCancelled ∧ e.code ≠ .ioNotFound ∧ services.StartsRemote fetchData

variable {services fetchData data} {s s₂ t : FetchState σ} {result : Except Crash Returned}

/-- The older pull makes a transfer. -/
theorem repoPull_transfers {remoteName ref : String} {urlOverride : Option String}
    (h : (services.repoPull remoteName ref urlOverride).Ends s result t) :
    ⟨.remote remoteName urlOverride, s.downloadNow⟩ ∈ t.transfers := by
  have hrest := (ends_bind_of_ok (ends_perform.2 rfl)).1 h
  have hmem {u : FetchState σ} (hpulls : PullsOnly { s.start (.remote remoteName urlOverride) with
      world := (services.pullWithOptions remoteName (getOptionsForPull ref urlOverride false)
        s.world).2 } u) : ⟨.remote remoteName urlOverride, s.downloadNow⟩ ∈ u.transfers := by
    obtain ⟨started, hstarted, -⟩ := hpulls.transfers
    rw [hstarted]
    exact List.mem_append_right _ List.mem_cons_self
  refine hmem ((?_ : Keeps PullsOnly _) _ _ _ hrest)
  split
  · exact keeps_pure _
  split
  · exact keeps_pure _
  · exact (keeps_readMessage _).bind fun _ => (keeps_pullRemote _ _).bind fun _ => keeps_pure _

/-- The old code starts a pull, or fails and leaves the fetch as it is. -/
theorem contentFetchOld_cases
    (h : (services.contentFetchOld fetchData data).Ends s result t) :
    services.StartsRemote fetchData ∧ (∃ remote url,
        ⟨.remote remote url, s.downloadNow⟩ ∈ t.transfers) ∨
      ¬ services.StartsRemote fetchData ∧ (∃ e, result = .ok (.failure e)) ∧ t = s := by
  unfold contentFetchOld at h
  cases harguments : services.fetchArguments fetchData with
  | error e =>
      rw [harguments] at h
      obtain ⟨rfl, rfl⟩ := ends_pure.1 h
      exact Or.inr ⟨fun ⟨_, hok⟩ => (nomatch harguments.symm.trans hok), ⟨e, rfl⟩, rfl⟩
  | ok arguments =>
      obtain ⟨remote, commitId⟩ := arguments
      rw [harguments] at h
      have hpull := (ends_bind_of_ok (ends_query.2 ⟨rfl, rfl⟩)).1 h
      refine Or.inl ⟨⟨_, harguments⟩, remote, services.urlOverride data s.world, ?_⟩
      rcases ends_bind.1 hpull with ⟨crash, hpull, -⟩ | ⟨pulled, s', hpull, hrest⟩
      · obtain ⟨_, heq, -⟩ := returns_repoPull _ _ _ _ _ _ hpull
        cases heq
      · have hmem := repoPull_transfers hpull
        split at hrest
        · obtain ⟨-, rfl⟩ := ends_pure.1 hrest
          exact hmem
        · obtain ⟨-, rfl⟩ := ends_query.1 hrest
          exact hmem

/-- The preparation of the flatpaks starts a pull, or leaves the fetch as it is. -/
theorem prepareFlatpaks_transfers (h : (services.prepareFlatpaks fetchData).Ends s result t) :
    services.StartsFlatpak fetchData s.world ∧ HasPulledFlatpak s t ∨
      ¬ services.StartsFlatpak fetchData s.world ∧ t = s := by
  have hstate : t = (prepareFlatpaksToDeploy
      (services.refActionsFromOstreeCommit s.world fetchData.updateId)
      (services.refActionApplicationProgress s.world) (services.openInstallation s.world)
      (recording services.installation) s).state := by
    have heq := congrArg Prod.snd (ends_perform.1 h)
    dsimp only at heq
    split at heq <;> exact heq.symm
  rw [prepareFlatpaksToDeploy_eq, flatpaksToPull_recording] at hstate
  unfold StartsFlatpak
  split at hstate
  · next e heq => exact Or.inr ⟨fun ⟨_, hok, _⟩ => (nomatch heq.symm.trans hok), hstate⟩
  · next actions heq =>
    subst hstate
    rcases pullLoop_cases services.installation actions s [] with ⟨hstarts, h⟩ | ⟨hstarts, h⟩
    · exact Or.inl ⟨⟨actions, heq, hstarts⟩, h⟩
    · refine Or.inr ⟨?_, h⟩
      rintro ⟨actions', heq', hstarts'⟩
      obtain rfl := Except.ok.inj (heq.symm.trans heq')
      exact nomatch hstarts.symm.trans hstarts'

/-- The pull from the results starts one transfer, and is the first attempt. -/
theorem contentFetchNew_eq {results : List ρ}
    (h : (services.contentFetchNew results).Ends s result t) :
    t = { s.start .results with world := (services.pullFromRemotes results false s.world).2 } ∧
      ∀ returned, result = .ok returned → ¬ services.MissesObject results s.world ∧
        returned = .of (services.pullFromRemotes results false s.world).1 := by
  by_cases hmisses : services.MissesObject results s.world
  · obtain ⟨rfl, rfl⟩ := (ends_repoPullFromRemotes_of_missesObject hmisses).unique h
    exact ⟨rfl, nofun⟩
  · obtain ⟨rfl, rfl⟩ := (ends_repoPullFromRemotes_of_not_missesObject hmisses).unique h
    exact ⟨rfl, fun returned hreturned => ⟨hmisses, (Except.ok.inj hreturned).symm⟩⟩

/-- A fetch from offline results uses no Internet. -/
theorem contentFetchNew_scheduled {results : List ρ}
    (h : (services.contentFetchNew results).Ends s result t) :
    t.Scheduled true ↔ s.Scheduled true := by
  rw [(contentFetchNew_eq h).1]
  exact FetchState.scheduled_start_results

/-- Falling back leaves the transfers scheduled or not, as they were. -/
theorem FallsBack.scheduled (h : services.FallsBack data s t) :
    t.Scheduled true ↔ s.Scheduled true := by
  rcases h with ⟨-, rfl⟩ | ⟨results, e, -, hpull, -⟩
  · exact Iff.rfl
  · exact contentFetchNew_scheduled hpull

/-- Where the old code is reached, the Internet is needed if it can pull. -/
theorem FallsBack.needsInternet_iff (h : services.FallsBack data s t) :
    services.NeedsInternet fetchData data s.world ↔ services.StartsRemote fetchData := by
  rcases h with ⟨hnone, rfl⟩ | ⟨results, e, hsome, hpull, hcode⟩
  · simp [NeedsInternet, hnone]
  · obtain ⟨hmisses, hreturned⟩ := (contentFetchNew_eq hpull).2 _ rfl
    have hpulled := Returned.of_eq_failure hreturned.symm
    have hfound : e.code ≠ .ioNotFound := fun hcode => hmisses ⟨e, hpulled, hcode⟩
    unfold NeedsInternet
    rw [hsome]
    dsimp only
    cases hresult : services.pullFromRemotes results false s.world with
    | mk pulled world' =>
        obtain rfl : pulled = .error e := by simpa [hresult] using hpulled
        simp [hcode, hfound]

/-- Where one of the pull paths has succeeded, the Internet is needed if it has been the old code or
if a flatpak is to be pulled. -/
theorem PullSucceeds.needsInternet (h : services.PullSucceeds fetchData data s t)
    (hnow : s.downloadNow = false) :
    (services.NeedsInternet fetchData data s.world ∧
      ∃ transfer : Transfer, transfer.UsesInternet true ∧ ⟨transfer, false⟩ ∈ t.transfers) ∨
    (services.NeedsInternet fetchData data s.world ↔ services.StartsFlatpak fetchData t.world) ∧
      (t.Scheduled true ↔ s.Scheduled true) := by
  rcases h with ⟨results, hsome, hpull⟩ | ⟨s', hfallback, hpull⟩
  · obtain ⟨rfl, hreturned⟩ := contentFetchNew_eq hpull
    obtain ⟨-, hreturned⟩ := hreturned _ rfl
    refine Or.inr ⟨?_, FetchState.scheduled_start_results⟩
    unfold NeedsInternet
    rw [hsome]
    dsimp only
    cases hresult : services.pullFromRemotes results false s.world with
    | mk pulled world' =>
        rw [hresult] at hreturned
        cases pulled with
        | ok _ => exact Iff.rfl
        | error e => cases hreturned
  · rcases contentFetchOld_cases hpull with ⟨hstarts, remote, url, hmem⟩ | ⟨-, ⟨e, heq⟩, -⟩
    · rw [hfallback.pullsOnly.downloadNow, hnow] at hmem
      exact Or.inl ⟨hfallback.needsInternet_iff.2 hstarts, .remote remote url, trivial, hmem⟩
    · cases heq

/-- Where the pull from the results crashes or is cancelled, the old code is not reached. -/
theorem not_needsInternet_of_error {results : List ρ} {world : σ} {e : GError}
    (hsome : data.results = some results)
    (h : (services.pullFromRemotes results false world).1 = .error e)
    (hcode : e.code = .ioCancelled ∨ e.code = .ioNotFound) :
    ¬ services.NeedsInternet fetchData data world := by
  unfold NeedsInternet
  rw [hsome]
  dsimp only
  cases hresult : services.pullFromRemotes results false world with
  | mk pulled world' =>
      rw [hresult] at h
      subst h
      rintro ⟨hcancelled, hfound, -⟩
      exact hcode.elim hcancelled hfound

/-- For what was found offline, the scheduler is not asked. -/
theorem eq_of_offline {scheduler : DownloadScheduler} (hoffline : data.offlineResultsOnly = true)
    {returned : Returned}
    (hchecked : (checkScheduler scheduler fetchData data.offlineResultsOnly).Ends s
      (.ok returned) t) : returned = .success ∧ t = s := by
  obtain ⟨_, heq, hcases⟩ := checked_of_ends hchecked
  obtain rfl := Except.ok.inj heq
  cases hcases with
  | bypassed _ => exact ⟨rfl, rfl⟩
  | permitted hasked _ | unscheduled hasked _ | refused hasked _ =>
      exact absurd (Or.inr hoffline) hasked

/-- Once one of the pull paths has succeeded, the flatpaks are prepared, whatever this comes to. -/
theorem PullSucceeds.scheduled_iff {pulled : FetchState σ}
    (h : services.PullSucceeds fetchData data s pulled) (hnow : s.downloadNow = false)
    (hstart : s.Scheduled true)
    (hprepare : (services.prepareFlatpaks fetchData).Ends pulled result t) :
    t.Scheduled true ↔ ¬ services.NeedsInternet fetchData data s.world := by
  rcases h.needsInternet hnow with ⟨hneeds, transfer, huses, hmem⟩ | ⟨hneeds, hscheduled⟩
  · have hkept := keeps_prepareFlatpaks _ _ _ hprepare
    exact iff_of_false (FetchState.not_scheduled huses hmem hkept) (not_not_intro hneeds)
  · rw [hneeds]
    rcases prepareFlatpaks_transfers hprepare with
      ⟨hstarts, transaction, hpulls, hmem⟩ | ⟨hstarts, rfl⟩
    -- the scheduler was never asked, so the transfer was started without its permission
    · rw [h.pullsOnly.downloadNow, hnow] at hmem
      have huses : (Transfer.flatpak transaction).UsesInternet true := hpulls
      exact iff_of_false (FetchState.not_scheduled huses hmem (Std.Refl.refl _))
        (not_not_intro hstarts)
    · exact iff_of_true (hscheduled.2 hstart) hstarts

/-- A fetch of what was found offline, once it has got past the scheduler. -/
theorem Fetched.scheduled_iff {scheduler : DownloadScheduler} (world : σ)
    (h : services.Fetched fetchData data scheduler { world } result t)
    (hoffline : data.offlineResultsOnly = true) :
    t.Scheduled true ↔ ¬ services.NeedsInternet fetchData data world := by
  have hstart : ({ world } : FetchState σ).Scheduled true := nofun
  cases h with
  | refused hchecked => cases (eq_of_offline hoffline hchecked).1
  | crashed hchecked hresults hpull =>
      obtain ⟨-, rfl⟩ := eq_of_offline hoffline hchecked
      rcases contentFetchNew_cases hpull with ⟨⟨e, he, hcode⟩, -⟩ | ⟨-, _, heq, -⟩
      · exact iff_of_true ((contentFetchNew_scheduled hpull).2 hstart)
          (not_needsInternet_of_error hresults he (Or.inr hcode))
      · cases heq
  | cancelled hchecked hresults hpull hcode =>
      obtain ⟨-, rfl⟩ := eq_of_offline hoffline hchecked
      obtain ⟨-, hreturned⟩ := (contentFetchNew_eq hpull).2 _ rfl
      have hscheduled := (contentFetchNew_scheduled hpull).2 hstart
      exact iff_of_true hscheduled
        (not_needsInternet_of_error hresults (Returned.of_eq_failure hreturned.symm) (Or.inl hcode))
  | failed hchecked hfallback hpull =>
      obtain ⟨-, rfl⟩ := eq_of_offline hoffline hchecked
      rcases contentFetchOld_cases hpull with ⟨hstarts, remote, url, hmem⟩ | ⟨hstarts, -, rfl⟩
      · rw [hfallback.pullsOnly.downloadNow] at hmem
        have huses : (Transfer.remote remote url).UsesInternet true := trivial
        have hnot := FetchState.not_scheduled huses hmem (Std.Refl.refl _)
        exact iff_of_false hnot (not_not_intro (hfallback.needsInternet_iff.2 hstarts))
      · have hscheduled := hfallback.scheduled.2 hstart
        exact iff_of_true hscheduled (mt hfallback.needsInternet_iff.1 hstarts)
  | notPrepared hchecked hpull hprepare | unread hchecked hpull hprepare
  | aborted hchecked hpull hprepare | fetched hchecked hpull hprepare =>
      obtain ⟨-, rfl⟩ := eq_of_offline hoffline hchecked
      -- the entry is removed afterwards, which starts nothing
      have hiff := hpull.scheduled_iff rfl hstart hprepare
      exact hiff

/-- **When nothing is downloaded unscheduled**, if the fetch is not forced: unless the update was
found offline and the fetch needs the Internet all the same. -/
theorem contentFetch_scheduled_iff {scheduler : DownloadScheduler} (world : σ)
    (hforce : fetchData.force = false)
    (hend : (services.contentFetch fetchData data scheduler).Ends { world } result t) :
    t.Scheduled data.offlineResultsOnly ↔
      ¬ (data.offlineResultsOnly = true ∧ services.NeedsInternet fetchData data world) := by
  have hfetched := fetched_of_ends hend
  by_cases hoffline : data.offlineResultsOnly = true
  · simpa only [hoffline, true_and] using hfetched.scheduled_iff world hoffline
  · refine iff_of_true ?_ fun h => hoffline h.1
    have hstart : ({ world } : FetchState σ).Scheduled data.offlineResultsOnly := nofun
    rcases hfetched.pullsOnly with ⟨e, -, hchecked⟩ | ⟨s₁, s₂, hchecked, hpulls, hresult⟩
    · obtain ⟨_, heq, hcases⟩ := checked_of_ends hchecked
      cases hcases <;> exact hstart
    · obtain ⟨_, heq, hcases⟩ := checked_of_ends hchecked
      -- the fetch got past the scheduler because this has permitted it
      cases hcases with
      | bypassed h => simp [hforce, hoffline] at h
      | unscheduled _ _ | refused _ _ => cases heq
      | permitted _ _ =>
          have hscheduled := FetchState.scheduled_of_pullsOnly hpulls rfl hstart
          rcases hresult with ⟨-, rfl⟩ | ⟨-, rfl⟩ <;> exact hscheduled

end FetchServices

/-- A fetch of what was found offline, whose pull from the results succeeds and which needs no
flatpak, does not use the Internet. -/
theorem offlineUpdate_scheduled :
    ∃ result t, ((plainServices fun _ => .ok ()).contentFetch (sampleFetch false)
        (foundBySample true) noScheduler).Ends { world := () } (.ok result) t ∧
      t.transfers = [⟨.results, false⟩] ∧ t.Scheduled true := by
  have hrun : (((plainServices fun _ => .ok ()).contentFetch (sampleFetch false)
      (foundBySample true) noScheduler).run.run { world := () }).map
        (fun run => (run.1.toOption, run.2.transfers)) =
      some (some .success, [⟨.results, false⟩]) := by decide +kernel
  obtain ⟨⟨result, t⟩, hend, hpair⟩ := Option.map_eq_some_iff.1 hrun
  obtain ⟨hresult, htransfers⟩ := Prod.mk.inj hpair
  obtain rfl := except_toOption_eq_some.1 hresult
  refine ⟨.success, t, hend, htransfers,
    (FetchServices.contentFetch_scheduled_iff () rfl hend).2 ?_⟩
  rintro ⟨-, actions, hactions, hstarts⟩
  have hnone : flatpaksToPull (.ok .empty) (.ok .empty) (.ok ())
      (reportingInstallation (fun _ => false) fun _ => []) () = .ok [] := by decide +kernel
  obtain rfl := Except.ok.inj (hnone.symm.trans hactions)
  cases hstarts

/-- A fetch of what was found offline, whose pull from the results fails because the volume is gone,
pulls from the remote although the scheduler has not been asked. -/
theorem offlineUpdate_fetched_online :
    ∃ t, ((plainServices fun _ => .error ⟨.ioFailed, "volume is gone"⟩).contentFetch
        (sampleFetch false) (foundBySample true) noScheduler).Ends { world := () }
        (.ok .success) t ∧
      t.transfers = [⟨.remote "eos" none, false⟩, ⟨.results, false⟩] ∧ ¬ t.Scheduled true := by
  have hrun : (((plainServices fun _ => .error ⟨.ioFailed, "volume is gone"⟩).contentFetch
      (sampleFetch false) (foundBySample true) noScheduler).run.run { world := () }).map
        (fun run => (run.1.toOption, run.2.transfers)) =
      some (some .success, [⟨.remote "eos" none, false⟩, ⟨.results, false⟩]) := by decide +kernel
  obtain ⟨⟨result, t⟩, hend, hpair⟩ := Option.map_eq_some_iff.1 hrun
  obtain ⟨hresult, htransfers⟩ := Prod.mk.inj hpair
  obtain rfl := except_toOption_eq_some.1 hresult
  refine ⟨t, hend, htransfers, fun hscheduled => ?_⟩
  have hmem : ⟨.remote "eos" none, false⟩ ∈ t.transfers := htransfers ▸ List.mem_cons_self
  cases hscheduled _ hmem trivial

end Updater
