import EosUpdater.Flatpak.DependencyOrder

/-!
# Preparing flatpaks while fetching

The part of `fetch.c` that pulls, before the reboot, the flatpaks that
`eos-updater-flatpak-installer` will deploy after it. The list to prepare is the flattened list of
new actions with dependencies added; the installer executes the flattened list as it is, and cannot
pull.

A run that succeeds has prepared every install and update of its own list (`pullFlatpaks_ok`). An
install or update of the installer's list may still be missing, since a related uninstall can take
its place while fetching. `all_prepared_iff` says exactly when this does not happen.
-/

namespace Updater

open Euu Overwrite FlatpakRemoteRefAction

variable {σ : Type}

/-! ### The functions -/

/-- The error for a collection ID that belongs to another remote than the one specified. -/
def preparationConflict (remote collectionId candidateRemoteName : String) : GError where
  code := .updaterFlatpakRemoteConflict
  message := "Specified flatpak remote '" ++ remote ++
    "' conflicts with the remote detected for collection ID '" ++ collectionId ++ "' ('" ++
    candidateRemoteName ++ "'), cannot continue."

/-- The remote for a collection ID, from the cache or by looking it up, and the cache afterwards.
A failed lookup is cached as well. -/
def candidateRemote (installation : FlatpakInstallation σ) (s : σ)
    (collectionIdsToRemoteNames : GHashTable String (Option String))
    (collectionId : Option String) : Option String × GHashTable String (Option String) :=
  match collectionId with
  | none => (none, collectionIdsToRemoteNames)
  | some collectionId =>
      match collectionIdsToRemoteNames.lookup collectionId with
      | some candidateRemoteName => (candidateRemoteName, collectionIdsToRemoteNames)
      | none =>
          let foundRemoteName :=
            match lookupFlatpakRemoteForCollectionId installation s collectionId with
            | .ok name => some name
            | .error _ => none
          (foundRemoteName, collectionIdsToRemoteNames.replace collectionId foundRemoteName)

/-- `transition_pending_ref_action_collection_ids_to_remote_names`: cross-check the remotes of the
installs. -/
def transitionCollectionIds (installation : FlatpakInstallation σ) (s : σ) :
    GHashTable String (Option String) → List FlatpakRemoteRefAction → Except Failure Unit
  | _, [] => .ok ()
  | cache, action :: actions =>
      if action.type ≠ .install then transitionCollectionIds installation s cache actions
      else
        match action.ref.remote with
        | none => .error .aborted
        | some remote =>
            let (candidate, cache') := candidateRemote installation s cache action.ref.collectionId
            match candidate with
            | some candidateRemoteName =>
                if remote ≠ candidateRemoteName then
                  .error (.error (preparationConflict remote
                    (action.ref.collectionId.getD "") candidateRemoteName))
                else transitionCollectionIds installation s cache' actions
            | none => transitionCollectionIds installation s cache' actions

/-- `perform_install_preparation`. Only dependencies are deployed at once. -/
def performInstallPreparation (installation : FlatpakInstallation σ) (s : σ)
    (ref : FlatpakLocationRef) (isDependency : Bool) : Except GError Unit × σ :=
  let noDeploy := !isDependency
  match flatpakTransactionInstall installation s ref.remote ref.ref noDeploy false with
  | (.ok (), s') => (.ok (), s')
  | (.error localError, s') =>
      if localError.code = .flatpakAlreadyInstalled then
        flatpakTransactionUpdate installation s' ref.ref noDeploy false true
      else (.error localError, s')

/-- `perform_update_preparation`. -/
def performUpdatePreparation (installation : FlatpakInstallation σ) (s : σ)
    (ref : FlatpakLocationRef) (isDependency : Bool) : Except GError Unit × σ :=
  let noDeploy := !isDependency
  match flatpakTransactionUpdate installation s ref.ref noDeploy false true with
  | (.ok (), s') => (.ok (), s')
  | (.error localError, s') =>
      if localError.code ≠ .flatpakNotInstalled then (.error localError, s') else (.ok (), s')

/-- `perform_action_preparation`. -/
def performActionPreparation (installation : FlatpakInstallation σ) (s : σ)
    (action : FlatpakRemoteRefAction) : Except GError Unit × σ :=
  match action.type with
  | .install => performInstallPreparation installation s action.ref action.isDependency
  | .update => performUpdatePreparation installation s action.ref action.isDependency
  | .uninstall => (.ok (), s)

/-- How the preparation fails: in reading the autoinstall files of the commit, or after that. -/
inductive PreparationFailure
  | unread (failure : ReadFailure)
  | failed (failure : Failure)
deriving DecidableEq, Repr

/-- How pulling ends, with the actions that were prepared. -/
structure Pulled (σ : Type) where
  result : Except PreparationFailure Unit
  state : σ
  prepared : List FlatpakRemoteRefAction

/-- The loop of `pull_flatpaks`. -/
def pullLoop (installation : FlatpakInstallation σ) :
    List FlatpakRemoteRefAction → σ → List FlatpakRemoteRefAction → Pulled σ
  | [], s, prepared => ⟨.ok (), s, prepared⟩
  | action :: actions, s, prepared =>
      if action.isUpdateOrInstall then
        match performActionPreparation installation s action with
        | (.ok (), s') => pullLoop installation actions s' (prepared ++ [action])
        | (.error e, s') => ⟨.error (.failed (.error e)), s', prepared⟩
      else pullLoop installation actions s prepared

/-- `pull_flatpaks`. -/
def pullFlatpaks (installation : FlatpakInstallation σ) (s : σ)
    (pendingFlatpakRefActions : List FlatpakRemoteRefAction) : Pulled σ :=
  match transitionCollectionIds installation s GHashTable.empty pendingFlatpakRefActions with
  | .error e => ⟨.error (.failed e), s, []⟩
  | .ok () => pullLoop installation pendingFlatpakRefActions s []

/-- `prepare_flatpaks_to_deploy`, given what it reads: the autoinstall files of the commit, the
progress, and whether the installation could be opened. -/
def prepareFlatpaksToDeploy (refActionsThisCommitWants : Except ReadFailure RefActionsTable)
    (progresses : Except GError Progresses) (openInstallation : Except GError Unit)
    (installation : FlatpakInstallation σ) (s : σ) : Pulled σ :=
  match refActionsThisCommitWants with
  | .error failure => ⟨.error (.unread failure), s, []⟩
  | .ok wants =>
      match progresses with
      | .error e => ⟨.error (.failed (.error e)), s, []⟩
      | .ok progresses =>
          let relevant := filterForNewFlatpakRefActions wants progresses
          let flatpaksToDeploy := flattenFlatpakRefActionsTable relevant
          match openInstallation with
          | .error e => ⟨.error (.failed (.error e)), s, []⟩
          | .ok () =>
              match addDependencyRefActionsForInstallation installation s flatpaksToDeploy with
              | .error e => ⟨.error (.failed e), s, []⟩
              | .ok withDependencies => pullFlatpaks installation s withDependencies

/-! ### What is prepared -/

/-- Where every pull succeeds, all installs and updates have been prepared. -/
private theorem pullLoop_ok {installation : FlatpakInstallation σ} {s : σ}
    {actions prepared : List FlatpakRemoteRefAction}
    (h : (pullLoop installation actions s prepared).result = .ok ()) :
    (pullLoop installation actions s prepared).prepared =
      prepared ++ actions.filter FlatpakRemoteRefAction.isUpdateOrInstall := by
  induction actions generalizing s prepared with
  | nil => simp [pullLoop]
  | cons a actions ih =>
      rw [pullLoop] at h ⊢
      cases hui : a.isUpdateOrInstall with
      | true =>
          rw [hui, if_pos rfl] at h
          rw [if_pos rfl, List.filter_cons_of_pos hui]
          cases hprepare : performActionPreparation installation s a with
          | mk result s' =>
              rw [hprepare] at h
              cases result with
              | error e => cases h
              | ok => exact (ih h).trans (by simp)
      | false =>
          rw [hui, if_neg Bool.false_ne_true] at h
          rw [if_neg Bool.false_ne_true, List.filter_cons_of_neg (by simp [hui])]
          exact ih h

/-- What pulls flatpaks reads no autoinstall files. -/
private theorem pullLoop_ne_unread (installation : FlatpakInstallation σ)
    (actions : List FlatpakRemoteRefAction) (s : σ) (prepared : List FlatpakRemoteRefAction)
    (failure : ReadFailure) :
    (pullLoop installation actions s prepared).result ≠ .error (.unread failure) := by
  induction actions generalizing s prepared with
  | nil => simp [pullLoop]
  | cons a actions ih =>
      rw [pullLoop]
      split
      · split
        · exact ih _ _
        · simp
      · exact ih _ _

/-- Reading the autoinstall files fails for the preparation exactly if it fails. -/
theorem prepareFlatpaksToDeploy_eq_unread {refActions : Except ReadFailure RefActionsTable}
    {progresses : Except GError Progresses} {openInstallation : Except GError Unit}
    {installation : FlatpakInstallation σ} {s : σ} {failure : ReadFailure} :
    (prepareFlatpaksToDeploy refActions progresses openInstallation installation s).result =
        .error (.unread failure) ↔ refActions = .error failure := by
  unfold prepareFlatpaksToDeploy
  cases refActions with
  | error failure' => simp
  | ok wants =>
      refine iff_of_false ?_ (by simp)
      cases progresses with
      | error e => simp
      | ok progresses =>
          cases openInstallation with
          | error e => simp
          | ok _ =>
              dsimp only
              split
              · simp
              · rw [pullFlatpaks]
                split
                · simp
                · exact pullLoop_ne_unread installation _ s [] failure

/-- A run that succeeds has prepared every install and update of its list. -/
theorem pullFlatpaks_ok {installation : FlatpakInstallation σ} {s : σ}
    {actions : List FlatpakRemoteRefAction}
    (h : (pullFlatpaks installation s actions).result = .ok ()) :
    (pullFlatpaks installation s actions).prepared =
      actions.filter FlatpakRemoteRefAction.isUpdateOrInstall := by
  rw [pullFlatpaks] at h ⊢
  split at h
  · cases h
  · exact pullLoop_ok h

/-- What a preparation that succeeds has prepared. -/
theorem prepareFlatpaksToDeploy_ok {wants : RefActionsTable} {progresses : Progresses}
    {openInstallation : Except GError Unit} {installation : FlatpakInstallation σ} {s : σ}
    (h : (prepareFlatpaksToDeploy (.ok wants) (.ok progresses) openInstallation installation
      s).result = .ok ()) :
    (prepareFlatpaksToDeploy (.ok wants) (.ok progresses) openInstallation installation
        s).prepared =
      (squashRefActionsPtrArray (addDependencies (reportedActions installation s)
        (flattenFlatpakRefActionsTable (filterForNewFlatpakRefActions wants progresses)))).filter
          FlatpakRemoteRefAction.isUpdateOrInstall := by
  simp only [prepareFlatpaksToDeploy] at h ⊢
  split at h
  · cases h
  · split at h
    · cases h
    · next O hO =>
        obtain rfl := (addDependencyRefActions_eq_ok hO).symm
        exact pullFlatpaks_ok h

variable {related : FlatpakRemoteRefAction → List FlatpakRemoteRefAction}
variable {L : List FlatpakRemoteRefAction} {x w : FlatpakRemoteRefAction}

/-- No related uninstall takes the place of `x`: there is none for an action behind `x`, and if `x`
is an update, there is none at all. -/
def Undisturbed (related : FlatpakRemoteRefAction → List FlatpakRemoteRefAction)
    (L : List FlatpakRemoteRefAction) (x : FlatpakRemoteRefAction) : Prop :=
  ∀ c ∈ L, (GLib.Before L x c ∨ x.type = .update) → ∀ u ∈ related c, refKey u = refKey x →
    u.type ≠ .uninstall

/-- What is left on the ref of an install or update `x` is one as well exactly if nothing takes the
place of `x`. -/
theorem winner_isUpdateOrInstall_iff (hrel : RelatedActions related) (hL : FlattenedList L)
    (hx : x ∈ L) (hxui : x.isUpdateOrInstall = true)
    (hw : winner refKey FlatpakRemoteRefAction.overridesUpdate (addDependencies related L)
      (refKey x) = some w) : w.isUpdateOrInstall = true ↔ Undisturbed related L x := by
  have hwx := key_of_winner hw
  have hext := extension_addDependencies hrel hL.not_dependency
  have hplace := placement hrel hL hx
  constructor
  · intro hwui c hc hcase u hu hux hutype
    have huninstall := isUpdateOrInstall_eq_false_iff.2 hutype
    have hstrong := overridesUpdate_of_uninstall huninstall
    rcases hcase with hxc | hupdate
    · -- a related install or update on this ref is in front of `x`
      have hxw : ¬ GLib.Before (addDependencies related L) x w := fun hxw => by
        rcases hplace.of_after w hxw with hw' | ⟨c', -, hwc', -⟩
        · obtain rfl := hL.eq_of_refKey_eq hx hw'.mem_right hwx.symm
          exact hw'.ne hL.nodup rfl
        · exact GLib.pairwise_iff_before.1 hext.first x w hxw (hrel.isDependency c' w hwc') hwui
            hwx.symm
      have hweak := (weak_behind hw hxw (hplace.uninstall_after c (Or.inl hxc) u hu huninstall)
        hux).1
      rw [hstrong] at hweak
      cases hweak
    · -- an uninstall overrides the update `x`, and whatever wins over it is an uninstall too
      have hne : u ≠ w := fun heq => by rw [heq, hwui] at huninstall; cases huninstall
      obtain ⟨huw, hwstrong⟩ := before_winner hw (hext.uninstalls c hc u hu huninstall) hux hstrong
        hne
      rcases hext.mem w (mem_of_winner hw) with hwL | ⟨c', -, hwc', -⟩
      · rw [hL.eq_of_refKey_eq hwL hx hwx, FlatpakRemoteRefAction.overridesUpdate, hupdate]
          at hwstrong
        cases hwstrong
      · exact GLib.pairwise_iff_before.1 hext.first u w huw (hrel.isDependency c' w hwc') hwui
          (hux.trans hwx.symm)
  · intro hundisturbed
    by_contra hwui
    rw [Bool.not_eq_true] at hwui
    have hwtype := isUpdateOrInstall_eq_false_iff.1 hwui
    -- an uninstall that wins is no action of the list, as `x` is the only one on its ref
    rcases hext.mem w (mem_of_winner hw) with hwL | ⟨c, hc, hwc, -⟩
    · rw [hL.eq_of_refKey_eq hwL hx hwx, hxui] at hwui
      cases hwui
    · cases htype : x.type with
      | update => exact hundisturbed c hc (Or.inr htype) w hwc hwx hwtype
      | uninstall =>
          rw [isUpdateOrInstall_eq_false_iff.2 htype] at hxui
          cases hxui
      | install =>
          have hxstrong := overridesUpdate_of_install htype
          have hne : x ≠ w := fun heq => by rw [heq, hwui] at hxui; cases hxui
          have hxw := (before_winner hw (hext.sublist.subset hx) rfl hxstrong hne).1
          -- behind `x`, it is related to an action behind `x`
          rcases hplace.of_after w hxw with hw' | ⟨c', hc', hwc', -⟩
          · exact hne (hL.eq_of_refKey_eq hx hw'.mem_right hwx.symm)
          · rcases hc' with hc' | ⟨-, hui⟩
            · exact hundisturbed c' hc'.mem_right (Or.inl hc') w hwc' hwx hwtype
            · rw [hxui] at hui
              cases hui

/-- **When everything that will be deployed has been prepared.** If the preparation succeeds, each
install and update in the list that the installer will execute has its ref among the prepared
ones, exactly if no related uninstall takes the place of any of them. -/
theorem all_prepared_iff (T : AutoinstallTable) (progresses : Progresses)
    {openInstallation : Except GError Unit} (installation : FlatpakInstallation σ) (s : σ)
    (h : (prepareFlatpaksToDeploy (.ok T.files) (.ok progresses) openInstallation installation
      s).result = .ok ()) :
    let executed := flattenFlatpakRefActionsTable (filterForNewFlatpakRefActions T.files progresses)
    let prepared := (prepareFlatpaksToDeploy (.ok T.files) (.ok progresses) openInstallation
      installation s).prepared
    (∀ x ∈ executed, x.isUpdateOrInstall = true →
      ∃ y ∈ prepared, y.isUpdateOrInstall = true ∧ refKey y = refKey x) ↔
      ∀ x ∈ executed, x.isUpdateOrInstall = true →
        Undisturbed (reportedActions installation s) executed x := by
  intro executed prepared
  have hL : FlattenedList executed := flattenedList_new T progresses
  have hrel := relatedActions_reportedActions installation s
  refine forall_congr' fun x => forall_congr' fun hx => forall_congr' fun hxui => ?_
  obtain ⟨w, hw⟩ := exists_winner refKey FlatpakRemoteRefAction.overridesUpdate
    ((extension_addDependencies hrel hL.not_dependency).sublist.subset hx)
  have hwx := key_of_winner hw
  rw [← winner_isUpdateOrInstall_iff hrel hL hx hxui hw]
  -- what was prepared are the winners that are no uninstalls
  have hmem : ∀ y, y ∈ prepared ↔ winner refKey FlatpakRemoteRefAction.overridesUpdate
      (addDependencies (reportedActions installation s) executed) (refKey y) = some y ∧
        y.isUpdateOrInstall = true := fun y => by
    rw [← mem_squash_iff_winner, ← List.mem_filter]
    exact iff_of_eq (congrArg (y ∈ ·) (prepareFlatpaksToDeploy_ok h))
  constructor
  · rintro ⟨y, hy, hyui, hyx⟩
    have hyw := ((hmem y).1 hy).1
    rw [hyx, hw] at hyw
    rwa [Option.some_inj.1 hyw]
  · intro hwui
    exact ⟨w, (hmem w).2 ⟨by rw [hwx]; exact hw, hwui⟩, hwui, hwx⟩

/-! ### What preparing does to the state -/

section Keeps

variable {R : σ → σ → Prop} [Std.Refl R] [IsTrans σ R] {installation : FlatpakInstallation σ}

omit [IsTrans σ R] in
/-- A transaction keeps what running transactions keeps. -/
theorem flatpakTransaction_keeps
    (h : ∀ s transaction handler, R s (installation.transactionRun s transaction handler).2.2)
    (s : σ) (transaction : FlatpakTransaction) :
    R s (flatpakTransaction installation s transaction).2 := by
  unfold flatpakTransaction
  split
  · exact Std.Refl.refl s
  split
  · exact Std.Refl.refl s
  have hrun := h s transaction transactionOperationError
  unfold transactionRunSingleOp
  split
  · next heq => rwa [heq] at hrun
  · next heq =>
    rw [heq] at hrun
    split <;> exact hrun

/-- Preparing an action keeps what running transactions keeps. -/
theorem performActionPreparation_keeps
    (h : ∀ s transaction handler, R s (installation.transactionRun s transaction handler).2.2)
    (s : σ) (action : FlatpakRemoteRefAction) :
    R s (performActionPreparation installation s action).2 := by
  unfold performActionPreparation
  cases action.type with
  | uninstall => exact Std.Refl.refl s
  | install =>
      dsimp only [performInstallPreparation, flatpakTransactionInstall]
      have hinstall := flatpakTransaction_keeps h s
        ⟨.install action.ref.remote action.ref.ref, !action.isDependency, false, false⟩
      split
      · next heq => rwa [heq] at hinstall
      · next s' heq =>
        rw [heq] at hinstall
        split
        · exact IsTrans.trans s s' _ hinstall (flatpakTransaction_keeps h s' _)
        · exact hinstall
  | update =>
      dsimp only [performUpdatePreparation, flatpakTransactionUpdate]
      have hupdate := flatpakTransaction_keeps h s
        ⟨.update action.ref.ref, !action.isDependency, false, true⟩
      split
      · next heq => rwa [heq] at hupdate
      · next heq =>
        rw [heq] at hupdate
        split <;> exact hupdate

/-- Preparing a list keeps what running transactions keeps. -/
theorem pullLoop_keeps
    (h : ∀ s transaction handler, R s (installation.transactionRun s transaction handler).2.2)
    (actions : List FlatpakRemoteRefAction) (s : σ) (prepared : List FlatpakRemoteRefAction) :
    R s (pullLoop installation actions s prepared).state := by
  induction actions generalizing s prepared with
  | nil => exact Std.Refl.refl s
  | cons action actions ih =>
      rw [pullLoop]
      have hprepare := performActionPreparation_keeps h s action
      split
      · split
        · next s' heq =>
          rw [heq] at hprepare
          exact IsTrans.trans s s' _ hprepare (ih s' _)
        · next heq => rwa [heq] at hprepare
      · exact ih s prepared

/-- What every transaction keeps, the preparation keeps as well. -/
theorem prepareFlatpaksToDeploy_keeps (installation : FlatpakInstallation σ)
    (h : ∀ s transaction handler, R s (installation.transactionRun s transaction handler).2.2)
    (refActionsThisCommitWants : Except ReadFailure RefActionsTable)
    (progresses : Except GError Progresses) (openInstallation : Except GError Unit) (s : σ) :
    R s (prepareFlatpaksToDeploy refActionsThisCommitWants progresses openInstallation installation
      s).state := by
  unfold prepareFlatpaksToDeploy
  split
  · exact Std.Refl.refl s
  split
  · exact Std.Refl.refl s
  dsimp only
  split
  · exact Std.Refl.refl s
  split
  · exact Std.Refl.refl s
  unfold pullFlatpaks
  split
  · exact Std.Refl.refl s
  · exact pullLoop_keeps h _ s []

end Keeps

/-! ### An app that is not prepared -/

/-- A plugin of an app: both are installed, and uninstalling the app also removes the plugin. -/
def appWithPlugin : FlatpakInstallation Unit :=
  reportingInstallation (fun _ => true) fun request =>
    match request with
    | .uninstall ref =>
        [⟨.uninstall, ref, some "eos-apps"⟩,
          ⟨.uninstall, { ref with name := "org.example.App.Plugin" }, some "eos-apps"⟩]
    | _ => []

/-- One file installs the plugin, and a later entry uninstalls the app. -/
def pluginThenApp : AutoinstallTable :=
  .ofFiles
    [("10-a", [sampleAction .install "org.example.App.Plugin" "10-a" 1,
      sampleAction .uninstall "org.example.App" "10-a" 2])]
    (by decide) (by decide)

/-- While fetching, the plugin is to be uninstalled, so it is not pulled; the installer will
install it. -/
theorem plugin_not_prepared :
    let fetched := prepareFlatpaksToDeploy (.ok pluginThenApp.files) (.ok .empty) (.ok ())
      appWithPlugin ()
    let x := sampleAction .install "org.example.App.Plugin" "10-a" 1
    fetched.result = .ok () ∧
      x ∈ flattenFlatpakRefActionsTable
        (filterForNewFlatpakRefActions pluginThenApp.files .empty) ∧
      ¬ ∃ y ∈ fetched.prepared, refKey y = refKey x := by
  decide +kernel

/-- With the app not installed, the plugin is prepared. -/
theorem plugin_prepared :
    let installation := reportingInstallation (fun _ => false) fun _ => []
    ∀ x ∈ flattenFlatpakRefActionsTable
        (filterForNewFlatpakRefActions pluginThenApp.files .empty), x.isUpdateOrInstall = true →
      ∃ y ∈ (prepareFlatpaksToDeploy (.ok pluginThenApp.files) (.ok .empty) (.ok ()) installation
        ()).prepared, y.isUpdateOrInstall = true ∧ refKey y = refKey x := by
  intro installation
  refine (all_prepared_iff pluginThenApp .empty installation () (by decide +kernel)).2 ?_
  have hnone : ∀ c ∈ flattenFlatpakRefActionsTable
      (filterForNewFlatpakRefActions pluginThenApp.files .empty),
        reportedActions installation () c = [] := by
    decide +kernel
  intro x _ _ c hc _ u hu
  rw [hnone c hc] at hu
  cases hu

end Updater
