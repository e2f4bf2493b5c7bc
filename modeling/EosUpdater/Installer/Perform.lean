import EosUpdater.Flatpak.Table
import EosUpdater.Flatpak.Installation

/-!
# Performing actions and keeping the counter

`perform-flatpak-actions.c` of the library behind `eos-updater-flatpak-installer`: performing one
action, updating the counter file, and applying a list of actions.

The counter file is kept as the table that its key file stands for (`none` if there is no file);
`CounterIO` says which of the calls on it fail.

`performAction_ok` and `performAction_error` say what performing an action does to an installation
that tracks refs.
-/

namespace Eufi

open Euu

variable {σ : Type}

/-! ### The functions -/

/-- `EosUpdaterInstallerMode`, less the check mode, which does not apply actions. -/
inductive ApplyMode
  | perform
  | stamp
deriving DecidableEq, Repr

/-- `EosUpdaterInstallerFlags`. -/
structure InstallerFlags where
  alsoPull : Bool
deriving DecidableEq, Repr

/-- `try_update_application`. -/
def tryUpdateApplication (installation : FlatpakInstallation σ) (s : σ) (ref : FlatpakRef)
    (flags : InstallerFlags) : Except Failure Unit × σ :=
  let noPull := !flags.alsoPull
  match flatpakTransactionUpdate installation s ref false noPull true with
  | (.ok (), s') => (.ok (), s')
  | (.error localError, s') =>
      -- an update of what is not installed counts as done
      if localError.code = .flatpakNotInstalled then (.ok (), s')
      else (.error (.error localError), s')

/-- The error `try_install_application` sets when the collection ID belongs to another remote. -/
def remoteConflict (inRemoteName collectionId candidateRemoteName : String) : GError where
  code := .updaterFlatpakRemoteConflict
  message := "Specified flatpak remote ‘" ++ inRemoteName ++
    "’ conflicts with the remote detected for collection ID ‘" ++ collectionId ++ "’ (‘" ++
    candidateRemoteName ++ "’), cannot continue."

/-- The remote that conflicts with the one to install from, if there is one. Errors while looking
for it are ignored. -/
def conflictingRemote (installation : FlatpakInstallation σ) (s : σ) (collectionId : Option String)
    (inRemoteName : String) : Option GError :=
  match collectionId with
  | none => none
  | some collectionId =>
      match lookupFlatpakRemoteForCollectionId installation s collectionId with
      | .error _ => none
      | .ok candidateRemoteName =>
          if inRemoteName ≠ candidateRemoteName then
            some (remoteConflict inRemoteName collectionId candidateRemoteName)
          else none

/-- `try_install_application`. -/
def tryInstallApplication (installation : FlatpakInstallation σ) (s : σ)
    (collectionId : Option String) (inRemoteName : Option String) (ref : FlatpakRef)
    (flags : InstallerFlags) : Except Failure Unit × σ :=
  let noPull := !flags.alsoPull
  match inRemoteName with
  -- `g_assert (in_remote_name != NULL)`
  | none => (.error .aborted, s)
  | some remoteName =>
      match conflictingRemote installation s collectionId remoteName with
      | some conflict => (.error (.error conflict), s)
      | none =>
          match flatpakTransactionInstall installation s (some remoteName) ref false noPull with
          | (.ok (), s') => (.ok (), s')
          | (.error localError, s') =>
              if localError.code ≠ .flatpakAlreadyInstalled then (.error (.error localError), s')
              else
                -- what is installed already is updated instead
                match flatpakTransactionUpdate installation s' ref false noPull true with
                | (.ok (), s'') => (.ok (), s'')
                | (.error e, s'') => (.error (.error e), s'')

/-- `try_uninstall_application`. -/
def tryUninstallApplication (installation : FlatpakInstallation σ) (s : σ) (ref : FlatpakRef) :
    Except Failure Unit × σ :=
  match flatpakTransactionUninstall installation s ref true with
  | (.ok (), s') => (.ok (), s')
  | (.error localError, s') =>
      if localError.code ≠ .flatpakNotInstalled then (.error (.error localError), s')
      else (.ok (), s')

/-- `perform_action`. -/
def performAction (installation : FlatpakInstallation σ) (s : σ) (action : FlatpakRemoteRefAction)
    (flags : InstallerFlags) : Except Failure Unit × σ :=
  match action.type with
  | .install =>
      tryInstallApplication installation s action.ref.collectionId action.ref.remote
        action.ref.ref flags
  | .update => tryUpdateApplication installation s action.ref.ref flags
  | .uninstall => tryUninstallApplication installation s action.ref.ref

/-- The errors of the file operations in `update_counter`; `none` is success. Loading reports
`fileNoent` if there is no counter file yet. -/
structure CounterIO where
  makeDirectoryWithParents : Option GError
  loadFromFile : Option GError
  saveToFile : Option GError

/-- Every operation succeeds. -/
def CounterIO.reliable : CounterIO := ⟨none, none, none⟩

/-- `update_counter`: the result, and the counter file afterwards. -/
def updateCounter (io : CounterIO) (counterFile : Option Progresses) (newProgresses : Progresses) :
    Except GError Unit × Option Progresses :=
  match io.makeDirectoryWithParents.filter fun e => e.code ≠ .ioExists with
  | some e => (.error e, counterFile)
  | none =>
      match io.loadFromFile.filter fun e => e.code ≠ .fileNoent with
      | some e => (.error e, counterFile)
      | none =>
          match io.saveToFile with
          | some e => (.error e, counterFile)
          | none =>
              -- a file that does not exist yet is loaded as an empty one
              let counterKeyfile :=
                if io.loadFromFile.isSome then GHashTable.empty
                else counterFile.getD GHashTable.empty
              (.ok (), some (counterKeyfile.setAll newProgresses))

/-- How the loop of `eufi_apply_flatpak_ref_actions` ends, with the progresses it collected. -/
inductive LoopEnd (σ : Type)
  | done (s : σ) (newProgresses : Progresses)
  | failed (error : GError) (s : σ) (newProgresses : Progresses)
  | aborted (s : σ)

/-- The loop of `eufi_apply_flatpak_ref_actions`. -/
def applyLoop (installation : FlatpakInstallation σ) (mode : ApplyMode) (flags : InstallerFlags) :
    List FlatpakRemoteRefAction → σ → Progresses → LoopEnd σ
  | [], s, newProgresses => .done s newProgresses
  | pendingAction :: rest, s, newProgresses =>
      -- dependencies are only expected if the run also pulls
      if pendingAction.isDependency && !flags.alsoPull then .aborted s
      else
        match if mode = .perform then performAction installation s pendingAction flags
          else (.ok (), s) with
        | (.error (.error e), s') => .failed e s' newProgresses
        | (.error .aborted, s') => .aborted s'
        | (.ok (), s') =>
            applyLoop installation mode flags rest s'
              (newProgresses.replace pendingAction.source pendingAction.serial)

/-- What a run leaves behind: its result, the installation and the counter file. -/
structure Applied (σ : Type) where
  result : Except Failure Unit
  state : σ
  counterFile : Option Progresses

/-- `eufi_apply_flatpak_ref_actions`. If an action fails, the counter is still updated, and an
error in doing so is only logged. -/
def applyFlatpakRefActions (installation : FlatpakInstallation σ) (io : CounterIO) (s : σ)
    (counterFile : Option Progresses) (actions : List FlatpakRemoteRefAction) (mode : ApplyMode)
    (flags : InstallerFlags) : Applied σ :=
  match applyLoop installation mode flags actions s GHashTable.empty with
  | .aborted s' => ⟨.error .aborted, s', counterFile⟩
  | .failed e s' newProgresses =>
      ⟨.error (.error e), s', (updateCounter io counterFile newProgresses).2⟩
  | .done s' newProgresses =>
      match updateCounter io counterFile newProgresses with
      | (.ok (), counterFile') => ⟨.ok (), s', counterFile'⟩
      | (.error e, counterFile') => ⟨.error (.error e), s', counterFile'⟩

/-! ### What performing an action does -/

variable {installation : FlatpakInstallation σ} {refs : σ → FlatpakRef → RefState}
variable {s s' : σ} {flags : InstallerFlags} {action : FlatpakRemoteRefAction}

/-- An update that succeeds leaves its ref updated. -/
private theorem tryUpdateApplication_ok (htracks : TracksRefs installation refs) {ref : FlatpakRef}
    (h : tryUpdateApplication installation s ref flags = (.ok (), s')) :
    refs s' = setRef (refs s) ref (RefState.after .update (refs s ref)) := by
  simp only [tryUpdateApplication] at h
  split at h
  -- the update succeeds, so the ref was installed
  · next s₁ hupdate =>
      cases h
      obtain ⟨hinstalled, hrefs⟩ := htracks.update_ok _ _ _ _ _ hupdate
      rw [hrefs]
      cases href : refs s ref with
      | absent => exact absurd href hinstalled
      | outdated => rfl
      | latest => rfl
  -- the ref was not installed, and an update leaves it so
  · next e s₁ hupdate =>
      split at h
      · next hcode =>
          cases h
          obtain ⟨code, message⟩ := e
          cases hcode
          rw [htracks.failed _ _ _ _ hupdate,
            htracks.update_not_installed _ _ _ _ _ _ hupdate]
          ext r
          by_cases hr : r = ref
          · rw [setRef, if_pos hr, hr, htracks.update_not_installed _ _ _ _ _ _ hupdate]
            rfl
          · rw [setRef, if_neg hr]
      · cases h

/-- An install that succeeds leaves its ref at the latest version. -/
private theorem tryInstallApplication_ok (htracks : TracksRefs installation refs)
    {collectionId remote : Option String} {ref : FlatpakRef}
    (h : tryInstallApplication installation s collectionId remote ref flags = (.ok (), s')) :
    refs s' = setRef (refs s) ref .latest := by
  simp only [tryInstallApplication] at h
  split at h
  · cases h
  split at h
  · cases h
  split at h
  · next s₁ hinstall =>
      cases h
      exact htracks.install_ok _ _ _ _ _ hinstall
  -- the ref was installed already and is updated, which ends in the same state as an install
  · next e s₁ hinstall =>
      split at h
      · cases h
      split at h
      · next s₂ hupdate =>
          cases h
          rw [(htracks.update_ok _ _ _ _ _ hupdate).2, htracks.failed _ _ _ _ hinstall]
      · cases h

/-- An uninstall that succeeds leaves its ref absent. -/
private theorem tryUninstallApplication_ok (htracks : TracksRefs installation refs)
    {ref : FlatpakRef} (h : tryUninstallApplication installation s ref = (.ok (), s')) :
    refs s' = setRef (refs s) ref .absent := by
  simp only [tryUninstallApplication] at h
  split at h
  · next s₁ huninstall =>
      cases h
      exact htracks.uninstall_ok _ _ _ _ huninstall
  -- the ref was not installed, which is what an uninstall is for
  · next e s₁ huninstall =>
      split at h
      · cases h
      · next hcode =>
          cases h
          obtain ⟨code, message⟩ := e
          obtain rfl : code = .flatpakNotInstalled := by simpa using hcode
          rw [htracks.failed _ _ _ _ huninstall]
          ext r
          by_cases hr : r = ref
          · rw [setRef, if_pos hr, hr, htracks.uninstall_not_installed _ _ _ _ _ huninstall]
          · rw [setRef, if_neg hr]

/-- An action that succeeds has done to its ref what its type says, and nothing else. -/
theorem performAction_ok (htracks : TracksRefs installation refs)
    (h : performAction installation s action flags = (.ok (), s')) :
    refs s' = setRef (refs s) (refKey action)
      (RefState.after action.type (refs s (refKey action))) := by
  cases htype : action.type with
  | install =>
      simp only [performAction, htype] at h
      exact tryInstallApplication_ok htracks h
  | update =>
      simp only [performAction, htype] at h
      exact tryUpdateApplication_ok htracks h
  | uninstall =>
      simp only [performAction, htype] at h
      exact tryUninstallApplication_ok htracks h

/-- An action that fails has changed no ref. -/
theorem performAction_error (htracks : TracksRefs installation refs) {e : GError}
    (h : performAction installation s action flags = (.error (.error e), s')) :
    refs s' = refs s := by
  cases htype : action.type with
  | install =>
      simp only [performAction, htype, tryInstallApplication] at h
      split at h
      · cases h
      split at h
      · cases h
        rfl
      split at h
      · cases h
      · next e₁ s₁ hinstall =>
          split at h
          · cases h
            exact htracks.failed _ _ _ _ hinstall
          split at h
          · cases h
          -- two transactions fail one after the other, neither with an effect
          · next e₂ s₂ hupdate =>
              cases h
              rw [htracks.failed _ _ _ _ hupdate, htracks.failed _ _ _ _ hinstall]
  | update =>
      simp only [performAction, htype, tryUpdateApplication] at h
      split at h
      · cases h
      · next e₁ s₁ hupdate =>
          split at h
          · cases h
          · cases h
            exact htracks.failed _ _ _ _ hupdate
  | uninstall =>
      simp only [performAction, htype, tryUninstallApplication] at h
      split at h
      · cases h
      · next e₁ s₁ huninstall =>
          split at h
          · cases h
            exact htracks.failed _ _ _ _ huninstall
          · cases h

/-! ### The counter -/

/-- With reliable file operations the counter file takes in every new progress. -/
theorem updateCounter_reliable (counterFile : Option Progresses) (newProgresses : Progresses) :
    updateCounter .reliable counterFile newProgresses =
      (.ok (), some ((counterFile.getD GHashTable.empty).setAll newProgresses)) := rfl

end Eufi
