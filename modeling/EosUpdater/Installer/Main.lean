import EosUpdater.Flatpak.Dependencies
import EosUpdater.Installer.Apply

/-!
# The installer

`main` of `eos-updater-flatpak-installer`, with the functions that determine which actions to apply
or check, and the check itself.

What the installer reads is a parameter: the parsed autoinstall files, or how reading them has
failed, and the counter file. Where reading has failed without an error, the installer crashes. On
files that can be read, performing and stamping apply `actionsToApply`, with or without dependencies
(`mainApply_ok`), and checking looks at `actionsToCheck` (`mainCheck_ok_iff`). It succeeds exactly
if every install is installed and every uninstall is not (`checkRefActionsApplied_iff`).
-/

namespace Eufi

open Euu

variable {σ : Type}

/-- `flatpak_ref_format_ref`. -/
def formatRef (ref : FlatpakRef) : String :=
  (match ref.kind with | .app => "app" | .runtime => "runtime") ++ "/" ++ ref.name ++ "/" ++
    ref.arch ++ "/" ++ ref.branch

/-! ### What to apply and what to check -/

/-- `euu_flatpak_ref_action_application_progress_in_state_path`. No counter file means no
progress. -/
def applicationProgressInStatePath (io : CounterIO) (counterFile : Option Progresses) :
    Except GError Progresses :=
  match io.loadFromFile with
  | none => .ok (counterFile.getD GHashTable.empty)
  | some e => if e.code ≠ .fileNoent then .error e else .ok GHashTable.empty

/-- `flatpak_ref_actions_and_progresses`. -/
def flatpakRefActionsAndProgresses (refActions : Except ReadFailure RefActionsTable)
    (progresses : Except GError Progresses) :
    Except ReadFailure (RefActionsTable × Progresses) :=
  match refActions with
  | .error failure => .error
      (prefixFailure "Could not get flatpak ref actions for this OSTree deployment: " failure)
  | .ok refActions =>
      match progresses with
      | .error e => .error (.error (prefixError
          "Could not get information on which flatpak ref actions have been applied: " e))
      | .ok progresses => .ok (refActions, progresses)

/-- `eufi_determine_flatpak_ref_actions_to_check`. -/
def determineFlatpakRefActionsToCheck (refActions : Except ReadFailure RefActionsTable)
    (progresses : Except GError Progresses) : Except ReadFailure RefActionsTable :=
  match flatpakRefActionsAndProgresses refActions progresses with
  | .error failure => .error failure
  | .ok (refActions, progresses) => .ok (filterForExistingFlatpakRefActions refActions progresses)

/-- `eufi_determine_flatpak_ref_actions_to_apply`. -/
def determineFlatpakRefActionsToApply (refActions : Except ReadFailure RefActionsTable)
    (progresses : Except GError Progresses) : Except ReadFailure RefActionsTable :=
  match flatpakRefActionsAndProgresses refActions progresses with
  | .error failure => .error failure
  | .ok (refActions, progresses) => .ok (filterForNewFlatpakRefActions refActions progresses)

/-! ### The check -/

/-- `check_if_flatpak_is_installed`. -/
def checkIfFlatpakIsInstalled (installation : FlatpakInstallation σ) (s : σ)
    (action : FlatpakRemoteRefAction) : Except GError Bool :=
  match installation.getInstalledRef s action.ref.ref with
  | .ok () => .ok true
  | .error localError =>
      if localError.code ≠ .flatpakNotInstalled then .error localError else .ok false

/-- One iteration of the loop of `eufi_check_ref_actions_applied`: what it adds to the deltas. -/
def checkAction (installation : FlatpakInstallation σ) (s : σ)
    (pendingAction : FlatpakRemoteRefAction) : Except GError String :=
  let formattedRef := formatRef pendingAction.ref.ref
  match pendingAction.type with
  | .install =>
      match checkIfFlatpakIsInstalled installation s pendingAction with
      | .error e => .error e
      | .ok isInstalled =>
          .ok (if isInstalled then "" else
            "Flatpak " ++ formattedRef ++ " should have been installed by " ++
              pendingAction.source ++ " but was not installed\n")
  | .uninstall =>
      match checkIfFlatpakIsInstalled installation s pendingAction with
      | .error e => .error e
      | .ok isInstalled =>
          .ok (if isInstalled then
            "Flatpak " ++ formattedRef ++ " should have been uninstalled by " ++
              pendingAction.source ++ " but was installed\n" else "")
  -- whether an update has been applied cannot be told
  | .update => .ok ""

/-- The loop of `eufi_check_ref_actions_applied`. -/
def checkLoop (installation : FlatpakInstallation σ) (s : σ) :
    List FlatpakRemoteRefAction → String → Except GError String
  | [], deltas => .ok deltas
  | pendingAction :: rest, deltas =>
      match checkAction installation s pendingAction with
      | .error e => .error e
      | .ok delta => checkLoop installation s rest (deltas ++ delta)

/-- `eufi_check_ref_actions_applied`. -/
def checkRefActionsApplied (installation : FlatpakInstallation σ) (s : σ)
    (actions : List FlatpakRemoteRefAction) : Except GError Unit :=
  match checkLoop installation s actions "" with
  | .error e => .error e
  | .ok deltas =>
      if deltas ≠ "" then .error ⟨.ioFailed, "Deltas were detected: " ++ deltas⟩ else .ok ()

/-! ### The program -/

/-- `EosUpdaterInstallerMode`. -/
inductive InstallerMode
  | apply (mode : ApplyMode)
  | check
deriving DecidableEq, Repr

/-- `parse_installer_mode`. -/
def parseInstallerMode (mode : String) : Except GError InstallerMode :=
  if mode = "perform" then .ok (.apply .perform)
  else if mode = "stamp" then .ok (.apply .stamp)
  else if mode = "check" then .ok .check
  else .error ⟨.ioFailed, "Invalid installer mode ‘" ++ mode ++ "’"⟩

/-- The command line options. -/
structure InstallerOptions where
  dryRun : Bool
  mode : Option String
  pull : Bool
deriving DecidableEq, Repr

/-- The exit codes of `main`, and how it ends without one. -/
inductive ExitStatus
  | ok
  | failed
  | invalidArguments
  | checkFailed
  | applyFailed
  /-- An assertion fails. -/
  | aborted
  /-- The message is read of an error that is not there. -/
  | nullRead
  /-- What happens is undefined in C. -/
  | undefined
deriving DecidableEq, Repr

/-- What the program leaves behind: its exit code with the error printed, the installation and the
counter file. -/
structure Finished (σ : Type) where
  status : ExitStatus
  error : Option String
  state : σ
  counterFile : Option Progresses

/-- The actions to apply, with dependencies added if the run also pulls. -/
def handedActions (installation : FlatpakInstallation σ) (s : σ) (pull : Bool)
    (squashedRefActionsToApply : List FlatpakRemoteRefAction) :
    Except Failure (List FlatpakRemoteRefAction) :=
  if pull then addDependencyRefActionsForInstallation installation s squashedRefActionsToApply
  else .ok squashedRefActionsToApply

/-- `fail`, with the message of the error that reading has set. -/
def failedToRead (text : String) : ReadFailure → ExitStatus × Option String
  | .error e => (.failed, some (text ++ e.message))
  | .unset => (.nullRead, none)
  | .undefined => (.undefined, none)

/-- `main`, in check mode. -/
def mainCheck (installation : FlatpakInstallation σ) (s : σ)
    (refActions : Except ReadFailure RefActionsTable) (progresses : Except GError Progresses)
    (dryRun : Bool) : ExitStatus × Option String :=
  match determineFlatpakRefActionsToCheck refActions progresses with
  | .error failure =>
      failedToRead "Could not get information on which flatpak ref actions to check: " failure
  | .ok toCheck =>
      if dryRun then (.ok, none)
      else
        match checkRefActionsApplied installation s (flattenFlatpakRefActionsTable toCheck) with
        | .error e => (.checkFailed, some ("Flatpak ref actions are not up to date: " ++ e.message))
        | .ok () => (.ok, none)

/-- `main`, in perform or stamp mode. -/
def mainApply (installation : FlatpakInstallation σ) (io : CounterIO) (s : σ)
    (refActions : Except ReadFailure RefActionsTable) (counterFile : Option Progresses)
    (mode : ApplyMode) (dryRun pull : Bool) : Finished σ :=
  match determineFlatpakRefActionsToApply refActions
      (applicationProgressInStatePath io counterFile) with
  | .error failure =>
      let (status, error) := failedToRead
        "Could not get information on which flatpak ref actions to apply: " failure
      ⟨status, error, s, counterFile⟩
  | .ok toApply =>
      match handedActions installation s pull (flattenFlatpakRefActionsTable toApply) with
      | .error .aborted => ⟨.aborted, none, s, counterFile⟩
      | .error (.error e) =>
          ⟨.failed, some ("Could not get dependencies for flatpak ref actions: " ++ e.message), s,
            counterFile⟩
      | .ok handed =>
          if dryRun then ⟨.ok, none, s, counterFile⟩
          else
            let applied := applyFlatpakRefActions installation io s counterFile handed mode ⟨pull⟩
            match applied.result with
            | .ok () => ⟨.ok, none, applied.state, applied.counterFile⟩
            | .error .aborted => ⟨.aborted, none, applied.state, applied.counterFile⟩
            | .error (.error e) =>
                ⟨.applyFailed, some ("Couldn’t apply some flatpak update actions for this boot: " ++
                  e.message), applied.state, applied.counterFile⟩

/-- `main`. -/
def main (installation : FlatpakInstallation σ) (getInstallation : Except GError Unit)
    (io : CounterIO) (s : σ) (refActions : Except ReadFailure RefActionsTable)
    (counterFile : Option Progresses) (options : InstallerOptions) : Finished σ :=
  match parseInstallerMode (options.mode.getD "perform") with
  | .error e => ⟨.invalidArguments, some e.message, s, counterFile⟩
  | .ok parsedMode =>
      match getInstallation with
      | .error e =>
          ⟨.failed, some ("Could not get flatpak installation: " ++ e.message), s, counterFile⟩
      | .ok () =>
          match parsedMode with
          | .check =>
              let (status, error) := mainCheck installation s refActions
                (applicationProgressInStatePath io counterFile) options.dryRun
              ⟨status, error, s, counterFile⟩
          | .apply mode =>
              mainApply installation io s refActions counterFile mode options.dryRun options.pull

/-! ### Runs on files that can be read -/

/-- What a run applies, before dependencies are added. -/
def actionsToApply (files : RefActionsTable) (counterFile : Option Progresses) :
    List FlatpakRemoteRefAction :=
  flattenFlatpakRefActionsTable
    (filterForNewFlatpakRefActions files (counterFile.getD GHashTable.empty))

/-- What a check looks at. -/
def actionsToCheck (files : RefActionsTable) (counterFile : Option Progresses) :
    List FlatpakRemoteRefAction :=
  flattenFlatpakRefActionsTable
    (filterForExistingFlatpakRefActions files (counterFile.getD GHashTable.empty))

variable {installation : FlatpakInstallation σ} {s : σ} {files : RefActionsTable}
variable {counterFile : Option Progresses}

/-- Where the files and the counter can be read, the new entries are to be applied. -/
theorem determineFlatpakRefActionsToApply_ok :
    determineFlatpakRefActionsToApply (.ok files)
        (applicationProgressInStatePath .reliable counterFile) =
      .ok (filterForNewFlatpakRefActions files (counterFile.getD GHashTable.empty)) := rfl

/-- Where the files and the counter can be read, the recorded entries are to be checked. -/
theorem determineFlatpakRefActionsToCheck_ok :
    determineFlatpakRefActionsToCheck (.ok files)
        (applicationProgressInStatePath .reliable counterFile) =
      .ok (filterForExistingFlatpakRefActions files (counterFile.getD GHashTable.empty)) := rfl

/-- A run that exits successfully has applied the list handed over. -/
theorem mainApply_ok {mode : ApplyMode} {pull : Bool}
    (h : (mainApply installation .reliable s (.ok files) counterFile mode false pull).status =
      .ok) :
    ∃ handed, handedActions installation s pull (actionsToApply files counterFile) = .ok handed ∧
      (applyFlatpakRefActions installation .reliable s counterFile handed mode ⟨pull⟩).result =
        .ok () ∧
      mainApply installation .reliable s (.ok files) counterFile mode false pull =
        ⟨.ok, none,
          (applyFlatpakRefActions installation .reliable s counterFile handed mode ⟨pull⟩).state,
          (applyFlatpakRefActions installation .reliable s counterFile handed mode
            ⟨pull⟩).counterFile⟩ := by
  simp only [mainApply, determineFlatpakRefActionsToApply_ok] at h ⊢
  rw [← actionsToApply] at h ⊢
  -- whatever fails has another status than that of success
  cases hhanded : handedActions installation s pull (actionsToApply files counterFile) with
  | error failure =>
      rw [hhanded] at h
      cases failure with
      | error e => cases h
      | aborted => cases h
  | ok handed =>
      rw [hhanded] at h
      refine ⟨handed, rfl, ?_⟩
      cases hresult : (applyFlatpakRefActions installation .reliable s counterFile handed mode
          ⟨pull⟩).result with
      | ok => simp [hresult]
      | error failure =>
          cases failure with
          | error e => simp [hresult] at h
          | aborted => simp [hresult] at h

/-- A check exits successfully exactly if the actions it looks at are found applied. -/
theorem mainCheck_ok_iff :
    (mainCheck installation s (.ok files) (applicationProgressInStatePath .reliable counterFile)
        false).1 = .ok ↔
      checkRefActionsApplied installation s (actionsToCheck files counterFile) = .ok () := by
  simp only [mainCheck, determineFlatpakRefActionsToCheck_ok]
  rw [← actionsToCheck]
  cases hcheck : checkRefActionsApplied installation s (actionsToCheck files counterFile) with
  | error e => simp
  | ok => simp

/-! ### What the check finds -/

private theorem checkAction_eq {refs : σ → FlatpakRef → RefState}
    (hdeploys : DeploysRefs installation refs) (a : FlatpakRemoteRefAction) :
    ∃ delta, checkAction installation s a = .ok delta ∧
      (delta = "" ↔ (a.type = .install → refs s (refKey a) ≠ .absent) ∧
        (a.type = .uninstall → refs s (refKey a) = .absent)) := by
  have hcheck : checkIfFlatpakIsInstalled installation s a =
      .ok (decide (refs s (refKey a) ≠ .absent)) := by
    rw [checkIfFlatpakIsInstalled]
    by_cases habsent : refs s (refKey a) = .absent
    · obtain ⟨message, herror⟩ := hdeploys.not_installed s _ habsent
      simp [herror, habsent]
    · simp [hdeploys.installed s _ habsent, habsent]
  rw [checkAction]
  cases htype : a.type with
  | update => exact ⟨"", rfl, by simp⟩
  | install =>
      simp only [hcheck]
      refine ⟨_, rfl, ?_⟩
      by_cases habsent : refs s (refKey a) = .absent <;> simp [habsent]
  | uninstall =>
      simp only [hcheck]
      refine ⟨_, rfl, ?_⟩
      by_cases habsent : refs s (refKey a) = .absent <;> simp [habsent]

/-- **What the check says**: it succeeds exactly if each install is installed and each uninstall is
not. -/
theorem checkRefActionsApplied_iff {refs : σ → FlatpakRef → RefState}
    (hdeploys : DeploysRefs installation refs) (actions : List FlatpakRemoteRefAction) :
    checkRefActionsApplied installation s actions = .ok () ↔
      ∀ a ∈ actions, (a.type = .install → refs s (refKey a) ≠ .absent) ∧
        (a.type = .uninstall → refs s (refKey a) = .absent) := by
  have hloop : ∀ deltas, ∃ deltas', checkLoop installation s actions deltas = .ok deltas' ∧
      (deltas' = "" ↔ deltas = "" ∧ ∀ a ∈ actions,
        (a.type = .install → refs s (refKey a) ≠ .absent) ∧
          (a.type = .uninstall → refs s (refKey a) = .absent)) := by
    induction actions with
    | nil => exact fun deltas => ⟨deltas, rfl, by simp⟩
    | cons a actions ih =>
        intro deltas
        obtain ⟨delta, hdelta, hiff⟩ := checkAction_eq (s := s) hdeploys a
        obtain ⟨deltas', hrest, hiff'⟩ := ih (deltas ++ delta)
        refine ⟨deltas', by rw [checkLoop, hdelta]; exact hrest, ?_⟩
        rw [hiff', String.append_eq_empty_iff, hiff, List.forall_mem_cons, and_assoc]
  obtain ⟨deltas, hdeltas, hiff⟩ := hloop ""
  rw [checkRefActionsApplied, hdeltas]
  by_cases hempty : deltas = ""
  · simpa [hempty] using hiff.1 hempty
  · simpa [hempty] using mt hiff.2 hempty

end Eufi
