import EosUpdater.Util.Error

/-!
# The D-Bus object of the daemon

The properties of `com.endlessm.Updater` and the two functions of `object.c` through which the
daemon changes its state, each of which announces the new state with a `StateChanged` signal.
-/

namespace Updater

open Euu

/-- `EosUpdaterState`. -/
inductive EosUpdaterState
  | none
  | ready
  | error
  | polling
  | updateAvailable
  | fetching
  | updateReady
  | applyingUpdate
  | updateApplied
deriving DecidableEq, Repr

/-- `eos_updater_state_to_string`. -/
def EosUpdaterState.toString : EosUpdaterState → String
  | none => "None"
  | ready => "Ready"
  | error => "Error"
  | polling => "Polling"
  | updateAvailable => "UpdateAvailable"
  | fetching => "Fetching"
  | updateReady => "UpdateReady"
  | applyingUpdate => "ApplyUpdate"
  | updateApplied => "UpdateApplied"

/-- `EosUpdater`: the properties of the object, as the generated skeleton initialises them, and the
`StateChanged` signals that it has emitted, the most recent one first. A string that has not been
set is `none`. -/
structure EosUpdater where
  state : EosUpdaterState := .none
  updateId : Option String := none
  updateRefspec : Option String := none
  originalRefspec : Option String := none
  currentId : Option String := none
  updateLabel : Option String := none
  updateMessage : Option String := none
  version : Option String := none
  updateIsUserVisible : Bool := false
  releaseNotesUri : Option String := none
  downloadSize : ℤ := 0
  downloadedBytes : ℤ := 0
  unpackedSize : ℤ := 0
  fullDownloadSize : ℤ := 0
  fullUnpackedSize : ℤ := 0
  errorCode : ℕ := 0
  errorName : Option String := none
  errorMessage : Option String := none
  stateChanged : List EosUpdaterState := []
deriving DecidableEq, Repr

namespace EosUpdater

/-- `eos_updater_set_state_changed`. -/
def setStateChanged (updater : EosUpdater) (state : EosUpdaterState) : EosUpdater :=
  { updater with state, stateChanged := state :: updater.stateChanged }

/-- `eos_updater_set_error`. Without an error it reports a failure of the updater itself. -/
def setError (updater : EosUpdater) (error : Option GError) : EosUpdater :=
  let error := error.getD
    ⟨.ioFailed, "Error in updater: error state set without appropriate message"⟩
  -- `ErrorCode` is an unsigned property, while the codes of an error domain are signed
  { updater with
    errorName := some error.code.dbusName
    errorCode := (error.code.number % 2 ^ 32).toNat
    errorMessage := some error.message }.setStateChanged .error

/-- `eos_updater_clear_error`. -/
def clearError (updater : EosUpdater) (state : EosUpdaterState) : EosUpdater :=
  { updater with errorName := some "", errorCode := 0, errorMessage := some "" }.setStateChanged
    state

variable (updater : EosUpdater) (error : Option GError) (state : EosUpdaterState)

/-- Setting an error enters the error state. -/
@[simp] theorem setError_state : (updater.setError error).state = .error := rfl

@[simp] theorem clearError_updateId : (updater.clearError state).updateId = updater.updateId := rfl

@[simp] theorem clearError_updateRefspec :
    (updater.clearError state).updateRefspec = updater.updateRefspec := rfl

end EosUpdater

end Updater
