import EosUpdater.Avahi.Main
import EosUpdater.UpdateServer.Config

/-!
# The program that updates the advertisement

`main` of `eos-updater-avahi.c`. It reads the configuration of the update server, for whether
updates are advertised; if they are not, the service file is gone once the program has succeeded
(`lookup_of_main_ok`).
-/

namespace Avahi

open Euu

/-- The exit codes of `main`. -/
inductive ExitStatus
  | ok
  | failed
  | invalidArguments
  | badConfiguration
deriving DecidableEq, Repr

/-- The value of an exit code. -/
def ExitStatus.number : ExitStatus → ℕ
  | .ok => 0
  | .failed => 1
  | .invalidArguments => 2
  | .badConfiguration => 3

/-- How `main` ends. -/
inductive Exit
  | status (status : ExitStatus)
  | aborted
deriving DecidableEq, Repr

/-- `main`, from the `--config-file` that GOption finds, or its error. The messages are left out. -/
def main (options : Except GError (Option String)) (disk : String → ConfigContents)
    (dirs : Eus.Directories) (defaultKeyFile : GLib.KeyFile) (env : Environment)
    (sysroot : Sysroot) (io : DirectoryIO) (directory : Directory) : Exit × Directory :=
  match options with
  | .error _ => (.status .invalidArguments, directory)
  | .ok configFile =>
      match Eus.readConfigFile disk dirs defaultKeyFile configFile with
      | .error (.error _) => (.status .badConfiguration, directory)
      | .error .aborted => (.aborted, directory)
      | .ok (advertiseUpdates, _) =>
          match updateServiceFile env sysroot io directory advertiseUpdates with
          | (.returned (.ok ()), directory) => (.status .ok, directory)
          | (.returned (.error (some _)), directory) => (.status .failed, directory)
          -- there is no error to take a message from
          | (.returned (.error none), directory) => (.aborted, directory)
          | (.aborted, directory) => (.aborted, directory)

variable {disk : String → ConfigContents}
  {dirs : Eus.Directories} {defaultKeyFile : GLib.KeyFile} {env : Environment} {sysroot : Sysroot}
  {io : DirectoryIO} {directory : Directory}

/-- Without advertising, the service file is deleted. -/
theorem lookup_of_not_advertised (env : Environment) (sysroot : Sysroot) (directory : Directory)
    (hdelete : io.delete (ostreeServiceFile 0) = none)
    (hreturned : (updateServiceFile env sysroot io directory false).1 ≠ .aborted) :
    (updateServiceFile env sysroot io directory false).2.lookup (ostreeServiceFile 0) = none := by
  rw [updateServiceFile] at hreturned ⊢
  cases hcommit : advertisableCommit sysroot with
  | error failure =>
      rw [hcommit] at hreturned
      exact absurd rfl hreturned
  | ok commit =>
      simp only [Bool.false_and, Bool.false_eq_true, if_false]
      exact lookup_deleteFileIfExists hdelete

theorem lookup_of_main_ok {configFile : Option String} {configs : List Eus.RepoConfig}
    (hdelete : io.delete (ostreeServiceFile 0) = none)
    (hread : Eus.readConfigFile disk dirs defaultKeyFile configFile = .ok (false, configs))
    (h : (main (.ok configFile) disk dirs defaultKeyFile env sysroot io directory).1 =
      .status .ok) :
    (main (.ok configFile) disk dirs defaultKeyFile env sysroot io directory).2.lookup
      (ostreeServiceFile 0) = none := by
  have hgone := lookup_of_not_advertised env sysroot directory hdelete
  rw [main] at h ⊢
  simp only [hread] at h ⊢
  generalize updateServiceFile env sysroot io directory false = updated at h hgone ⊢
  obtain ⟨outcome, directory'⟩ := updated
  rcases outcome with ((_ | error) | _) | _
  · cases h
  · cases h
  · exact hgone nofun
  · cases h

end Avahi
