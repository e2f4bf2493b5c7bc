import Mathlib.Algebra.Ring.Int.Defs

/-!
# Errors

`GError` with the domains and codes that the code looks at, among them the errors of
`libeos-updater-util/types.c`, and the names under which D-Bus reports them.
-/

namespace Euu

/-- The domain and code of a `GError`, as far as the code looks at it. -/
inductive ErrorCode
  | flatpakNotInstalled
  | flatpakAlreadyInstalled
  | flatpakSkipped
  | flatpakAborted
  | updaterWrongState
  | updaterLiveBoot
  | updaterNotOstreeSystem
  | updaterFetching
  | updaterMalformedAutoinstallSpec
  | updaterUnknownEntryInAutoinstallSpec
  | updaterFlatpakRemoteConflict
  | ioFailed
  | ioNotFound
  | ioExists
  | ioCancelled
  | fileNoent
  | other (domain : String) (code : ℤ)
deriving DecidableEq, Repr

/-- `GError`. -/
structure GError where
  code : ErrorCode
  message : String
deriving DecidableEq, Repr

/-- `g_prefix_error`. -/
def prefixError (text : String) (e : GError) : GError := { e with message := text ++ e.message }

/-- How a function can fail to return a result: it sets an error, or an assertion in it aborts the
process. -/
inductive Failure
  | error (error : GError)
  | aborted
deriving DecidableEq, Repr

/-- How a function that reads autoinstall files can fail to return a result: it sets an error; it
returns `NULL` and sets none, as it does where `g_return_val_if_fail` has found fault with an
argument; or it reads memory that was never written, after which anything may happen. -/
inductive ReadFailure
  | error (error : GError)
  | unset
  | undefined
deriving DecidableEq, Repr

/-- `g_prefix_error` on what reading has left: it does nothing where no error is set. -/
def prefixFailure (text : String) : ReadFailure → ReadFailure
  | .error e => .error (prefixError text e)
  | .unset => .unset
  | .undefined => .undefined

namespace ErrorCode

/-- The domain of an error, as a string. -/
def domain : ErrorCode → String
  | flatpakNotInstalled | flatpakAlreadyInstalled | flatpakSkipped | flatpakAborted =>
      "flatpak-error-quark"
  | updaterWrongState | updaterLiveBoot | updaterNotOstreeSystem | updaterFetching
  | updaterMalformedAutoinstallSpec | updaterUnknownEntryInAutoinstallSpec
  | updaterFlatpakRemoteConflict => "eos-updater-error-quark"
  | ioFailed | ioNotFound | ioExists | ioCancelled => "g-io-error-quark"
  | fileNoent => "g-file-error-quark"
  | other domain _ => domain

/-- The code of an error within its domain. -/
def number : ErrorCode → ℤ
  | flatpakAlreadyInstalled => 0
  | flatpakNotInstalled => 1
  | flatpakAborted => 4
  | flatpakSkipped => 5
  | updaterWrongState => 0
  | updaterLiveBoot => 1
  | updaterNotOstreeSystem => 3
  | updaterFetching => 4
  | updaterMalformedAutoinstallSpec => 5
  | updaterUnknownEntryInAutoinstallSpec => 6
  | updaterFlatpakRemoteConflict => 7
  | ioFailed => 0
  | ioNotFound => 1
  | ioExists => 2
  | ioCancelled => 19
  | fileNoent => 4
  | other _ code => code

/-- `eos_updater_error_entries`, and the name that the daemon registers for cancellation. -/
def registeredName : ErrorCode → Option String
  | updaterWrongState => some "com.endlessm.Updater.Error.WrongState"
  | updaterLiveBoot => some "com.endlessm.Updater.Error.LiveBoot"
  | other "eos-updater-error-quark" 2 => some "com.endlessm.Updater.Error.WrongConfiguration"
  | updaterNotOstreeSystem => some "com.endlessm.Updater.Error.NotOstreeSystem"
  | updaterFetching => some "com.endlessm.Updater.Error.Fetching"
  | updaterMalformedAutoinstallSpec =>
      some "com.endlessm.Updater.Error.MalformedAutoinstallSpec"
  | updaterUnknownEntryInAutoinstallSpec =>
      some "com.endlessm.Updater.Error.UnknownEntryInAutoinstallSpec"
  | updaterFlatpakRemoteConflict => some "com.endlessm.Updater.Error.FlatpakRemoteConflict"
  | other "eos-updater-error-quark" 8 => some "com.endlessm.Updater.Error.MeteredConnection"
  | ioCancelled => some "com.endlessm.Updater.Error.Cancelled"
  | _ => none

/-- How `g_dbus_error_encode_gerror` writes a character of an unregistered domain. -/
def encodeChar (c : Char) : String :=
  if c.isAlphanum then c.toString
  else "_" ++ String.ofList [Nat.digitChar (c.toNat / 16), Nat.digitChar (c.toNat % 16)]

/-- `g_dbus_error_encode_gerror`. -/
def dbusName (code : ErrorCode) : String :=
  code.registeredName.getD <| "org.gtk.GDBus.UnmappedGError.Quark._" ++
    String.join (code.domain.toList.map encodeChar) ++ ".Code" ++ toString code.number

example : ioFailed.dbusName = "org.gtk.GDBus.UnmappedGError.Quark._g_2dio_2derror_2dquark.Code0" :=
  by decide +kernel

end ErrorCode

end Euu
