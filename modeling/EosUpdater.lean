import EosUpdater.GLib.HashTable
import EosUpdater.GLib.Sort
import EosUpdater.GLib.Overwrite
import EosUpdater.GLib.Path
import EosUpdater.GLib.KeyFile
import EosUpdater.GLib.Unsigned
import EosUpdater.GLib.Base64
import EosUpdater.GLib.Markup
import EosUpdater.GLib.FileTree
import EosUpdater.Flatpak.Action
import EosUpdater.Flatpak.Comparison
import EosUpdater.Flatpak.Squash
import EosUpdater.Flatpak.Table
import EosUpdater.Flatpak.Flatten
import EosUpdater.Flatpak.Installation
import EosUpdater.Flatpak.Parse
import EosUpdater.Flatpak.Serials
import EosUpdater.Flatpak.Partition
import EosUpdater.Flatpak.Filters
import EosUpdater.Flatpak.Directories
import EosUpdater.Flatpak.Commit
import EosUpdater.Flatpak.Dependencies
import EosUpdater.Flatpak.DependencyOrder
import EosUpdater.Flatpak.DependencyFirst
import EosUpdater.Flatpak.UninstallOrder
import EosUpdater.Updater.PrepareFlatpaks
import EosUpdater.Updater.RemoteConflict
import EosUpdater.Installer.Perform
import EosUpdater.Installer.Apply
import EosUpdater.Installer.Squashing
import EosUpdater.Installer.Counter
import EosUpdater.Installer.Failure
import EosUpdater.Installer.Main
import EosUpdater.Installer.Idempotence
import EosUpdater.Installer.Resume
import EosUpdater.Installer.Check
import EosUpdater.Installer.Filtered
import EosUpdater.Util.Error
import EosUpdater.Util.Checkpoint
import EosUpdater.Util.ConfigFile
import EosUpdater.Util.Layers
import EosUpdater.Util.Contents
import EosUpdater.Util.Remove
import EosUpdater.Util.Unprotected
import EosUpdater.Machine.Run
import EosUpdater.Machine.Potential
import EosUpdater.Machine.Program
import EosUpdater.Machine.Saturated
import EosUpdater.Updater.Object
import EosUpdater.Updater.Daemon
import EosUpdater.Updater.Exclusion
import EosUpdater.Updater.Skeleton
import EosUpdater.Updater.Signals
import EosUpdater.Updater.Cancellation
import EosUpdater.Updater.Details
import EosUpdater.Updater.Sizes
import EosUpdater.Updater.Ostree
import EosUpdater.Updater.Rebase
import EosUpdater.Updater.CheckForUpdate
import EosUpdater.Updater.Poll
import EosUpdater.Updater.Sources
import EosUpdater.Updater.Fetchers
import EosUpdater.Updater.Schedule
import EosUpdater.Updater.Fetch
import EosUpdater.Updater.Scheduled
import EosUpdater.Updater.Apply
import EosUpdater.Updater.Replay
import EosUpdater.Avahi.ServiceFile
import EosUpdater.Avahi.Options
import EosUpdater.Avahi.Main
import EosUpdater.Avahi.Advertisable
import EosUpdater.Avahi.Cleanup
import EosUpdater.Avahi.Bloom
import EosUpdater.Avahi.Decode
import EosUpdater.UpdateServer.Repo
import EosUpdater.UpdateServer.Confinement
import EosUpdater.UpdateServer.Agreement
import EosUpdater.UpdateServer.Server
import EosUpdater.UpdateServer.Timeout
import EosUpdater.UpdateServer.Download
import EosUpdater.UpdateServer.Config
import EosUpdater.UpdateServer.Main
import EosUpdater.UpdateServer.Served
import EosUpdater.Avahi.Program
import EosUpdater.Autoupdater.Main
import EosUpdater.Autoupdater.Program
import EosUpdater.Autoupdater.Delay
import EosUpdater.Autoupdater.Schedule
import EosUpdater.Autoupdater.Response
import EosUpdater.Autoupdater.Driving
import EosUpdater.Autoupdater.Alone
import EosUpdater.Ctl.Update
import EosUpdater.Ctl.ExitStatus
import EosUpdater.Ctl.Server
import EosUpdater.Installer.History
import EosUpdater.PrepareVolume.Main
