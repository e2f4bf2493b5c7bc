import EosUpdater.Machine.Program
import EosUpdater.Updater.Daemon

/-!
# libostree

The data of libostree that polls look at, and what they use of libostree itself: `Ostree` has one
operation for each of its functions, over states `σ` of which nothing is known. The state stands for
the repository and for all else that the operations depend on, servers included. Operations that
only read take the state and return a result; those that also write return the new state with it.

The test hooks of `libeos-updater-util` are left out.
-/

namespace Updater

open Euu Machine

/-- `ostree_repo_load_variant` for a commit: what polls read of it, with its metadata. -/
structure Commit extends OstreeCommit where
  timestamp : ℕ
  /-- The metadata `ostree.endoflife-rebase`. -/
  endoflifeRebase : Option String
  /-- The metadata `version`. -/
  version : Option String
  /-- The metadata `eos-updater.release-notes-uri`. -/
  releaseNotesUri : Option String
  /-- The metadata `eos.checkpoint-target`. -/
  checkpointTarget : Option String
deriving DecidableEq, Repr

/-- `OstreeCollectionRef`. -/
structure OstreeCollectionRef where
  collectionId : String
  refName : String
deriving DecidableEq, Repr

/-- `OstreeDeployment`. The origin is what `g_key_file_get_string` returns for its refspec, if there
is an origin. -/
structure OstreeDeployment where
  osname : String
  csum : String
  origin : Option (Except GError String)

/-- The implementations of `OstreeRepoFinder` that the code makes. -/
inductive OstreeRepoFinder
  | config
  | avahi
  | mount
  | override (uris : List String)
deriving DecidableEq, Repr

/-- `OstreeRepoPullFlags`, as far as the code sets them. -/
inductive OstreeRepoPullFlags
  | commitOnly
deriving DecidableEq, Repr

/-- The options of `ostree_repo_pull_with_options`, as far as the code sets them. -/
structure RepoPullOptions where
  overrideUrl : Option String
  flags : OstreeRepoPullFlags
  refs : List String
deriving DecidableEq, Repr

/-- The functions of libostree, and results `ρ` of its repo finders. -/
structure Ostree (σ ρ : Type) where
  /-- `ostree_parse_refspec`: the remote, if there is one, and the ref. -/
  parseRefspec : String → Except GError (Option String × String)
  /-- `ostree_sysroot_load`, and then `ostree_sysroot_get_booted_deployment`. -/
  loadSysroot : σ → Except GError (Option OstreeDeployment)
  /-- `ostree_sysroot_get_repo`. -/
  sysrootRepo : σ → Except GError Unit
  /-- `eos_updater_local_repo`. -/
  localRepo : σ → Except GError Unit
  /-- `ostree_repo_get_remote_option` for `collection-id`. -/
  remoteCollectionId : σ → String → Except GError (Option String)
  /-- `ostree_repo_resolve_rev`. -/
  resolveRev : σ → String → Except GError String
  /-- `ostree_repo_load_variant` for a commit, and `ostree_repo_load_commit`. -/
  loadCommit : σ → String → Except GError Commit
  /-- `ostree_repo_pull_with_options`. -/
  pullWithOptions : String → RepoPullOptions → σ → Except GError Unit × σ
  /-- `ostree_repo_find_remotes_async`, until it has finished. -/
  findRemotes : OstreeCollectionRef → List OstreeRepoFinder → σ → Except GError (List ρ) × σ
  /-- `ostree_repo_pull_from_remotes_async`, until it has finished. -/
  pullFromRemotes : List ρ → OstreeRepoPullFlags → σ → Except GError Unit × σ

namespace Ostree

variable {σ ρ α : Type} (ostree : Ostree σ ρ)

/-- A result of libostree, among the ways in which the code can fail. -/
def check (result : Except GError α) : Except Failure α := result.mapError .error

/-- A check passes on what succeeds. -/
@[simp] theorem check_ok_iff {result : Except GError α} {a : α} :
    check result = .ok a ↔ result = .ok a := by
  cases result <;> simp [check, Except.mapError]

/-- `eos_updater_get_booted_deployment`, and `ostree_sysroot_load` followed by
`eos_updater_get_booted_deployment_from_loaded_sysroot`. -/
def bootedDeployment (s : σ) : Except GError OstreeDeployment := do
  match ← ostree.loadSysroot s with
  | some deployment => return deployment
  | none => throw ⟨.ioNotFound, "Not an ostree system"⟩

/-- `eos_updater_get_booted_checksum`. -/
def bootedChecksum (s : σ) : Except GError String := return (← ostree.bootedDeployment s).csum

end Ostree

end Updater
